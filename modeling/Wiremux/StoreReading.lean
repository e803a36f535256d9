import Mathlib.Data.Rat.Floor
import Wiremux.ChatDecoding
import Wiremux.CredentialWriteback

set_option autoImplicit false

/-!
# Reading tokens from a credentials document

Where a pack's tokens are in a document, how long the access token still lives, what
a provider takes from the document it was loaded from, and what a reload reads later.
-/
namespace Wiremux.StoreReading
open JsonValue CredentialPointers CredentialWriteback
open ChatDecoding (splitOnce)

def digitsOf (text : List Char) : Option ℕ :=
  if text.isEmpty || !text.all Char.isDigit then none
  else some (text.foldl (fun n c => n * 10 + (c.toNat - '0'.toNat)) 0)

/-- `str::parse` of an unsigned integer whose text is too short to overflow. -/
def parseUnsigned : List Char → Option ℕ
  | '+' :: rest => digitsOf rest
  | text => digitsOf text

def parseSigned : List Char → Option ℤ
  | '-' :: rest => (digitsOf rest).map fun n => -(n : ℤ)
  | text => (parseUnsigned text).map fun n => (n : ℤ)

/-- `&s[start..stop]` of an ASCII text. -/
def slice (s : List Char) (start stop : ℕ) : List Char := (s.drop start).take (stop - start)

def daysSinceEpoch (year : ℤ) (month day : ℕ) : ℤ :=
  let y := if month ≤ 2 then year - 1 else year
  let m := if month ≤ 2 then month + 9 else month - 3
  let era := y / 400
  let yoe := y % 400
  let doy : ℤ := (153 * m + 2) / 5 + day - 1
  let doe := yoe * 365 + yoe / 4 - yoe / 100 + doy
  era * 146097 + doe - 719468

def zoneStart (s : List Char) : Option ℕ :=
  if s[19]? = some '.' then
    ((s.drop 20).findIdx? fun c => c = 'Z' || c = '+' || c = '-').map (· + 20)
  else if 19 < s.length then some 19
  else none

def offsetSecs (s : List Char) : Option ℤ :=
  match zoneStart s with
  | none => some 0
  | some pos =>
    if s[pos]? = some 'Z' then some 0
    else if s.length < pos + 5 then some 0
    else
      let sign : ℤ := if s[pos]? = some '+' then 1 else -1
      let minutes := if s[pos + 3]? = some ':' then pos + 4 else pos + 3
      if s.length < minutes + 2 then none
      else
        (parseSigned (slice s (pos + 1) (pos + 3))).bind fun oh =>
        (parseSigned (slice s minutes (minutes + 2))).map fun om => sign * (oh * 3600 + om * 60)

def parseRfc3339 (text : String) : Option ℕ :=
  let s := (trim text).toList
  if (trim text).utf8ByteSize < 19 || !s.all (fun c => decide (c.toNat < 128)) then none
  else
    (parseSigned (slice s 0 4)).bind fun year =>
    (parseUnsigned (slice s 5 7)).bind fun month =>
    (parseUnsigned (slice s 8 10)).bind fun day =>
    (parseUnsigned (slice s 11 13)).bind fun hour =>
    (parseUnsigned (slice s 14 16)).bind fun min =>
    (parseUnsigned (slice s 17 19)).bind fun sec =>
      if month < 1 || 12 < month || day < 1 || 31 < day || 23 < hour || 59 < min || 59 < sec then none
      else
        (offsetSecs s).map fun offset =>
          (daysSinceEpoch year month day * 86400 + hour * 3600 + min * 60 + sec - offset).toNat

def defaultLifetime : ℕ := 3600 * 1000

def jsonU64 : Value → Option ℕ
  | .number (.posInt n) => some n
  | .number (.float q) => if 0 ≤ q then some (min ⌊q⌋.toNat u64Max) else none
  | _ => none

def lifetimeFromStoreExpires (value : Value) (unit : ExpiresUnit) (now : ℕ) : ℕ :=
  match value with
  | .string text => ((parseRfc3339 text).map fun secs => secs * 1000 - now).getD defaultLifetime
  | other =>
    match jsonU64 other, unit with
    | none, _ => defaultLifetime
    | some n, .ms => n - saturate now
    | some n, .s => (n - now / 1000) * 1000

structure StoreLayout where
  accessPtr : String
  refreshPtr : Option String
  expiresPtr : Option String
  expiresUnit : ExpiresUnit

def looksLikeClaude (oauth : OauthPack) (doc : Option Value) : Bool :=
  match oauth.credsFormat with
  | some .jsonPointer | some .oidcAuthJson | some .copilotHosts => false
  | some .claudeCredentials => true
  | none => oauth.accessTokenPtr.any (hasInfix "claudeAiOauth") ||
      doc.any fun d => (d.get? "claudeAiOauth").isSome || (d.get? "accessToken").isSome

def claudeLayout (oauth : OauthPack) (doc : Option Value) : StoreLayout :=
  let nestedOk := doc.any fun d => ((d.get? "claudeAiOauth").any Value.isObject) &&
    ((pointerGet d "/claudeAiOauth/accessToken").bind jsonString).isSome
  if nestedOk || doc.isNone then
    { accessPtr := oauth.accessTokenPtr.getD "/claudeAiOauth/accessToken"
      refreshPtr := some (oauth.refreshTokenPtr.getD "/claudeAiOauth/refreshToken")
      expiresPtr := some (oauth.expiresPtr.getD "/claudeAiOauth/expiresAt")
      expiresUnit := oauth.expiresUnit.getD .ms }
  else
    { accessPtr := "/accessToken", refreshPtr := some "/refreshToken", expiresPtr := some "/expiresAt"
      expiresUnit := oauth.expiresUnit.getD .ms }

def resolveLayout (oauth : OauthPack) (doc : Option Value) : Except AuthError StoreLayout :=
  let unit := oauth.expiresUnit.getD .s
  if oauth.credsFormat = some .claudeCredentials || looksLikeClaude oauth doc then .ok (claudeLayout oauth doc)
  else
    match oauth.accessTokenPtr with
    | some access => .ok ⟨access, oauth.refreshTokenPtr, oauth.expiresPtr, unit⟩
    | none =>
      match oidcStorePointers oauth doc with
      | .error e => .error e
      | .ok (some (access, refresh, expires)) => .ok ⟨access, some refresh, some expires, unit⟩
      | .ok none =>
        match copilotStorePointers oauth doc with
        | some (access, refresh) => .ok ⟨access, refresh, none, unit⟩
        | none => .ok ⟨"/access_token", oauth.refreshTokenPtr, oauth.expiresPtr, unit⟩

abbrev DocTokens := String × Option String × ℕ

def tokensFromDoc (doc : Value) (layout : StoreLayout) (now : ℕ) : Option DocTokens :=
  ((pointerGet doc layout.accessPtr).bind jsonString).map fun access =>
    (access, (layout.refreshPtr.bind (pointerGet doc)).bind jsonString,
      ((layout.expiresPtr.bind (pointerGet doc)).map fun v =>
        lifetimeFromStoreExpires v layout.expiresUnit now).getD defaultLifetime)

structure Loaded where
  tokens : DocTokens
  layout : StoreLayout
  storeTokenUrl : Option String

def copilotOrDefaultLifetime (oauth : OauthPack) (lifetime : ℕ) : ℕ :=
  if oauth.credsFormat = some .copilotHosts && lifetime = defaultLifetime then 8 * 3600 * 1000 else lifetime

def storedOidcTokenUrl (oauth : OauthPack) (doc : Value) : Option String :=
  if oauth.credsFormat ≠ some .oidcAuthJson then none
  else
    ((oidcStorePointers oauth (some doc)).toOption.join.bind fun ptrs => stripSuffix "/key" ptrs.1).bind
      fun entry => (pointerGet doc (entry ++ "/token_url")).bind jsonString

/-- The hint at the end of the text is `setup_hint` of the pack. -/
def emptyAccessError (hint : String) : AuthError :=
  .tokenProvider ("credentials have an empty access token; " ++ hint)

def loadDocument (hint : String) (oauth : OauthPack) (doc : Value) (now : ℕ) : Except AuthError Loaded :=
  match resolveLayout oauth (some doc) with
  | .error e => .error e
  | .ok layout =>
    match tokensFromDoc doc layout now with
    | none => .error (emptyAccessError hint)
    | some (access, refresh, lifetime) =>
      if isBlank access then .error (emptyAccessError hint)
      else .ok
        { tokens := (access, refresh, copilotOrDefaultLifetime oauth lifetime), layout := layout
          storeTokenUrl := storedOidcTokenUrl oauth doc }

def clientIdFromOidcAccessPtr (accessPtr : String) : Option String :=
  ((stripPrefix "/" accessPtr).bind (stripSuffix "/key")).bind fun entry =>
    (splitOnce "::".toList (unescapePointerToken entry).toList).bind fun halves =>
      let client := trim (String.ofList (halves.2.takeWhile (· ≠ '@')))
      if client = "" then none else some client

def adoptOidcClientId (oauth : OauthPack) (accessPtr : String) : OauthPack :=
  if (oauth.clientId.map trim).any (· ≠ "") then oauth
  else
    match clientIdFromOidcAccessPtr accessPtr with
    | none => oauth
    | some id => { oauth with clientId := some id }

/-- What `from_loaded` makes of the pack and the tokens. -/
structure Opened where
  oauth : OauthPack
  layout : StoreLayout
  access : String
  refresh : Option String
  lifetime : ℕ

/-- `from_loaded`. The URLs that `token_url_allowed` accepts are those the URL parser finds to
be https. -/
def fromLoaded (tokenUrlAllowed : String → Bool) (hint : String) (oauth : OauthPack) (loaded : Loaded) :
    Except AuthError Opened :=
  let oauth := adoptOidcClientId oauth loaded.layout.accessPtr
  let (access, refresh, lifetime) := loaded.tokens
  if isBlank access then .error (emptyAccessError hint)
  else if oauth.credsFormat = some .oidcAuthJson && refresh.all isBlank then
    .error (.tokenProvider "oidc-auth-json requires a non-empty refresh_token")
  else
    let oauth := match (loaded.storeTokenUrl.filter (· ≠ "")).filter (tokenUrlAllowed ·) with
      | some url => { oauth with tokenUrl := url }
      | none => oauth
    .ok { oauth := oauth, layout := loaded.layout, access := access,
          refresh := refresh.filter fun token => !isBlank token, lifetime := lifetime }

def openStore (tokenUrlAllowed : String → Bool) (hint : String) (oauth : OauthPack) (doc : Value) (now : ℕ) :
    Except AuthError Opened :=
  (loadDocument hint oauth doc now).bind (fromLoaded tokenUrlAllowed hint oauth)

/-- The layout of a reload: the pack's in the document as it is now, or the one at load time. -/
def reloadLayout (oauth : OauthPack) (layout : StoreLayout) (doc : Value) : StoreLayout :=
  (resolveLayout oauth (some doc)).toOption.getD layout

def storeTokensFromJson (oauth : OauthPack) (layout : StoreLayout) (doc : Value) (now : ℕ) :
    Option DocTokens :=
  (tokensFromDoc doc (reloadLayout oauth layout doc) now).filter fun tokens => tokens.1 ≠ ""

def refreshWrite (oauth : OauthPack) (layout : StoreLayout) (access : String) (refresh : Option String)
    (expiresIn : ℕ) : TokenWrite where
  accessPtr := layout.accessPtr
  refreshPtr := layout.refreshPtr
  expiresPtr := layout.expiresPtr
  expiresUnit := layout.expiresUnit
  accessToken := access
  refreshToken := refresh
  expiresInSecs := expiresIn
  expiresRfc3339 := oauth.credsFormat = some .oidcAuthJson
  tokenUrlPtr := oidcTokenUrlPtr oauth layout.accessPtr
  tokenUrl := oidcTokenUrlValue oauth

end Wiremux.StoreReading
