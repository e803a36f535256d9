import Wiremux.CredentialPointers

set_option autoImplicit false

/-!
# Changing a credentials document

What a login, a refresh or a removal makes of the document it read: the tokens
are set through pointers, an entry is removed under its key.
-/
namespace Wiremux.CredentialWriteback
open JsonValue CredentialPointers

def stripPrefix (start text : String) : Option String :=
  if start.toList.isPrefixOf text.toList then some (String.ofList (text.toList.drop start.toList.length))
  else none

def stripSuffix (ending text : String) : Option String :=
  if ending.toList.isSuffixOf text.toList then
    some (String.ofList (text.toList.take (text.toList.length - ending.toList.length)))
  else none

def hasInfix (inner text : String) : Bool := text.toList.tails.any inner.toList.isPrefixOf

def trimEndSlashes (text : String) : String :=
  String.ofList ((text.toList.reverse.dropWhile (· = '/')).reverse)

inductive CredsFormat where
  | jsonPointer
  | claudeCredentials
  | oidcAuthJson
  | copilotHosts
deriving DecidableEq

inductive ExpiresUnit where
  | ms
  | s

structure OauthPack where
  tokenUrl : String
  authorizeUrl : Option String := none
  clientId : Option String := none
  credsFormat : Option CredsFormat := none
  accessTokenPtr : Option String := none
  refreshTokenPtr : Option String := none
  expiresPtr : Option String := none
  expiresUnit : Option ExpiresUnit := none

structure TokenExchangeResponse where
  accessToken : String
  refreshToken : Option String := none
  expiresIn : Option ℕ := none

/-- Pointers and token values of one write-back. -/
structure TokenWrite where
  accessPtr : String
  refreshPtr : Option String := none
  expiresPtr : Option String := none
  expiresUnit : ExpiresUnit := .s
  accessToken : String
  refreshToken : Option String := none
  expiresInSecs : ℕ := 3600
  expiresRfc3339 : Bool := false
  tokenUrlPtr : Option String := none
  tokenUrl : Option String := none

def u64Max : ℕ := 18446744073709551615

def saturate (n : ℕ) : ℕ := min n u64Max

def maxExpiresInSecs : ℕ := 10 * 365 * 24 * 3600

def padded (width n : ℕ) : String :=
  let digits := toString n
  String.ofList (List.replicate (width - digits.length) '0') ++ digits

def formatRfc3339Epoch (totalSecs : ℕ) : String :=
  let days := totalSecs / 86400 + 719468
  let daySecs := totalSecs % 86400
  let era := days / 146097
  let doe := days % 146097
  let yoe := (doe - doe / 1460 + doe / 36524 - doe / 146096) / 365
  let doy := doe - (365 * yoe + yoe / 4 - yoe / 100)
  let mp := (5 * doy + 2) / 153
  let d := doy - (153 * mp + 2) / 5 + 1
  let m := if mp < 10 then mp + 3 else mp - 9
  let y := if m ≤ 2 then yoe + era * 400 + 1 else yoe + era * 400
  padded 4 y ++ "-" ++ padded 2 m ++ "-" ++ padded 2 d ++ "T" ++ padded 2 (daySecs / 3600) ++ ":" ++
    padded 2 (daySecs % 3600 / 60) ++ ":" ++ padded 2 (daySecs % 60) ++ "Z"

def formatRfc3339NowPlus (now seconds : ℕ) : String :=
  formatRfc3339Epoch (saturate (now / 1000 + min seconds maxExpiresInSecs))

def expiresValue (doc : Value) (ptr : String) (w : TokenWrite) (now : ℕ) : Value :=
  let existingIsString := ((pointerGet doc ptr).bind Value.asStr?).isSome
  if existingIsString || w.expiresRfc3339 then .string (formatRfc3339NowPlus now w.expiresInSecs)
  else
    match w.expiresUnit with
    | .ms => .number (.posInt (saturate (saturate now + saturate (w.expiresInSecs * 1000))))
    | .s => .number (.posInt (saturate (now / 1000 + w.expiresInSecs)))

def setSome (doc : Value) (ptr : Option String) (value : Option Value) : Except AuthError Value :=
  match ptr, value with
  | some ptr, some value => pointerSet doc ptr value
  | _, _ => .ok doc

def rootPointers (w : TokenWrite) : Bool :=
  w.accessPtr = "" || w.refreshPtr = some "" || w.expiresPtr = some "" || w.tokenUrlPtr = some ""

def applyTokens (doc : Value) (w : TokenWrite) (now : ℕ) : Except AuthError Value :=
  if isBlank w.accessToken then .error .emptyWriteRefused
  else if !doc.isObject then .error .emptyWriteRefused
  else if rootPointers w then .error .emptyWriteRefused
  else
    match pointerSet doc w.accessPtr w.accessToken with
    | .error e => .error e
    | .ok doc =>
      match setSome doc w.refreshPtr (w.refreshToken.map Value.string) with
      | .error e => .error e
      | .ok doc =>
        match setSome doc w.expiresPtr (w.expiresPtr.map fun ptr => expiresValue doc ptr w now) with
        | .error e => .error e
        | .ok doc => setSome doc w.tokenUrlPtr ((w.tokenUrl.filter (· ≠ "")).map Value.string)

def issuerOrigin (url : String) : Option String :=
  let parts := match stripPrefix "https://" url with
    | some rest => some ("https", rest)
    | none => (stripPrefix "http://" url).map fun rest => ("http", rest)
  parts.bind fun p =>
    let host := trim (String.ofList (p.2.toList.takeWhile (· ≠ '/')))
    if host = "" then none else some (p.1 ++ "://" ++ host)

def oidcProfileKey (issuer clientId : String) : String := trimEndSlashes issuer ++ "::" ++ clientId

def oidcIssuerAndClient (oauth : OauthPack) : Except AuthError (String × String) :=
  let client := ((oauth.clientId.map trim).filter (· ≠ "")).getD ""
  match (oauth.authorizeUrl.bind issuerOrigin).or (issuerOrigin oauth.tokenUrl) with
  | none => .error (.missingField "oauth issuer (authorize_url or token_url origin)")
  | some issuer => .ok (issuer, client)

/-- One match is it, none keeps the wanted key, more are refused. -/
def onlyMatch (want : String) (refusal : ℕ → String) : List String → Except AuthError String
  | [] => .ok want
  | [one] => .ok one
  | many => .error (.missingField (refusal many.length))

def isNamed (want key : String) : Bool :=
  ((stripPrefix want key).bind (stripPrefix "@")).any fun name =>
    name ≠ "" && !hasInfix "::" name && !hasInfix "/" name

def selectOidcEntryKey (doc : Option Value) (want : String) : Except AuthError String :=
  match doc with
  | some (.object fields) =>
    let keys := fields.map Prod.fst
    if keys.contains want then .ok want
    else
      match (stripSuffix "::" want).filter (· ≠ "") with
      | some issuer =>
        onlyMatch want (fun n => s!"oauth.client_id ({n} issuer entries; set client_id to pick one)")
          (keys.filter fun key => (issuer ++ "::").toList.isPrefixOf key.toList)
      | none =>
        onlyMatch want
          (fun n => s!"oauth.client_id ({n} named entries; set client_id to one store name)")
          (keys.filter (isNamed want))
  | _ => .ok want

structure PersistPtrs where
  access : String
  refresh : Option String
  expires : Option String
  expiresRfc3339 : Bool

def oidcStorePointers (oauth : OauthPack) (doc : Option Value) :
    Except AuthError (Option (String × String × String)) :=
  if oauth.credsFormat ≠ some .oidcAuthJson then .ok none
  else if oauth.accessTokenPtr.isSome then .ok none
  else
    match oidcIssuerAndClient oauth with
    | .error e => .error e
    | .ok (issuer, client) =>
      if client = "" && doc.isNone then .error (.missingField "oauth.client_id")
      else
        (selectOidcEntryKey doc (oidcProfileKey issuer client)).map fun entry =>
          let escaped := escapePointerToken entry
          some ("/" ++ escaped ++ "/key", "/" ++ escaped ++ "/refresh_token",
            "/" ++ escaped ++ "/expires_at")

def selectCopilotHost (doc : Option Value) : String :=
  match doc with
  | some (.object fields) =>
    ((fields.find? fun f => (f.2.strAt? "oauth_token").any (· ≠ "")).map Prod.fst).getD "github.com"
  | _ => "github.com"

def jsonString (v : Value) : Option String := (v.asStr?.map trim).filter (· ≠ "")

def copilotStorePointers (oauth : OauthPack) (doc : Option Value) :
    Option (String × Option String) :=
  if oauth.credsFormat ≠ some .copilotHosts then none
  else if oauth.accessTokenPtr.isSome then none
  else
    let escaped := escapePointerToken (selectCopilotHost doc)
    let ptr := "/" ++ escaped ++ "/refresh_token"
    let stored := ((doc.bind fun d => pointerGet d ptr).bind jsonString).map fun _ => ptr
    some ("/" ++ escaped ++ "/oauth_token", oauth.refreshTokenPtr.or stored)

def persistStorePointers (oauth : OauthPack) (doc : Option Value) : Except AuthError PersistPtrs :=
  match oidcStorePointers oauth doc with
  | .error e => .error e
  | .ok (some (access, refresh, expires)) => .ok ⟨access, some refresh, some expires, true⟩
  | .ok none =>
    match copilotStorePointers oauth doc with
    | some (access, refresh) => .ok ⟨access, refresh, none, false⟩
    | none => .ok ⟨oauth.accessTokenPtr.getD "/access_token",
        oauth.refreshTokenPtr.or (some "/refresh_token"), oauth.expiresPtr.or (some "/expires_in"), false⟩

def oidcTokenUrlPtr (oauth : OauthPack) (accessPtr : String) : Option String :=
  if oauth.credsFormat ≠ some .oidcAuthJson then none
  else (stripSuffix "/key" accessPtr).map fun entry => entry ++ "/token_url"

def oidcTokenUrlValue (oauth : OauthPack) : Option String :=
  if oauth.credsFormat = some .oidcAuthJson then some oauth.tokenUrl else none

/-- What `persist_login_tokens` refuses before it looks at the store. -/
def loginRefused (oauth : OauthPack) (tokens : TokenExchangeResponse) : Option AuthError :=
  if isBlank tokens.accessToken then some .emptyWriteRefused
  else if oauth.credsFormat = some .claudeCredentials then
    some (.tokenProvider
      "refusing to invent a Claude credentials file; run the setup-token flow")
  else none

/-- The write of a login, from the document it found. -/
def loginWrite (oauth : OauthPack) (tokens : TokenExchangeResponse) (existing : Option Value) :
    Except AuthError TokenWrite :=
  (persistStorePointers oauth existing).map fun ptrs =>
    { accessPtr := ptrs.access, refreshPtr := ptrs.refresh, expiresPtr := ptrs.expires,
      expiresUnit := oauth.expiresUnit.getD .s, accessToken := tokens.accessToken,
      refreshToken := tokens.refreshToken, expiresInSecs := tokens.expiresIn.getD 3600,
      expiresRfc3339 := ptrs.expiresRfc3339, tokenUrlPtr := oidcTokenUrlPtr oauth ptrs.access,
      tokenUrl := oidcTokenUrlValue oauth }

/-- The key of the entry that a removal takes out. -/
def entryKey (oauth : OauthPack) (doc : Value) : Except AuthError String :=
  match oidcIssuerAndClient oauth with
  | .error e => .error e
  | .ok (issuer, client) => selectOidcEntryKey (some doc) (oidcProfileKey issuer client)

/-- The document without the entry, or `none` where no entry is left. -/
def removeEntry (oauth : OauthPack) (doc : Value) : Except AuthError (Option Value) :=
  if !doc.isObject then
    .error (.tokenProvider "auth file is not a JSON object; refusing to remove")
  else
    match oidcIssuerAndClient oauth with
    | .error e => .error e
    | .ok (issuer, client) =>
      let want := oidcProfileKey issuer client
      match selectOidcEntryKey (some doc) want with
      | .error e => .error e
      | .ok key =>
        if (doc.get? key).isNone then
          .error (.tokenProvider s!"auth profile {want} not found; refusing to write")
        else
          match doc.remove key with
          | .object [] => .ok none
          | rest => .ok (some rest)

/-- The entries that the pointers of a write lead into. -/
def TokenWrite.touches (w : TokenWrite) (k : String) : Prop :=
  ∃ ptr, (ptr = w.accessPtr ∨ some ptr = w.refreshPtr ∨ some ptr = w.expiresPtr ∨
    some ptr = w.tokenUrlPtr) ∧ headToken ptr = some k

theorem setSome_object {doc doc' : Value} {ptr : Option String} {value : Option Value}
    (hobject : doc.isObject = true) (h : setSome doc ptr value = .ok doc') :
    doc'.isObject = true ∧
      ∀ k, (∀ p, ptr = some p → headToken p ≠ some k) → doc'.get? k = doc.get? k := by
  unfold setSome at h
  split at h
  · rename_i p v
    obtain ⟨hdoc, hframe⟩ := pointerSet_object hobject h
    exact ⟨hdoc, fun k hk => hframe k (hk p rfl)⟩
  · obtain rfl := Except.ok.inj h
    exact ⟨hobject, fun _ _ => rfl⟩

theorem applyTokens_object {doc doc' : Value} {w : TokenWrite} {now : ℕ}
    (h : applyTokens doc w now = .ok doc') :
    doc'.isObject = true ∧ ∀ k, ¬ w.touches k → doc'.get? k = doc.get? k := by
  unfold applyTokens at h
  split at h
  · cases h
  · split at h
    · cases h
    · rename_i hobject
      have hobject : doc.isObject = true := by simpa using hobject
      split at h
      · cases h
      · split at h
        · cases h
        · rename_i doc1 haccess
          obtain ⟨hdoc1, hframe1⟩ := pointerSet_object hobject haccess
          split at h
          · cases h
          · rename_i doc2 hrefresh
            obtain ⟨hdoc2, hframe2⟩ := setSome_object hdoc1 hrefresh
            split at h
            · cases h
            · rename_i doc3 hexpires
              obtain ⟨hdoc3, hframe3⟩ := setSome_object hdoc2 hexpires
              obtain ⟨hdoc', hframe'⟩ := setSome_object hdoc3 h
              refine ⟨hdoc', fun k hk => ?_⟩
              have houtside : ∀ ptr, (ptr = w.accessPtr ∨ some ptr = w.refreshPtr ∨
                  some ptr = w.expiresPtr ∨ some ptr = w.tokenUrlPtr) → headToken ptr ≠ some k :=
                fun ptr hptr hhead => hk ⟨ptr, hptr, hhead⟩
              calc doc'.get? k = doc3.get? k :=
                    hframe' k fun p hp => houtside p (.inr (.inr (.inr hp.symm)))
                _ = doc2.get? k := hframe3 k fun p hp => houtside p (.inr (.inr (.inl hp.symm)))
                _ = doc1.get? k := hframe2 k fun p hp => houtside p (.inr (.inl hp.symm))
                _ = doc.get? k := hframe1 k (houtside _ (.inl rfl))

theorem get?_remove_of_ne {key other : String} (v : Value) (h : other ≠ key) :
    (v.remove key).get? other = v.get? other := by
  cases v with
  | object fields =>
    change (fields.filter fun f => f.1 ≠ key).lookup other = fields.lookup other
    induction fields with
    | nil => rfl
    | cons f rest ih =>
      by_cases hkey : f.1 = key
      · rw [List.filter_cons_of_neg (by simpa using hkey), ih, List.lookup_cons,
          beq_false_of_ne (fun heq => h (heq.trans hkey))]
      · rw [List.filter_cons_of_pos (by simpa using hkey), List.lookup_cons, List.lookup_cons, ih]
  | _ => rfl

theorem removeEntry_object {oauth : OauthPack} {doc : Value} {left : Option Value}
    (h : removeEntry oauth doc = .ok left) :
    (∀ d, left = some d → d.isObject = true) ∧
      ∀ k, (∀ key, entryKey oauth doc = .ok key → key ≠ k) →
        left.bind (fun d => d.get? k) = doc.get? k := by
  unfold removeEntry at h
  split at h
  · cases h
  · rename_i hobject
    split at h
    · cases h
    · rename_i issuer client hissuer
      simp only at h
      split at h
      · cases h
      · rename_i key hkey
        have hentry : entryKey oauth doc = .ok key := by
          rw [entryKey, hissuer]
          exact hkey
        split at h
        · cases h
        · have hother : ∀ k, (∀ key, entryKey oauth doc = .ok key → key ≠ k) →
              (doc.remove key).get? k = doc.get? k :=
            fun k hk => get?_remove_of_ne doc fun heq => hk key hentry heq.symm
          have hrest : (doc.remove key).isObject = true := by
            cases doc <;> simp_all [Value.remove, Value.isObject]
          split at h
          · rename_i hempty
            have hleft := Except.ok.inj h
            subst hleft
            refine ⟨fun d hd => (by cases hd), fun k hk => ?_⟩
            rw [← hother k hk, hempty]
            rfl
          · have hleft := Except.ok.inj h
            subst hleft
            exact ⟨fun d hd => Option.some.inj hd ▸ hrest, hother⟩

end Wiremux.CredentialWriteback
