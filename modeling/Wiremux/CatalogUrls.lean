import Wiremux.SanitizedErrors
import Wiremux.UpstreamUrls

set_option autoImplicit false

/-!
# The API URL of a catalog row

`split_openai_compat_api` cuts the API root that a catalog publishes into a base URL and
a chat path, or says why it is refused. What it accepts names no user.
-/
namespace Wiremux.CatalogUrls
open ChatDecoding (splitOnce)
open DocumentNames (isAsciiAlphanumeric)
open EmbeddedUrls (isAsciiAlphabetic)
open JsonValue (asciiLowerChar)
open SanitizedErrors (isControl)
open SseWriting PercentDecoding SplitText UrlOrigin UpstreamUrls

/-- A dialect that a profile can be written for. -/
inductive EmitWire where
  | chatCompletions | messages | gemini | converse
deriving DecidableEq

def EmitWire.tomlName : EmitWire → List Char
  | .chatCompletions => "chat-completions".toList
  | .messages => "messages".toList
  | .gemini => "gemini".toList
  | .converse => "converse".toList

def EmitWire.authScheme : EmitWire → List Char
  | .messages => "x-api-key".toList
  | .gemini => "header:x-goog-api-key".toList
  | .chatCompletions | .converse => "bearer".toList

def EmitWire.chatSuffix : EmitWire → List Char
  | .chatCompletions => "/chat/completions".toList
  | .messages => "/messages".toList
  | .gemini => "/models/{model}:generateContent".toList
  | .converse => "/converse".toList

def EmitWire.bareSuffix : EmitWire → List Char
  | .chatCompletions => "/v1/chat/completions".toList
  | .messages => "/v1/messages".toList
  | .gemini => "/v1beta/models/{model}:generateContent".toList
  | .converse => "/model/{model}/converse".toList

def isEnvIdent : List Char → Bool
  | [] => false
  | first :: rest =>
    (isAsciiAlphabetic first || first == '_') && rest.all fun c => isAsciiAlphanumeric c || c == '_'

def envMark : List Char := "\x7benv:".toList

def rewriteSteps : ℕ → List Char → List Char
  | 0, rest => rest
  | _, [] => []
  | steps + 1, c :: more =>
    match (stripPrefix? envMark (c :: more)).bind (splitOnce ['\x7d']) with
    | some (var, tail) => envMark ++ (var ++ '\x7d' :: rewriteSteps steps tail)
    | none =>
      match (stripPrefix? "$\x7b".toList (c :: more)).bind (splitOnce ['\x7d']) with
      | some (var, tail) =>
        if isEnvIdent var then envMark ++ (var ++ '\x7d' :: rewriteSteps steps tail)
        else c :: rewriteSteps steps more
      | none => c :: rewriteSteps steps more

def rewriteCatalogPlaceholders (input : List Char) : List Char := rewriteSteps input.length input

def bytesContainUserinfo : List UInt8 → Bool
  | [] => false
  | byte :: rest =>
    byte == 0x40 || (byte :: rest).take 3 == [0x25, 0x34, 0x30] || bytesContainUserinfo rest

def decodesToUserinfo : ℕ → List UInt8 → Bool
  | 0, current => bytesContainUserinfo current
  | guard + 1, current =>
    bytesContainUserinfo current ||
      (percentDecode current != current && decodesToUserinfo guard (percentDecode current))

def catalogAuthorityHasUserinfo (rest : List Char) : Bool :=
  let bytes := utf8 (authorityOf rest)
  decodesToUserinfo (bytes.length + 1) bytes

def hostParts : List Char → List (List Char)
  | [] => [[]]
  | c :: rest =>
    match hostParts rest with
    | part :: parts => if endsHost c then [] :: part :: parts else (c :: part) :: parts
    | [] => [[c]]

def schemeLessHidesUserinfo (raw : List Char) : Bool :=
  raw.contains '@' || (hostParts (raw.dropWhile (· == '/'))).any catalogAuthorityHasUserinfo

def splitCatalogQuery (rest : List Char) : List Char × Option (List Char) :=
  let noFrag := match splitOnce ['#'] rest with
    | some (path, _) => path
    | none => rest
  match splitOnce ['?'] noFrag with
  | some (path, query) => if query.isEmpty then (path, none) else (path, some query)
  | none => (noFrag, none)

def isDigit (c : Char) : Bool := '0' ≤ c && c ≤ '9'

def catalogHostLabel (hostPort : List Char) : Option (List Char) :=
  match stripPrefix? ['['] hostPort with
  | some inner =>
    match splitOnce [']'] inner with
    | none => none
    | some (host, rest) =>
      let portOk := rest.isEmpty ||
        (stripPrefix? [':'] rest).any fun port => !port.isEmpty && port.all isDigit
      if !portOk || host.isEmpty then none else some host
  | none =>
    if hostPort.count ':' > 1 then none
    else some ((hostPort.takeWhile (· != ':')).takeWhile (· != '\x7b'))

def isLoopbackHost (host : List Char) : Bool :=
  ["127.0.0.1".toList, "localhost".toList, "::1".toList, "[::1]".toList].contains host

def refusedChar (c : Char) : Bool := isControl c || ['"', '\\', '<', '>', ' '].contains c

/-- Host and port, and the path with a leading slash and no trailing one. -/
def splitHostPath (pathPart : List Char) : List Char × List Char :=
  match splitOnce ['/'] pathPart with
  | some (host, path) =>
    let path := trimEndSlashes path
    if path.isEmpty then (host, []) else (host, '/' :: path)
  | none => (pathPart, [])

def perplexityHost : List Char := "api.perplexity.ai".toList

def apiSuffix (wire : EmitWire) (host path : List Char) (query : Option (List Char)) : List Char :=
  let suffix :=
    if host.map asciiLowerChar == perplexityHost && wire == .chatCompletions &&
        (path.isEmpty || path == ['/']) then
      "/chat/completions".toList
    else if path.isEmpty || path == ['/'] then wire.bareSuffix
    else path ++ wire.chatSuffix
  match query with
  | some query => suffix ++ '?' :: query
  | none => suffix

def splitOpenaiCompatApi (raw : List Char) (wire : EmitWire) :
    Except (List Char) (List Char × List Char) :=
  let raw := trimEndSlashes (trim raw)
  if raw.any refusedChar then .error "URL contains a character that is not allowed".toList
  else match splitOnce schemeEnd raw with
  | none =>
    -- a missing scheme still has to hide the password
    .error (if schemeLessHidesUserinfo raw then "not an absolute URL".toList
      else "not an absolute URL: ".toList ++ raw)
  | some (scheme, rest) =>
    if catalogAuthorityHasUserinfo rest then .error "api URL must not include userinfo".toList
    else if scheme != "https".toList && scheme != "http".toList then
      .error ("URL scheme must be https (or http on loopback): ".toList ++ raw)
    else
      let (pathPart, query) := splitCatalogQuery rest
      let (hostPort, path) := splitHostPath pathPart
      match catalogHostLabel hostPort with
      | none => .error "URL has no host".toList
      | some host =>
        if scheme == "http".toList && !isLoopbackHost host && !host.isEmpty then
          .error "http is only allowed for loopback hosts".toList
        else if hostPort.isEmpty then .error "URL has no host".toList
        else .ok (scheme ++ (schemeEnd ++ hostPort), apiSuffix wire host path query)

variable {rest front back text : List Char} {c : Char}

theorem mem_containsUserinfo {bytes : List UInt8} (h : 0x40 ∈ bytes) :
    bytesContainUserinfo bytes = true := by
  induction bytes with
  | nil => cases h
  | cons byte bytes ih =>
    rw [bytesContainUserinfo]
    rcases List.mem_cons.mp h with rfl | h
    · rfl
    · rw [ih h, Bool.or_true]

theorem at_notMem_authority (h : catalogAuthorityHasUserinfo rest = false) :
    '@' ∉ authorityOf rest := by
  intro hmem
  have hbyte : (0x40 : UInt8) ∈ utf8 (authorityOf rest) :=
    mem_utf8_ascii (c := '@') (by decide) hmem
  rw [catalogAuthorityHasUserinfo, decodesToUserinfo, mem_containsUserinfo hbyte, Bool.true_or] at h
  cases h

theorem before_some (h : splitOnce [c] text = some (front, back)) :
    front = text.takeWhile (· != c) := by
  rw [splitOnce_char] at h
  split at h
  · cases h
  · cases h
    rfl

theorem before_none (h : splitOnce [c] text = none) : text = text.takeWhile (· != c) := by
  rw [splitOnce_char] at h
  split at h
  · rename_i hempty
    have happend := List.takeWhile_append_dropWhile (p := (· != c)) (l := text)
    rw [hempty, List.append_nil] at happend
    exact happend.symm
  · cases h

theorem beforeQuery_eq (rest : List Char) : (splitCatalogQuery rest).1 =
    (rest.takeWhile (· != '#')).takeWhile (· != '?') := by
  have hfrag : (match splitOnce ['#'] rest with
      | some (path, _) => path
      | none => rest) = rest.takeWhile (· != '#') := by
    split
    · exact before_some ‹_›
    · exact before_none ‹_›
  unfold splitCatalogQuery
  rw [hfrag]
  dsimp only
  split
  · rename_i hsplit
    split
    · exact before_some hsplit
    · exact before_some hsplit
  · exact before_none ‹_›

theorem hostPort_eq (rest : List Char) :
    (splitHostPath (splitCatalogQuery rest).1).1 = authorityOf rest := by
  have hhost : (splitHostPath (splitCatalogQuery rest).1).1 =
      (splitCatalogQuery rest).1.takeWhile (· != '/') := by
    unfold splitHostPath
    split
    · rename_i hsplit
      dsimp only
      split
      · exact before_some hsplit
      · exact before_some hsplit
    · exact before_none ‹_›
  rw [hhost, beforeQuery_eq, List.takeWhile_takeWhile, List.takeWhile_takeWhile, authorityOf]
  congr 1
  funext c
  rw [Bool.eq_iff_iff]
  simp only [bne_iff_ne, decide_eq_true_eq, endsHost, List.contains_cons, List.contains_nil,
    Bool.or_false, Bool.not_eq_true', Bool.or_eq_false_iff, beq_eq_false_iff_ne]
  tauto

/-- A URL that is accepted has an HTTP scheme, and no user in front of its host. -/
theorem splitOpenaiCompatApi_ok {raw origin suffix : List Char} {wire : EmitWire}
    (h : splitOpenaiCompatApi raw wire = .ok (origin, suffix)) :
    ∃ scheme host, (scheme = "https".toList ∨ scheme = "http".toList) ∧
      origin = scheme ++ (schemeEnd ++ host) ∧ host ≠ [] ∧ '@' ∉ host := by
  unfold splitOpenaiCompatApi at h
  dsimp only at h
  split at h
  · cases h
  split at h
  · cases h
  rename_i scheme rest hsplit
  split at h
  · cases h
  rename_i huser
  split at h
  · cases h
  rename_i hscheme
  split at h
  · cases h
  rename_i host hlabel
  split at h
  · cases h
  split at h
  · cases h
  rename_i hempty
  cases h
  refine ⟨scheme, _, ?_, rfl, ?_, ?_⟩
  · by_contra hnot
    obtain ⟨hhttps, hhttp⟩ := not_or.mp hnot
    exact hscheme (by rw [bne_iff_ne.mpr hhttps, bne_iff_ne.mpr hhttp]; rfl)
  · exact fun hnil => hempty (List.isEmpty_iff.mpr hnil)
  · rw [hostPort_eq]
    exact at_notMem_authority (Bool.eq_false_iff.mpr huser)

end Wiremux.CatalogUrls
