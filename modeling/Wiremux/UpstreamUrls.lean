import Mathlib.Data.Bool.AllAny
import Wiremux.PercentEncoding
import Wiremux.SplitText
import Wiremux.StreamEvents

set_option autoImplicit false

/-!
# The upstream URL of a model

`upstream_url_for_model` fills the model into the chat path of a profile, rewrites the
method of a streaming request and joins the path to the base URL.
-/
namespace Wiremux.UpstreamUrls
open StreamEvents SseWriting SplitText PercentEncoding
open ChatDecoding (splitOnce)
open JsonValue (isWhitespace asciiLowerChar)

section
variable {pattern text front back : List Char}

def stripPrefix? (pattern text : List Char) : Option (List Char) :=
  if pattern.isPrefixOf text then some (text.drop pattern.length) else none

def stripSuffix? (pattern text : List Char) : Option (List Char) :=
  if pattern.isSuffixOf text then some (text.take (text.length - pattern.length)) else none

def contains (pattern text : List Char) : Bool := (splitOnce pattern text).isSome

def replacen (pattern replacement : List Char) : Nat → List Char → List Char
  | 0, text => text
  | count + 1, text =>
    match splitOnce pattern text with
    | none => text
    | some (head, tail) => head ++ (replacement ++ replacen pattern replacement count tail)

def replace (pattern replacement text : List Char) : List Char :=
  replacen pattern replacement text.length text

def trim (text : List Char) : List Char :=
  ((text.dropWhile isWhitespace).reverse.dropWhile isWhitespace).reverse

def trimEndSlashes (text : List Char) : List Char := (text.reverse.dropWhile (· == '/')).reverse

theorem stripPrefix?_append (pattern rest : List Char) :
    stripPrefix? pattern (pattern ++ rest) = some rest := by
  rw [stripPrefix?, if_pos (List.isPrefixOf_iff_prefix.mpr (List.prefix_append pattern rest)),
    List.drop_left]

theorem stripSuffix?_append (front pattern : List Char) :
    stripSuffix? pattern (front ++ pattern) = some front := by
  rw [stripSuffix?, if_pos (List.isSuffixOf_iff_suffix.mpr (List.suffix_append front pattern)),
    List.length_append, Nat.add_sub_cancel, List.take_left]

theorem contains_false {c : Char} (hpattern : c ∈ pattern) (htext : c ∉ text) :
    contains pattern text = false := by
  rw [contains, splitOnce_none hpattern htext]
  rfl

theorem replacen_absent {c : Char} (hpattern : c ∈ pattern) (htext : c ∉ text)
    (replacement : List Char) (count : Nat) : replacen pattern replacement count text = text := by
  cases count with
  | zero => rfl
  | succ count => rw [replacen, splitOnce_none hpattern htext]

theorem replace_once {c : Char} {more : List Char} (hfront : c ∉ front) (hback : c ∉ back)
    (replacement : List Char) : replace (c :: more) replacement (front ++ (c :: more ++ back)) =
      front ++ (replacement ++ back) := by
  have hlength : (front ++ (c :: more ++ back)).length =
      (front.length + more.length + back.length) + 1 := by
    simp only [List.length_append, List.length_cons]
    omega
  rw [replace, hlength, replacen, splitOnce_at hfront]
  change front ++ (replacement ++ replacen (c :: more) replacement _ back) = _
  rw [replacen_absent List.mem_cons_self hback]

theorem dropWhile_head {p : Char → Bool} (h : ∀ c ∈ text.head?, p c = false) :
    text.dropWhile p = text := by
  cases text with
  | nil => rfl
  | cons c rest => rw [List.dropWhile_cons_of_neg (by rw [h c rfl]; exact Bool.false_ne_true)]

theorem trim_eq_self (hfirst : ∀ c ∈ text.head?, isWhitespace c = false)
    (hlast : ∀ c ∈ text.getLast?, isWhitespace c = false) : trim text = text := by
  rw [trim, dropWhile_head hfirst, dropWhile_head, List.reverse_reverse]
  rw [List.head?_reverse]
  exact hlast

end

/-- What the functions here read of a resolved profile. -/
structure Profile where
  baseUrl : Option (List Char)
  chatPath : Option (List Char)
  wire : Option Wire

def defaultChatPath : Wire → List Char
  | .chatCompletions => "/v1/chat/completions".toList
  | .messages => "/v1/messages".toList
  | .responses => "/v1/responses".toList
  | .gemini => "/v1beta/models/{model}:generateContent".toList
  | .converse => "/model/{model}/converse".toList

def missingBaseUrl : String := "profile has no base_url; set top-level `base_url` on the profile"

def modelPlace : List Char := "{model}".toList

def segmentByte (byte : UInt8) : Bool :=
  (0x41 ≤ byte && byte ≤ 0x5A) || (0x61 ≤ byte && byte ≤ 0x7A) || (0x30 ≤ byte && byte ≤ 0x39) ||
    byte == 0x2D || byte == 0x2E || byte == 0x5F || byte == 0x7E || byte == 0x3A

def encodeModelSegment (model : List Char) : List Char := percentEncode segmentByte model

def isAbsoluteHttpUrl (path : List Char) : Bool :=
  match splitOnce "://".toList path with
  | none => false
  | some (scheme, _) =>
    scheme.map asciiLowerChar == "http".toList || scheme.map asciiLowerChar == "https".toList

def rewriteVertexGlobalHost (url : List Char) : List Char :=
  replacen "://global-aiplatform.googleapis.com".toList "://aiplatform.googleapis.com".toList 1 url

def endsPath (c : Char) : Bool := c == '?' || c == '#'

def splitPathSuffix (path : List Char) : List Char × List Char :=
  (path.takeWhile (!endsPath ·), path.dropWhile (!endsPath ·))

def queryParts : List Char → List (List Char)
  | [] => [[]]
  | c :: rest =>
    if c == '?' || c == '&' then [] :: queryParts rest
    else
      match queryParts rest with
      | [] => [[c]]
      | part :: parts => (c :: part) :: parts

def withAltSse (suffix : List Char) : List Char :=
  if suffix.isEmpty then "?alt=sse".toList
  else
    let (query, fragment) : List Char × Option (List Char) :=
      match splitOnce ['#'] suffix with
      | some (query, fragment) => (query, some fragment)
      | none => (suffix, none)
    let out :=
      if query.isEmpty then "?alt=sse".toList
      else if (queryParts query).contains "alt=sse".toList then query
      else query ++ "&alt=sse".toList
    match fragment with
    | some fragment => out ++ '#' :: fragment
    | none => out

def rewriteStreamMethod (wire : Option Wire) (path : List Char) (stream : Bool) : List Char :=
  let (pathOnly, suffix) := splitPathSuffix path
  if stream = false then pathOnly ++ suffix
  else
    match wire, stripSuffix? ":generateContent".toList pathOnly,
      stripSuffix? ":rawPredict".toList pathOnly with
    | some .gemini, some lead, _ => lead ++ (":streamGenerateContent".toList ++ withAltSse suffix)
    | some .messages, _, some lead => lead ++ (":streamRawPredict".toList ++ suffix)
    | some .converse, _, _ =>
      if "/converse".toList.isSuffixOf pathOnly then pathOnly ++ ("-stream".toList ++ suffix)
      else pathOnly ++ suffix
    | _, _, _ => pathOnly ++ suffix

/-- The chat path of a profile, with the model in its places. -/
def filledPath (profile : Profile) (model : Option (List Char)) : Except String (List Char) :=
  let path := (profile.chatPath <|> profile.wire.map defaultChatPath).getD ['/']
  match model.filter fun model => !model.isEmpty with
  | some model =>
    if model = ['.'] ∨ model = ['.', '.'] then
      .error "model is a dot segment and would change the upstream path"
    else .ok (replace modelPlace (encodeModelSegment model) path)
  | none => .ok path

/-- The path that is joined to the base URL. -/
def upstreamPath (profile : Profile) (model : Option (List Char)) (stream : Bool) :
    Except String (List Char) :=
  match filledPath profile model with
  | .error message => .error message
  | .ok path =>
    if contains modelPlace path then
      .error "request has no model and the profile path still contains \x7bmodel\x7d"
    else .ok (trim (rewriteStreamMethod profile.wire path stream))

def joinBase (base path : List Char) : List Char :=
  if isAbsoluteHttpUrl path then rewriteVertexGlobalHost path
  else rewriteVertexGlobalHost
    (trimEndSlashes base ++ if ['/'].isPrefixOf path then path else '/' :: path)

def upstreamUrlForModel (profile : Profile) (model : Option (List Char)) (stream : Bool) :
    Except String (List Char) :=
  match profile.baseUrl with
  | none => .error missingBaseUrl
  | some base => (upstreamPath profile model stream).map (joinBase base)

theorem segmentByte_keepsPlain : KeepsPlain segmentByte where
  ascii := by
    have h : ∀ n : Fin 256, segmentByte (UInt8.ofNat n) = true → (n : Nat) < 0x80 := by
      decide +kernel
    intro byte hkept
    refine h ⟨byte.toNat, byte.toNat_lt⟩ ?_
    rw [UInt8.ofNat_toNat]
    exact hkept
  percent := by decide

def SegmentChar (c : Char) : Prop := KeptChar segmentByte c ∨ c = '%'

theorem segmentChar_of_mem {c : Char} {model : List Char} (h : c ∈ encodeModelSegment model) :
    SegmentChar c := by
  have hdigits : ∀ d ∈ hexDigits, KeptChar segmentByte d :=
    List.all_iff_forall_prop.mp (by decide)
  rcases mem_percentEncode segmentByte_keepsPlain h with hkept | hpercent | hdigit
  · exact .inl hkept
  · exact .inr hpercent
  · exact .inl (hdigits c hdigit)

instance (c : Char) : Decidable (SegmentChar c) := inferInstanceAs (Decidable (_ ∨ _))

theorem encodeModelSegment_injective {model other : List Char}
    (h : encodeModelSegment model = encodeModelSegment other) : utf8 model = utf8 other := by
  rw [← percentDecode_percentEncode segmentByte_keepsPlain model,
    ← percentDecode_percentEncode segmentByte_keepsPlain other]
  exact congrArg (fun text => PercentDecoding.percentDecode (utf8 text)) h

theorem encodeModelSegment_ne_nil {model : List Char} (h : model ≠ []) :
    encodeModelSegment model ≠ [] := by
  cases model with
  | nil => exact absurd rfl h
  | cons c rest =>
    intro hempty
    have hlength := flatMap_encodeByte_length segmentByte (utf8 (c :: rest))
    have htext := utf8_length_le (c :: rest)
    change _ ≤ (encodeModelSegment (c :: rest)).length at hlength
    rw [hempty] at hlength
    simp only [List.length_cons, List.length_nil] at hlength htext
    omega

theorem splitPathSuffix_append {front suffix : List Char} (hfront : ∀ c ∈ front, endsPath c = false)
    (hsuffix : ∀ c ∈ suffix.head?, endsPath c = true) :
    splitPathSuffix (front ++ suffix) = (front, suffix) := by
  have hall : ∀ c ∈ front, (!endsPath c) = true := fun c hc => by rw [hfront c hc]; rfl
  have hdrop : suffix.dropWhile (!endsPath ·) = suffix :=
    dropWhile_head fun c hc => by rw [hsuffix c hc]; rfl
  have htake : suffix.takeWhile (!endsPath ·) = [] := by
    cases suffix with
    | nil => rfl
    | cons c rest => rw [List.takeWhile_cons_of_neg (by rw [hsuffix c rfl]; exact Bool.false_ne_true)]
  rw [splitPathSuffix, List.takeWhile_append_of_pos hall, List.dropWhile_append_of_pos hall, hdrop,
    htake, List.append_nil]

theorem joinBase_slash (base rest : List Char) :
    joinBase base ('/' :: rest) = rewriteVertexGlobalHost (trimEndSlashes base ++ '/' :: rest) := by
  have habsolute : isAbsoluteHttpUrl ('/' :: rest) = false := by
    unfold isAbsoluteHttpUrl
    rw [splitOnce_cons, if_neg]
    · cases splitOnce "://".toList rest with
      | none => rfl
      | some halves =>
        change (('/' :: halves.1.map asciiLowerChar) == "http".toList ||
          ('/' :: halves.1.map asciiLowerChar) == "https".toList) = false
        simp
    · rw [List.isPrefixOf_iff_prefix]
      intro hprefix
      have hhead : ':' = '/' := (List.cons_prefix_cons.mp hprefix).1
      cases hhead
  rw [joinBase, habsolute]
  rfl

end Wiremux.UpstreamUrls
