import Wiremux.AuthorizeUrls
import Wiremux.SanitizedErrors

set_option autoImplicit false

/-!
# The login callback

The loopback server reads `code` and `state` of a callback query. A callback that echoes
both in any form encoding is accepted with its code for the state that was sent, and for
no other one.
-/
namespace Wiremux.PkceCallbacks
open ChatDecoding (splitOnce)
open Utf8Lossy SseWriting PercentDecoding PercentEncoding SplitText FormQueries AuthorizeUrls
open SanitizedErrors (sanitizeOauthErrorText)

def radixByte (first second : UInt8) : Option UInt8 :=
  if first = 0x2B then hexNibble second
  else (hexNibble first).bind fun hi => (hexNibble second).map fun lo => (hi <<< 4) ||| lo

def escapedByte : List UInt8 → Option UInt8
  | percent :: first :: second :: _ => if percent = 0x25 then radixByte first second else none
  | _ => none

def urlDecodeBytes : List UInt8 → List UInt8
  | [] => []
  | [a] => [plusByte a]
  | [a, b] => [plusByte a, plusByte b]
  | a :: b :: c :: rest =>
    match escapedByte (a :: b :: c :: rest) with
    | some byte => byte :: urlDecodeBytes rest
    | none => plusByte a :: urlDecodeBytes (b :: c :: rest)

def urlDecode (s : List Char) : List Char := fromUtf8Lossy (urlDecodeBytes (utf8 s))

structure CallbackFields where
  code : Option (List Char)
  state : Option (List Char)
  error : Option (List Char)
  errorDescription : Option (List Char)

/-- One pair of the query. A later pair of the same name takes its place. -/
def readPair (fields : CallbackFields) (pair : List Char) : CallbackFields :=
  match splitOnce ['='] pair with
  | none => fields
  | some (k, v) =>
    if k = "code".toList then { fields with code := some (urlDecode v) }
    else if k = "state".toList then { fields with state := some (urlDecode v) }
    else if k = "error".toList then { fields with error := some (urlDecode v) }
    else if k = "error_description".toList then { fields with errorDescription := some (urlDecode v) }
    else fields

def readPairs (query : List Char) : CallbackFields :=
  ((query.splitOn '&').filter (!·.isEmpty)).foldl readPair ⟨none, none, none, none⟩

def filled (text : Option (List Char)) : Option (List Char) := text.filter (!·.isEmpty)

def formatPkceVendorError (error description : Option (List Char)) : List Char :=
  let err := (filled error).getD "error".toList
  let raw := match filled description with
    | some desc => err ++ (": ".toList ++ desc)
    | none => err
  let summary := (sanitizeOauthErrorText (String.ofList raw)).toList
  if summary.isEmpty then "callback error".toList else "callback error ".toList ++ summary

def pkceCallbackFromQuery (query : List Char) : Except (List Char) (List Char × List Char) :=
  let fields := readPairs query
  match filled fields.code, filled fields.state with
  | some code, some state => .ok (code, state)
  | code, _ =>
    if fields.error.isSome || fields.errorDescription.isSome then
      .error (formatPkceVendorError fields.error fields.errorDescription)
    else if code.isNone then .error "callback missing code".toList
    else .error "callback missing state".toList

def pkceCallbackCode (query expectedState : List Char) : Except (List Char) (List Char) :=
  match pkceCallbackFromQuery query with
  | .error e => .error e
  | .ok (code, state) =>
    if state != expectedState then .error "callback state mismatch".toList else .ok code

/-- Bytes, and a way to write them: as they are, a blank as a plus sign, or as `%HH`. -/
inductive Written : List UInt8 → List UInt8 → Prop where
  | nil : Written [] []
  | plain {byte : UInt8} {bytes text : List UInt8} (hpercent : byte ≠ 0x25) (hplus : byte ≠ 0x2B)
      (h : Written bytes text) : Written (byte :: bytes) (byte :: text)
  | blank {bytes text : List UInt8} (h : Written bytes text) :
      Written (0x20 :: bytes) (0x2B :: text)
  | escaped {first second hi lo : UInt8} {bytes text : List UInt8} (hfirst : hexNibble first = some hi)
      (hsecond : hexNibble second = some lo) (h : Written bytes text) :
      Written (((hi <<< 4) ||| lo) :: bytes) (0x25 :: first :: second :: text)

def FormEncodes (value text : List Char) : Prop := Written (utf8 value) (utf8 text)

/-- The pair has this name, as it is written. -/
def names (name pair : List Char) : Bool := (name ++ ['=']).isPrefixOf pair

/-- One code and one state are in the query, and whatever else. -/
def Echoes (query code state : List Char) : Prop :=
  ∃ codeText stateText, FormEncodes code codeText ∧ FormEncodes state stateText ∧
    (query.splitOn '&').filter (names "code".toList) = ["code=".toList ++ codeText] ∧
    (query.splitOn '&').filter (names "state".toList) = ["state=".toList ++ stateText]

/-- A callback with a code is accepted, with that code, exactly for the state that was sent. -/
def AcceptsEcho (sent : List Char) : Prop :=
  ∀ query code state, code ≠ [] → Echoes query code state →
    ∀ accepted, pkceCallbackCode query sent = .ok accepted ↔ accepted = code ∧ state = sent

variable {a : UInt8} {bytes text : List UInt8} {query code state name pair k v : List Char}
  {fields : CallbackFields} {pairs : List (List Char)}

theorem urlDecodeBytes_cons (a : UInt8) (rest : List UInt8) :
    urlDecodeBytes (a :: rest) = match escapedByte (a :: rest) with
      | some byte => byte :: urlDecodeBytes (rest.drop 2)
      | none => plusByte a :: urlDecodeBytes rest := by
  match rest with
  | [] => rfl
  | [_] => rfl
  | _ :: _ :: _ => rw [urlDecodeBytes]; rfl

theorem escapedByte_of_ne (h : a ≠ 0x25) (rest : List UInt8) : escapedByte (a :: rest) = none := by
  match rest with
  | [] => rfl
  | [_] => rfl
  | _ :: _ :: _ => rw [escapedByte, if_neg h]

theorem radixByte_hex {first second hi lo : UInt8} (hfirst : hexNibble first = some hi)
    (hsecond : hexNibble second = some lo) : radixByte first second = some ((hi <<< 4) ||| lo) := by
  have hplus : first ≠ 0x2B := by
    rintro rfl
    have hnone : hexNibble 0x2B = none := by decide
    rw [hnone] at hfirst
    cases hfirst
  rw [radixByte, if_neg hplus, hfirst, hsecond]
  rfl

theorem urlDecodeBytes_written (h : Written bytes text) : urlDecodeBytes text = bytes := by
  induction h with
  | nil => rfl
  | plain hpercent hplus _ ih =>
    rw [urlDecodeBytes_cons, escapedByte_of_ne hpercent]
    dsimp only
    rw [ih, plusByte, if_neg hplus]
  | blank _ ih =>
    rw [urlDecodeBytes_cons, escapedByte_of_ne (by decide)]
    dsimp only
    rw [ih]
    rfl
  | escaped hfirst hsecond _ ih =>
    have hbyte := radixByte_hex hfirst hsecond
    rw [urlDecodeBytes_cons, escapedByte, if_pos rfl, hbyte]
    exact congrArg _ ih

theorem urlDecode_encoded {value text : List Char} (h : FormEncodes value text) :
    urlDecode text = value := by
  have hread := fromUtf8Lossy_flatMap value []
  rw [List.append_nil, fromUtf8Lossy, List.append_nil] at hread
  rw [urlDecode, urlDecodeBytes_written h]
  exact hread

theorem splitOnce_named (hname : '=' ∉ name) (v : List Char) :
    splitOnce ['='] (name ++ '=' :: v) = some (name, v) := splitOnce_at hname v

theorem named_of_split (h : splitOnce ['='] pair = some (k, v)) : names k pair = true := by
  rw [names, List.isPrefixOf_iff_prefix, splitOnce_eq h, ← List.append_assoc]
  exact List.prefix_append _ _

/-- A field that a pair of one name sets, and no other one. -/
structure SetBy (name : List Char) (get : CallbackFields → Option (List Char)) : Prop where
  plain : '=' ∉ name
  sets : ∀ fields v, get (readPair fields (name ++ '=' :: v)) = some (urlDecode v)
  keeps : ∀ fields pair, names name pair = false → get (readPair fields pair) = get fields

theorem code_setBy : SetBy "code".toList CallbackFields.code where
  plain := by decide
  sets := by
    intro fields v
    rw [readPair, splitOnce_named (by decide)]
    dsimp only
    rw [if_pos rfl]
  keeps := by
    intro fields pair hother
    unfold readPair
    split
    · rfl
    · rename_i hsplit
      have hk := named_of_split hsplit
      split
      · rename_i hcode
        rw [hcode, hother] at hk
        cases hk
      · split_ifs <;> rfl

theorem state_setBy : SetBy "state".toList CallbackFields.state where
  plain := by decide
  sets := by
    intro fields v
    rw [readPair, splitOnce_named (by decide)]
    dsimp only
    rw [if_neg (by decide), if_pos rfl]
  keeps := by
    intro fields pair hother
    unfold readPair
    split
    · rfl
    · rename_i hsplit
      have hk := named_of_split hsplit
      split
      · rfl
      · split
        · rename_i hstate
          rw [hstate, hother] at hk
          cases hk
        · split_ifs <;> rfl

section
variable {get : CallbackFields → Option (List Char)} (hget : SetBy name get)
include hget

theorem fold_keeps (h : pairs.filter (names name) = []) (fields : CallbackFields) :
    get (pairs.foldl readPair fields) = get fields := by
  induction pairs generalizing fields with
  | nil => rfl
  | cons pair rest ih =>
    have hnone := List.filter_eq_nil_iff.mp h
    have hpair : names name pair = false := Bool.eq_false_iff.mpr (hnone pair List.mem_cons_self)
    have hrest : rest.filter (names name) = [] :=
      List.filter_eq_nil_iff.mpr fun other hother => hnone other (List.mem_cons_of_mem _ hother)
    rw [List.foldl_cons, ih hrest, hget.keeps fields pair hpair]

theorem fold_sets {v : List Char} (h : pairs.filter (names name) = [name ++ '=' :: v])
    (fields : CallbackFields) : get (pairs.foldl readPair fields) = some (urlDecode v) := by
  induction pairs generalizing fields with
  | nil => cases h
  | cons pair rest ih =>
    rw [List.foldl_cons]
    cases hpair : names name pair with
    | true =>
      rw [List.filter_cons_of_pos hpair] at h
      obtain ⟨rfl, hrest⟩ := List.cons.inj h
      rw [fold_keeps hget hrest, hget.sets]
    | false =>
      rw [List.filter_cons_of_neg (by rw [hpair]; exact Bool.false_ne_true)] at h
      exact ih h _

theorem readPairs_field {v : List Char}
    (h : (query.splitOn '&').filter (names name) = [name ++ '=' :: v]) :
    get (readPairs query) = some (urlDecode v) := by
  refine fold_sets hget ?_ _
  rw [List.filter_filter]
  refine (List.filter_congr fun pair _ => ?_).trans h
  cases pair with
  | nil =>
    have hempty : names name [] = false := by
      rw [names, Bool.eq_false_iff]
      intro hprefix
      have hnil := List.prefix_nil.mp (List.isPrefixOf_iff_prefix.mp hprefix)
      exact List.append_ne_nil_of_right_ne_nil _ (List.cons_ne_nil _ _) hnil
    rw [hempty]
    rfl
  | cons c rest =>
    rw [List.isEmpty_cons]
    exact Bool.and_true _

end

theorem error_ne_ok {ε β : Type} {e : ε} {b : β} : (Except.error e : Except ε β) ≠ .ok b := by
  rintro ⟨⟩

theorem filled_some {value : List Char} (h : value ≠ []) : filled (some value) = some value := by
  cases value with
  | nil => exact absurd rfl h
  | cons c rest => rfl

theorem callback_echo (h : Echoes query code state) : (readPairs query).code = some code ∧
    (readPairs query).state = some state := by
  obtain ⟨codeText, stateText, hcode, hstate, hcodes, hstates⟩ := h
  have hcodes : (query.splitOn '&').filter (names "code".toList) =
      ["code".toList ++ '=' :: codeText] := hcodes
  have hstates : (query.splitOn '&').filter (names "state".toList) =
      ["state".toList ++ '=' :: stateText] := hstates
  rw [readPairs_field code_setBy hcodes, readPairs_field state_setBy hstates,
    urlDecode_encoded hcode, urlDecode_encoded hstate]
  exact ⟨rfl, rfl⟩

theorem pkceCallbackCode_echo (h : Echoes query code state) (hcode : code ≠ []) (hstate : state ≠ [])
    (sent : List Char) : pkceCallbackCode query sent =
      if state = sent then .ok code else .error "callback state mismatch".toList := by
  obtain ⟨hcodes, hstates⟩ := callback_echo h
  have hquery : pkceCallbackFromQuery query = .ok (code, state) := by
    unfold pkceCallbackFromQuery
    dsimp only
    rw [hcodes, hstates, filled_some hcode, filled_some hstate]
  rw [pkceCallbackCode, hquery]
  dsimp only
  by_cases heq : state = sent
  · rw [if_pos heq, if_neg (by rw [heq, bne_self_eq_false]; exact Bool.false_ne_true)]
  · rw [if_neg heq, if_pos (bne_iff_ne.mpr heq)]

theorem pkceCallbackCode_empty (h : Echoes query code []) (sent accepted : List Char) :
    pkceCallbackCode query sent ≠ .ok accepted := by
  obtain ⟨-, hstates⟩ := callback_echo h
  have hnone : filled (some ([] : List Char)) = none := rfl
  have hquery : ∀ accepted, pkceCallbackFromQuery query ≠ .ok accepted := by
    intro accepted
    unfold pkceCallbackFromQuery
    dsimp only
    rw [hstates, hnone]
    cases filled (readPairs query).code <;> dsimp only <;> split_ifs <;> exact error_ne_ok
  unfold pkceCallbackCode
  split
  · exact error_ne_ok
  · rename_i hok
    exact absurd hok (hquery _)

/-- The echo of a state is told from any other exactly where the state is not empty. -/
theorem acceptsEcho_iff (sent : List Char) : AcceptsEcho sent ↔ sent ≠ [] := by
  constructor
  · intro haccepts
    rintro rfl
    have hechoes : Echoes "code=a&state=".toList ['a'] [] := by
      refine ⟨['a'], [], ?_, .nil, by decide, by decide⟩
      exact .plain (by decide) (by decide) .nil
    have haccepted := (haccepts _ _ _ (List.cons_ne_nil _ _) hechoes ['a']).mpr ⟨rfl, rfl⟩
    exact pkceCallbackCode_empty hechoes [] ['a'] haccepted
  · intro hsent query code state hcode hechoes accepted
    by_cases hstate : state = []
    · subst hstate
      constructor
      · intro haccepted
        exact absurd haccepted (pkceCallbackCode_empty hechoes sent accepted)
      · rintro ⟨-, rfl⟩
        exact absurd rfl hsent
    · rw [pkceCallbackCode_echo hechoes hcode hstate sent]
      by_cases heq : state = sent
      · rw [if_pos heq]
        constructor
        · intro haccepted
          exact ⟨(Except.ok.inj haccepted).symm, heq⟩
        · rintro ⟨rfl, -⟩
          rfl
      · rw [if_neg heq]
        constructor
        · intro haccepted
          cases haccepted
        · rintro ⟨-, hsame⟩
          exact absurd hsame heq

/-- The query of the login URL carries each parameter once, and the echo of its state is
accepted. -/
def LoginHolds (authorizeUrl clientId redirectUri : List Char) (scope : Option (List Char))
    (pkce : PkceChallenge) (extraParams : List Param) : Prop :=
  CarriesOnce (engineParams clientId redirectUri pkce) extraParams (formParams (urlQuery
    (buildAuthUrl authorizeUrl clientId redirectUri scope pkce extraParams))) ∧
    AcceptsEcho pkce.state

/-- A login holds exactly where the state is not empty and the URL has no query and no
fragment of its own, or one that leaves every parameter once. -/
theorem login_holds_iff (authorizeUrl clientId redirectUri : List Char) (scope : Option (List Char))
    (pkce : PkceChallenge) (extraParams : List Param) :
    LoginHolds authorizeUrl clientId redirectUri scope pkce extraParams ↔
      QueryFits authorizeUrl clientId redirectUri scope pkce extraParams ∧ pkce.state ≠ [] :=
  and_congr (carriesOnce_iff authorizeUrl clientId redirectUri scope pkce extraParams)
    (acceptsEcho_iff pkce.state)

def tenantUrl : List Char := "https://auth.example/authorize?tenant=a".toList

def plainPkce : PkceChallenge := ⟨"v".toList, "c".toList, "s".toList⟩

/-- The client id becomes a part of the tenant. -/
theorem tenant_takes_client : ¬ ∀ (authorizeUrl clientId redirectUri : List Char)
    (scope : Option (List Char)) (pkce : PkceChallenge) (extraParams : List Param),
      pkce.state ≠ [] → LoginHolds authorizeUrl clientId redirectUri scope pkce extraParams := by
  intro hall
  have hfits : QueryFits tenantUrl "client-1".toList "http://localhost:9/cb".toList none plainPkce [] :=
    (carriesOnce_iff _ _ _ _ _ _).mp (hall _ _ _ none plainPkce [] (by decide)).1
  rw [QueryFits, if_neg (by decide), if_pos (by decide)] at hfits
  have hclient : (ownParams tenantUrl).filter (hasName "client_id".toList) = [] := by decide
  have hmissing := hfits.client
  rw [hclient] at hmissing
  cases hmissing

end Wiremux.PkceCallbacks
