import Wiremux.JsonValue

set_option autoImplicit false

/-!
# JSON pointers into a credentials document

RFC 6901 get and set as the write-back uses them. A set creates missing object
parents, and changes no entry of the document but the one its pointer begins with.
-/
namespace Wiremux.CredentialPointers
open JsonValue

inductive AuthError where
  | emptyWriteRefused
  | tokenProvider (msg : String)
  | missingField (field : String)

def replacePair (x y z : Char) : List Char → List Char
  | a :: b :: rest => if a = x ∧ b = y then z :: replacePair x y z rest else a :: replacePair x y z (b :: rest)
  | short => short

def unescapePointerToken (token : String) : String :=
  String.ofList (replacePair '~' '0' '~' (replacePair '~' '1' '/' token.toList))

def escapePointerToken (token : String) : String :=
  String.ofList (token.toList.flatMap fun c =>
    if c = '~' then ['~', '0'] else if c = '/' then ['~', '1'] else [c])

/-- The tokens after the first slash, or `none` for a text that does not begin with one. -/
def pointerTokens (pointer : String) : Option (List String) :=
  match pointer.toList with
  | '/' :: rest => some ((rest.splitOn '/').map fun token => unescapePointerToken (String.ofList token))
  | _ => none

def usizeMax : ℕ := 18446744073709551615

def parseUsize (token : String) : Option ℕ :=
  let digits := match token.toList with
    | '+' :: rest => rest
    | all => all
  if digits.isEmpty || !digits.all Char.isDigit then none
  else
    let n := digits.foldl (fun n c => n * 10 + (c.toNat - '0'.toNat)) 0
    if n ≤ usizeMax then some n else none

def getTokens : Value → List String → Option Value
  | cur, [] => some cur
  | cur, token :: rest =>
    match cur with
    | .object fields => ((Value.object fields).get? token).bind fun next => getTokens next rest
    | .array items => (parseUsize token).bind fun i => items[i]?.bind fun next => getTokens next rest
    | _ => none

def pointerGet (doc : Value) (pointer : String) : Option Value :=
  if pointer = "" then some doc else (pointerTokens pointer).bind (getTokens doc)

def arrayIndex (token : String) (items : List Value) : Except AuthError (ℕ × Value) :=
  match parseUsize token with
  | none => .error (.tokenProvider s!"JSON pointer array index `{token}`")
  | some i =>
    match items[i]? with
    | none => .error (.tokenProvider "JSON pointer array index out of range")
    | some item => .ok (i, item)

/-- The child a set descends into: what is no container is replaced by an empty object. -/
def descend : Option Value → Value
  | some (.object fields) => .object fields
  | some (.array items) => .array items
  | _ => .object []

def setTokens (cur : Value) (tokens : List String) (value : Value) : Except AuthError Value :=
  match tokens with
  | [] => .error .emptyWriteRefused
  | [last] =>
    match cur with
    | .object fields => .ok ((Value.object fields).insert last value)
    | .array items => (arrayIndex last items).map fun slot => .array (items.set slot.1 value)
    | _ => .error .emptyWriteRefused
  | token :: next :: rest =>
    match cur with
    | .object fields =>
      (setTokens (descend ((Value.object fields).get? token)) (next :: rest) value).map fun child =>
        (Value.object fields).insert token child
    | .array items =>
      match arrayIndex token items with
      | .error e => .error e
      | .ok (i, item) =>
        (setTokens item (next :: rest) value).map fun child => .array (items.set i child)
    | _ => .error .emptyWriteRefused

def pointerSet (doc : Value) (pointer : String) (value : Value) : Except AuthError Value :=
  if pointer = "" then .error .emptyWriteRefused
  else
    match pointerTokens pointer with
    | none => .error (.tokenProvider s!"invalid JSON pointer `{pointer}`")
    | some tokens => setTokens doc tokens value

/-- The entry of the document a pointer leads into. -/
def headToken (pointer : String) : Option String := (pointerTokens pointer).bind List.head?

theorem setTokens_object {doc doc' value : Value} {tokens : List String}
    (hobject : doc.isObject = true) (h : setTokens doc tokens value = .ok doc') :
    doc'.isObject = true ∧ ∀ k, tokens.head? ≠ some k → doc'.get? k = doc.get? k := by
  cases doc with
  | object fields =>
    have hinsert : ∀ key child, doc' = (Value.object fields).insert key child →
        doc'.isObject = true ∧ ∀ k, key ≠ k → doc'.get? k = (Value.object fields).get? k := by
      rintro key child rfl
      exact ⟨rfl, fun k hk => Value.get?_insert_of_ne _ _ (Ne.symm hk)⟩
    rcases tokens with _ | ⟨token, _ | ⟨next, rest⟩⟩
    · cases h
    · obtain ⟨hdoc, hframe⟩ := hinsert token value (Except.ok.inj h).symm
      exact ⟨hdoc, fun k hk => hframe k fun heq => hk (congrArg some heq)⟩
    · rw [setTokens] at h
      cases hchild : setTokens (descend ((Value.object fields).get? token)) (next :: rest) value with
      | error e =>
        rw [hchild] at h
        cases h
      | ok child =>
        rw [hchild] at h
        obtain ⟨hdoc, hframe⟩ := hinsert token child (Except.ok.inj h).symm
        exact ⟨hdoc, fun k hk => hframe k fun heq => hk (congrArg some heq)⟩
  | _ => cases hobject

theorem pointerSet_object {doc doc' value : Value} {pointer : String}
    (hobject : doc.isObject = true) (h : pointerSet doc pointer value = .ok doc') :
    doc'.isObject = true ∧ ∀ k, headToken pointer ≠ some k → doc'.get? k = doc.get? k := by
  unfold pointerSet at h
  split at h
  · cases h
  · cases htokens : pointerTokens pointer with
    | none =>
      rw [htokens] at h
      cases h
    | some tokens =>
      rw [htokens] at h
      rw [headToken, htokens]
      exact setTokens_object hobject h

end Wiremux.CredentialPointers
