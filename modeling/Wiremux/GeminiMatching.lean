import Wiremux.GeminiContents

set_option autoImplicit false

/-!
# Responses by name and the calls they answer

What the ids of the responses should be is said by a second reading of the
contents, which keeps the calls of the latest model turn. A third one watches how
the user contents of a turn are cut into items, which decides whether the walk
backwards reaches the turn.
-/
namespace Wiremux.GeminiMatching
open JsonValue RequestParts MessagesItems GeminiContents

def callName : Piece → Option String
  | .call _ name _ _ => some name
  | _ => none

def responseName : Piece → Option String
  | .response _ name _ _ => some name
  | _ => none

def callNames (pieces : List Piece) : List String := pieces.filterMap callName

def responseNames (pieces : List Piece) : List String := pieces.filterMap responseName

def hasId : Piece → Bool
  | .call id _ _ _ | .response id _ _ _ => id.isSome
  | .shown _ => false

def NoIds (contents : List Content) : Prop :=
  ∀ content ∈ contents, ∀ piece ∈ content.pieces, hasId piece = false

/-- Calls stand in model contents and responses in the others, and of the calls of the
latest model content no name is answered more often than it is called. -/
def Answers : List String → List String → List Content → Prop
  | _, _, [] => True
  | calls, answered, content :: rest =>
    if content.model then
      responseNames content.pieces = [] ∧ Answers (callNames content.pieces) [] rest
    else callNames content.pieces = [] ∧
      (∀ name, (answered ++ responseNames content.pieces).count name ≤ calls.count name) ∧
      Answers calls (answered ++ responseNames content.pieces) rest

/-- Every model content is followed by a content of the user. -/
def Followed : List Content → Prop
  | [] => True
  | content :: rest =>
    (content.model = true → ∃ next more, rest = next :: more ∧ next.model = false) ∧ Followed rest

structure Conversation (contents : List Content) : Prop where
  noIds : NoIds contents
  answers : Answers [] [] contents
  followed : Followed contents

/-- A reading that knows the calls of the latest model content, and what was answered. -/
structure Intent where
  now : Decoding
  calls : List (String × String)
  answered : List String

def callsNamed (calls : List (String × String)) (name : String) : List (String × String) :=
  calls.filter fun call => call.1 == name

def nextCall (i : Intent) (name : String) : Option String :=
  ((callsNamed i.calls name)[i.answered.count name]?).map Prod.snd

def intendPiece (i : Intent) : Piece → Intent
  | .call id name arguments signature =>
    { i with
      now := decodePiece i.now (.call id name arguments signature)
      calls := i.calls ++ [(name, geminiCallId id name (flushParts i.now).items.length)] }
  | .response id name output parts =>
    { i with
      now := (flushParts i.now).push
        (.functionOutput ((id.or (nextCall i name)).getD name) output parts false)
      answered := i.answered ++ [name] }
  | .shown parts => { i with now := decodePiece i.now (.shown parts) }

def openContent (i : Intent) (model : Bool) : Intent where
  now := ⟨model, [], i.now.items⟩
  calls := if model then [] else i.calls
  answered := if model then [] else i.answered

def closeContent (i : Intent) : Intent := { i with now := flushParts i.now }

def intendContent (i : Intent) (content : Content) : Intent :=
  closeContent (content.pieces.foldl intendPiece (openContent i content.model))

def intended (items : List IrItem) (contents : List Content) : List IrItem :=
  (contents.foldl intendContent ⟨⟨false, [], items⟩, [], []⟩).now.items

/-- What the user contents of a turn have given so far: nothing, one user item, outputs
with at most one user item in front, or anything else. -/
inductive Phase where
  | start
  | opened
  | answering
  | closed
deriving DecidableEq

structure Watch where
  model : Bool
  pending : Bool
  phase : Phase
  calls : List String
  stale : List String
  ok : Bool

/-- A user item of its own. -/
def Phase.user : Phase → Phase
  | .start => .opened
  | _ => .closed

/-- An output; `pending` when a user item stands directly in front of it. -/
def Phase.output (pending : Bool) : Phase → Phase
  | .start => .answering
  | .answering => if pending then .closed else .answering
  | _ => .closed

def Phase.reached : Phase → Bool
  | .start | .answering => true
  | _ => false

def flushWatch (w : Watch) : Watch :=
  { w with pending := false, phase := if w.pending && !w.model then w.phase.user else w.phase }

def watchPiece (w : Watch) : Piece → Watch
  | .call _ name _ _ => { flushWatch w with calls := w.calls ++ [name] }
  | .response _ name _ _ =>
    { w with
      pending := false
      phase := w.phase.output w.pending
      ok := w.ok && w.phase.reached && !w.stale.contains name }
  | .shown parts => { w with pending := w.pending || !parts.isEmpty }

/-- Behind a turn that gave no user items its calls are still in reach. -/
def openWatch (w : Watch) (model : Bool) : Watch :=
  if model then
    { w with
      model := true, pending := false, phase := .start, calls := []
      stale := if w.phase = .start then w.stale ++ w.calls else [] }
  else { w with model := false, pending := false }

def watchContent (w : Watch) (content : Content) : Watch :=
  flushWatch (content.pieces.foldl watchPiece (openWatch w content.model))

/-- Each response comes while the walk backwards reaches the calls of its turn, and no call
of an earlier turn with its name. -/
def InReach (contents : List Content) : Prop :=
  (contents.foldl watchContent ⟨false, false, .start, [], [], true⟩).ok = true

end Wiremux.GeminiMatching
