import Wiremux.EncoderState

set_option autoImplicit false

/-!
# Tool calls of a complete body

The complete encoders keep each call's argument text on its own index. A start
with another id at an open index commits the call that was there; the calls
left open are committed in index order at the end.
-/
namespace Wiremux.CompleteTools
open JsonValue StreamEvents

structure IndexedTool where
  id : String := ""
  name : String := ""
  args : String := ""
  custom : Bool := false
  signature : Option String := none
deriving DecidableEq

def blankIndexedTool : IndexedTool := {}

structure IndexedTools where
  opened : Std.TreeMap ℕ IndexedTool := ∅
  done : List (ℕ × IndexedTool) := []

def commitOther (index : ℕ) (id : String) (t : IndexedTools) : IndexedTools :=
  match t.opened[index]? with
  | some existing =>
    if !id.isEmpty && !existing.id.isEmpty && existing.id ≠ id then
      ⟨t.opened.erase index, t.done ++ [(index, existing)]⟩
    else t
  | none => t

def fillSlot (id name : String) (custom : Bool) (signature : Option String) (slot : IndexedTool) :
    IndexedTool :=
  { slot with
    id := if slot.id.isEmpty then id else slot.id
    name := if slot.name.isEmpty then name else slot.name
    signature := slot.signature.or signature
    custom := custom }

def indexedToolStart (index : ℕ) (id name : String) (custom : Bool) (signature : Option String)
    (t : IndexedTools) : IndexedTools :=
  let t := commitOther index id t
  let slot := (t.opened[index]?).getD blankIndexedTool
  { t with opened := t.opened.insert index (fillSlot id name custom signature slot) }

def indexedToolDelta (index : ℕ) (delta : String) (t : IndexedTools) : IndexedTools :=
  let slot := (t.opened[index]?).getD blankIndexedTool
  { t with opened := t.opened.insert index { slot with args := slot.args ++ delta } }

def indexedToolFinish (t : IndexedTools) : List (ℕ × IndexedTool) := t.done ++ t.opened.toList

def toolNamed (tool : IndexedTool) : Bool := !tool.id.isEmpty || !tool.name.isEmpty

def noteConverseTool (index : ℕ) (id name : String) (custom : Bool) :
    IndexedTools → IndexedTools :=
  indexedToolStart index id name custom none

section
variable (sj : SerdeJson)

/-- Argument object of a function call, `{}` when the text is not JSON. -/
def parsedToolInput (args : String) (custom : Bool) : Value :=
  if custom then responseCustomToolInput sj args else (sj.fromStr args).getD (.object [])

def converseToolUse (tool : IndexedTool) : Value :=
  let input := if tool.custom then responseCustomToolInput sj tool.args
    else (sj.fromStr tool.args).getD tool.args
  .object [("toolUse", .object [("toolUseId", tool.id), ("name", tool.name), ("input", input)])]

end

end Wiremux.CompleteTools
