import Wiremux.CallEvents
import Wiremux.ChatEncoder

set_option autoImplicit false

/-!
# Reading Chat chunks

What a client takes from a chunk: the entries of `tool_calls`, which it merges
by their `index`. The fields that every chunk is stamped with do not change it.
-/
namespace Wiremux.ChatFrames
open JsonValue StreamEvents StreamEventEncoding StreamEventFrames EncoderState ChatEncoder
open CallEvents

structure Piece where
  index : ℕ
  id : Option String
  name : Option String
  custom : Bool
  text : String
deriving DecidableEq

def pieceOf (call : Value) : Piece :=
  let function := call.get? "function"
  let custom := call.get? "custom"
  let body := function.or custom
  let text := (body.bind fun b => b.strAt? "arguments").or (body.bind fun b => b.strAt? "input")
  { index := ((call.get? "index").bind Value.asU64?).getD 0
    id := call.strAt? "id"
    name := body.bind fun b => b.strAt? "name"
    custom := custom.isSome
    text := text.getD "" }

def deltaOf? (frame : RawSse) : Option Value :=
  ((frame.get? "choices").bind fun choices => choices.nth? 0).bind fun choice =>
    choice.get? "delta"

def piecesIn (frame : RawSse) : List Piece :=
  ((((deltaOf? frame).bind fun delta => delta.get? "tool_calls").bind Value.asArray?).getD []).map
    pieceOf

def pieces (frames : List RawSse) : List Piece := frames.flatMap piecesIn

/-- The entries that a client merges into one call. -/
def piecesAt (frames : List RawSse) (index : ℕ) : List Piece :=
  (pieces frames).filter fun p => p.index = index

@[simp] theorem pieces_nil : pieces [] = [] := rfl

@[simp] theorem pieces_append (fs gs : List RawSse) : pieces (fs ++ gs) = pieces fs ++ pieces gs :=
  List.flatMap_append

theorem choices_attach (s : StreamEncoder) (frame : RawSse) :
    (attachChatDestModel s frame).get? "choices" = frame.get? "choices" := by
  obtain ⟨event, data⟩ := frame
  cases data with
  | text t => rfl
  | json v =>
    unfold attachChatDestModel
    simp only
    split
    · have hmodel : ∀ w : Value, (if s.model.isEmpty = true then w
          else w.insert "model" s.model).get? "choices" = w.get? "choices" := by
        intro w
        split
        · rfl
        · exact Value.get?_insert_of_ne w _ (by decide)
      simp only [RawSse.get?, SseData.value?, Option.bind_some, hmodel,
        Value.get?_insert_of_ne _ _ (show "choices" ≠ "created" by decide),
        Value.get?_insert_of_ne _ _ (show "choices" ≠ "object" by decide),
        Value.get?_insert_of_ne _ _ (show "choices" ≠ "id" by decide)]
    · rfl

theorem deltaOf?_attach (s : StreamEncoder) (frame : RawSse) :
    deltaOf? (attachChatDestModel s frame) = deltaOf? frame := by
  rw [deltaOf?, deltaOf?, choices_attach]

theorem pieces_attach (s : StreamEncoder) (frames : List RawSse) :
    pieces (frames.map (attachChatDestModel s)) = pieces frames := by
  induction frames with
  | nil => rfl
  | cons f fs ih =>
    have hhead : piecesIn (attachChatDestModel s f) = piecesIn f := by
      simp only [piecesIn, deltaOf?_attach]
    simp only [List.map_cons, pieces, List.flatMap_cons, hhead]
    rw [← pieces, ih]
    rfl

theorem pieces_startChat (s : StreamEncoder) : pieces (startChat s).1 = [] := by
  unfold startChat
  cases s.started <;> rfl

theorem pieces_finishChat (s : StreamEncoder) : pieces (finishChat s).1 = [] := by
  have hfinish : ∀ saw : Bool, pieces (s.finish.map fun reason =>
      chatFinish (finishAfterTool reason saw)).toList = [] := by
    intro saw
    cases s.finish <;> rfl
  have husage : ∀ v : IrUsage → Value, pieces (s.usage.map fun u =>
      unnamed ((UsageFields.encodeChat u).insert "usage" (v u))).toList = [] := by
    intro v
    cases s.usage <;> rfl
  unfold finishChat
  simp only [pieces_attach, pieces_append, hfinish, husage, List.nil_append]
  rfl

end Wiremux.ChatFrames
