import Wiremux.CallEvents
import Wiremux.ResponsesEncoder
import Wiremux.SerialBlocks

set_option autoImplicit false

/-!
# Reading Responses frames

What a client takes from a frame: its place in the grammar of output items,
and the call that an added item, a fragment or a done item is about.
-/
namespace Wiremux.ResponsesFrames
open JsonValue StreamEvents StreamEventEncoding StreamEventFrames ResponsesEncoder SerialBlocks
open CallEvents EncoderState

def outputIndex? (frame : RawSse) : Option ℕ := (frame.get? "output_index").bind Value.asU64?

def outputIndex (frame : RawSse) : ℕ := (outputIndex? frame).getD 0

def isTerminal (event : String) : Bool :=
  ["response.completed", "response.incomplete", "response.failed"].contains event

/-- An `output_item.added` that carries a signature: it adds to the reasoning
item that is open and starts none. -/
def isSignature (frame : RawSse) : Bool :=
  ((frame.get? "item").bind fun item => item.get? "signature").isSome

/-- Place of a frame in the grammar. Every other frame with an `output_index`
counts as a delta of that item. -/
def itemMark (frame : RawSse) : Mark ℕ :=
  match frame.event with
  | none => .silent
  | some event =>
    if event = "response.created" then .head
    else if event = "response.output_item.added" ∧ isSignature frame = false then
      .start (outputIndex frame)
    else if event = "response.output_item.done" then .stop (outputIndex frame)
    else if isTerminal event then .tail 0
    else
      match outputIndex? frame with
      | some index => .delta index
      | none => .silent

/-- A call as an output item states it. -/
structure CallItem where
  index : ℕ
  callId : String
  name : String
  custom : Bool
  args : String
deriving DecidableEq

def callItemOf? (event : String) (frame : RawSse) : Option CallItem :=
  if frame.event = some event then
    (frame.get? "item").bind fun item =>
      let read (custom : Bool) (key : String) : CallItem :=
        ⟨outputIndex frame, (item.strAt? "call_id").getD "", (item.strAt? "name").getD "", custom,
          (item.strAt? key).getD ""⟩
      if item.strAt? "type" = some "function_call" then some (read false "arguments")
      else if item.strAt? "type" = some "custom_tool_call" then some (read true "input")
      else none
  else none

def isCallDelta (event : String) : Bool :=
  ["response.function_call_arguments.delta", "response.custom_tool_call_input.delta"].contains event

def callDeltaOf? (frame : RawSse) : Option (ℕ × String) :=
  if frame.event.any isCallDelta then
    (frame.get? "delta").bind fun delta => delta.asStr?.map fun text => (outputIndex frame, text)
  else none

def addedCalls (frames : List RawSse) : List CallItem :=
  frames.filterMap (callItemOf? "response.output_item.added")

def doneCalls (frames : List RawSse) : List CallItem :=
  frames.filterMap (callItemOf? "response.output_item.done")

def callDeltas (frames : List RawSse) : List (ℕ × String) := frames.filterMap callDeltaOf?

/-- The fragments sent for an item, together. -/
def deltasAt (frames : List RawSse) (index : ℕ) : String :=
  joined (((callDeltas frames).filter (fun p => p.1 = index)).map Prod.snd)

def textOf? (frame : RawSse) : Option String :=
  if frame.event = some "response.output_text.delta" then
    (frame.get? "delta").bind Value.asStr?
  else none

def marks (frames : List RawSse) : List (Mark ℕ) := frames.map itemMark

@[simp] theorem marks_nil : marks [] = [] := rfl

@[simp] theorem marks_cons (f : RawSse) (fs : List RawSse) :
    marks (f :: fs) = itemMark f :: marks fs := rfl

@[simp] theorem marks_append (fs gs : List RawSse) : marks (fs ++ gs) = marks fs ++ marks gs :=
  List.map_append

@[simp] theorem itemMark_created (s : StreamEncoder) :
    itemMark (responsesCreatedFrame s) = .head := rfl

@[simp] theorem itemMark_signature (index : ℕ) (signature : String) :
    itemMark (outputItemAdded index (signatureItem signature)) = .delta index := rfl

@[simp] theorem itemMark_itemBody (index : ℕ) (kind : BlockKind) :
    itemMark (outputItemAdded index (itemBody kind)) = .start index := by
  cases kind <;> rfl

@[simp] theorem itemMark_functionCall (index : ℕ) (id name args : String) :
    itemMark (outputItemAdded index (functionCallItem id name args)) = .start index := rfl

@[simp] theorem itemMark_customCall (index : ℕ) (id name input : String) :
    itemMark (outputItemAdded index (customToolCallItem id name input)) = .start index := rfl

@[simp] theorem itemMark_done (index : ℕ) (item : Value) :
    itemMark (outputItemDone index item) = .stop index := rfl

@[simp] theorem itemMark_textDone_part (index partIndex : ℕ) (part : Value) {frame : RawSse}
    (h : textDone index partIndex part = some frame) : itemMark frame = .delta index := by
  unfold textDone at h
  simp only at h
  split at h
  · cases h
  · split at h
    · cases h
    · obtain rfl := Option.some.inj h
      cases part.get? "logprobs" <;> rfl

theorem responsesTerminal_event (reason : String) :
    (responsesTerminal reason).1 = "response.completed" ∨
      (responsesTerminal reason).1 = "response.incomplete" ∨
      (responsesTerminal reason).1 = "response.failed" := by
  unfold responsesTerminal
  split
  · exact Or.inr (Or.inr rfl)
  · split
    · exact Or.inr (Or.inl rfl)
    · exact Or.inl rfl

@[simp] theorem itemMark_terminal (s : StreamEncoder) :
    itemMark (responsesTerminalFrame s) = .tail 0 := by
  have hevent : (responsesTerminalFrame s).event =
      some (responsesTerminal (s.finish.getD "stop")).1 := rfl
  unfold itemMark
  rw [hevent]
  rcases responsesTerminal_event (s.finish.getD "stop") with h | h | h <;> rw [h] <;> rfl

/-- What frames say about calls: items added, items done and fragments. -/
structure Sent (frames : List RawSse) (added done : List CallItem) (deltas : List (ℕ × String)) :
    Prop where
  added : addedCalls frames = added
  done : doneCalls frames = done
  deltas : callDeltas frames = deltas

abbrev Silent (frames : List RawSse) : Prop := Sent frames [] [] []

theorem Sent.nil : Silent [] := ⟨rfl, rfl, rfl⟩

theorem Sent.append {fs gs : List RawSse} {a a' d d' : List CallItem} {t t' : List (ℕ × String)}
    (hf : Sent fs a d t) (hg : Sent gs a' d' t') : Sent (fs ++ gs) (a ++ a') (d ++ d') (t ++ t') where
  added := by rw [addedCalls, List.filterMap_append, ← addedCalls, ← addedCalls, hf.added, hg.added]
  done := by rw [doneCalls, List.filterMap_append, ← doneCalls, ← doneCalls, hf.done, hg.done]
  deltas := by
    rw [callDeltas, List.filterMap_append, ← callDeltas, ← callDeltas, hf.deltas, hg.deltas]

theorem Sent.silent_of_forall {frames : List RawSse} (h : ∀ f ∈ frames, Silent [f]) :
    Silent frames := by
  induction frames with
  | nil => exact Sent.nil
  | cons f fs ih =>
    exact (h f (by simp)).append (ih fun g hg => h g (by simp [hg]))

/-- Items, done items and text at one output index. -/
def sentAt (frames : List RawSse) (enc : ℕ) : List CallItem × List CallItem × String :=
  ((addedCalls frames).filter (fun x => x.index = enc),
    (doneCalls frames).filter (fun x => x.index = enc), deltasAt frames enc)

theorem Sent.sentAt {out frames : List RawSse} {added done : List CallItem}
    {deltas : List (ℕ × String)} (h : Sent frames added done deltas) (enc : ℕ) :
    sentAt (out ++ frames) enc =
      ((sentAt out enc).1 ++ added.filter (fun x => x.index = enc),
        (sentAt out enc).2.1 ++ done.filter (fun x => x.index = enc),
        (sentAt out enc).2.2 ++
          joined ((deltas.filter (fun p => p.1 = enc)).map Prod.snd)) := by
  have hall := (⟨rfl, rfl, rfl⟩ : Sent out (addedCalls out) (doneCalls out) (callDeltas out)).append h
  simp only [ResponsesFrames.sentAt, deltasAt, hall.added, hall.done, hall.deltas,
    List.filter_append, List.map_append, joined_append]

theorem Sent.sentAt_silent {out frames : List RawSse} (h : Silent frames) (enc : ℕ) :
    ResponsesFrames.sentAt (out ++ frames) enc = ResponsesFrames.sentAt out enc := by
  simp [h.sentAt]

/-- A frame inside the item at `index`: no call, and this much visible text. -/
structure ItemFrame (index : ℕ) (text : String) (frame : RawSse) : Prop where
  mark : itemMark frame = .delta index
  silent : Silent [frame]
  text : (textOf? frame).getD "" = text

end Wiremux.ResponsesFrames
