import Wiremux.StreamStops
import Wiremux.MessagesGrammar
import Wiremux.ResponsesGrammar
import Wiremux.TerminalEvents

set_option autoImplicit false

/-!
# The frames that close a stream

An encoder closes its stream when it is told to, never on its own: before the
end only a Gemini finish and a frame copied from upstream close it.
-/
namespace Wiremux.ClosingFrames
open JsonValue StreamEvents StreamEventFrames EmittingRuns EncoderState TerminalEvents
open ChatEncoder MessagesEncoder ResponsesEncoder ConverseEncoder GeminiEncoder
open StreamEncoderPush SideChannels CallEvents StopSignals StopReasons StreamStops

/-- The frame tells the client that the answer is complete. -/
def closing (wire : Wire) (frame : RawSse) : Bool :=
  match wire with
  | .chatCompletions => (frameStop .chatCompletions frame).isSome
  | .messages => frame.event == some "message_stop"
  | .responses => frame.event == some "response.completed"
  | .gemini => frame.data.value?.any hasFinishReason
  | .converse => (frame.get? "messageStop").isSome

def copiesClosing (sj : SerdeJson) (wire : Wire) (ev : IrStreamEvent) : Prop :=
  copiedVerbatim sj wire ev = true ∧
    ∃ frame, encodeStreamEvent sj wire ev = .ok frame ∧ closing wire frame = true

/-- Every frame sent is of one kind; the stream stays as open as it was. -/
structure Emits (p : RawSse → Prop) (s : StreamEncoder) (r : List RawSse × StreamEncoder) :
    Prop where
  frames : ∀ f ∈ r.1, p f
  wire : r.2.wire = s.wire
  finished : r.2.finished = s.finished

section
variable {p : RawSse → Prop} {s t : StreamEncoder}

theorem Emits.none (hwire : t.wire = s.wire) (hfinished : t.finished = s.finished) :
    Emits p s ([], t) := ⟨List.forall_mem_nil _, hwire, hfinished⟩

theorem Emits.refl (s : StreamEncoder) : Emits p s ([], s) := .none rfl rfl

theorem Emits.one {f : RawSse} (hf : p f) (hwire : t.wire = s.wire)
    (hfinished : t.finished = s.finished) : Emits p s ([f], t) :=
  ⟨List.forall_mem_singleton.mpr hf, hwire, hfinished⟩

theorem Emits.andThen {r r' : List RawSse × StreamEncoder} (h : Emits p s r) (h' : Emits p r.2 r') :
    Emits p s (r.1 ++ r'.1, r'.2) where
  frames := List.forall_mem_append.mpr ⟨h.frames, h'.frames⟩
  wire := h'.wire.trans h.wire
  finished := h'.finished.trans h.finished

theorem Emits.more {r : List RawSse × StreamEncoder} {fs : List RawSse} (h : Emits p s r)
    (hfs : ∀ f ∈ fs, p f) (hwire : t.wire = r.2.wire) (hfinished : t.finished = r.2.finished) :
    Emits p s (r.1 ++ fs, t) := @Emits.andThen p s r (fs, t) h ⟨hfs, hwire, hfinished⟩

theorem Emits.before {r : List RawSse × StreamEncoder} (h : Emits p t r) (hwire : t.wire = s.wire)
    (hfinished : t.finished = s.finished) : Emits p s r :=
  ⟨h.frames, h.wire.trans hwire, h.finished.trans hfinished⟩

theorem Emits.each {α : Type} {f : α → StreamEncoder → List RawSse × StreamEncoder}
    (hf : ∀ a s, Emits p s (f a s)) (as : List α) (s : StreamEncoder) :
    Emits p s (emitEach f as s) := by
  induction as generalizing s with
  | nil => exact .refl s
  | cons a as ih => exact (hf a s).andThen (ih _)

end

theorem allocTool_same (i : ℕ) (s : StreamEncoder) : SameEnd s (allocTool i s).2 :=
  (allocTool_seen i s).1

theorem toolEnc_same (i : ℕ) (s : StreamEncoder) : SameEnd s (toolEnc i s).2 := by
  unfold toolEnc
  split
  · exact ⟨rfl, rfl, rfl, rfl, rfl⟩
  · split
    · exact ⟨rfl, rfl, rfl, rfl, rfl⟩
    · exact allocTool_same i s

variable {sj : SerdeJson} {s t : StreamEncoder} {ev : IrStreamEvent} {more : List RawSse}

def MessagesOpen (frame : RawSse) : Prop :=
  frame.event ≠ some "message_stop" ∧ frameStop .messages frame = none

theorem messagesOpen_blockStart (index : ℕ) (block : Value) :
    MessagesOpen (contentBlockStart index block) := ⟨by simp [contentBlockStart, named], rfl⟩

theorem messagesOpen_blockDelta (index : ℕ) (delta : Value) :
    MessagesOpen (contentBlockDelta index delta) := ⟨by simp [contentBlockDelta, named], rfl⟩

theorem messagesOpen_blockStop (index : ℕ) : MessagesOpen (contentBlockStop index) :=
  ⟨by simp [contentBlockStop, named], rfl⟩

theorem noteCustomSlot_emits (p : RawSse → Prop) (enc : ℕ) (custom : Bool) (s : StreamEncoder) :
    Emits p s ([], noteCustomSlot enc custom s) :=
  .none (noteCustomSlot_unsaid enc custom s).wire (noteCustomSlot_unsaid enc custom s).finished

theorem heldToolFrames_emits (held : HeldTool) (s : StreamEncoder) :
    Emits MessagesOpen s (heldToolFrames sj held s) := by
  unfold heldToolFrames
  refine ⟨?_, (takeCustomJson_unsaid sj _ _).wire, (takeCustomJson_unsaid sj _ _).finished⟩
  simp only [List.forall_mem_cons, List.forall_mem_append]
  refine ⟨messagesOpen_blockStart _ _, ?_, messagesOpen_blockStop _, List.forall_mem_nil _⟩
  intro f hf
  split at hf
  · obtain rfl := List.mem_singleton.mp hf
    exact messagesOpen_blockDelta _ _
  · split at hf
    · cases hf
    · obtain rfl := List.mem_singleton.mp hf
      exact messagesOpen_blockDelta _ _

theorem flushHeldTools_emits (s : StreamEncoder) : Emits MessagesOpen s (flushHeldTools sj s) :=
  (Emits.each heldToolFrames_emits _ _).before rfl rfl

theorem closeOpen_emits (s : StreamEncoder) : Emits MessagesOpen s (closeOpen sj s) := by
  unfold closeOpen
  split
  · exact flushHeldTools_emits s
  · rename_i index kind _
    simp only
    split
    · have htaken := takeCustomJson_unsaid sj index
        { s with openBlock := none, closedTools := insert index s.closedTools }
      have hflush := @flushHeldTools_emits sj (takeCustomJson sj index
        { s with openBlock := none, closedTools := insert index s.closedTools }).2
      refine ⟨?_, hflush.wire.trans htaken.wire, hflush.finished.trans htaken.finished⟩
      simp only [List.forall_mem_append, List.forall_mem_cons]
      refine ⟨?_, messagesOpen_blockStop _, hflush.frames⟩
      intro f hf
      obtain ⟨text, _, rfl⟩ := Option.map_eq_some_iff.mp (Option.mem_toList.mp hf)
      exact messagesOpen_blockDelta _ _
    · have hflush := @flushHeldTools_emits sj
        { s with openBlock := none, closedTools := insert index s.closedTools }
      refine ⟨?_, hflush.wire, hflush.finished⟩
      simp only [Option.map_none, Option.toList_none, List.nil_append, List.forall_mem_cons]
      exact ⟨messagesOpen_blockStop _, hflush.frames⟩

theorem ensureBlock_emits (kind : BlockKind) (s : StreamEncoder) :
    Emits MessagesOpen s (ensureBlock sj kind s) := by
  unfold ensureBlock
  split
  · exact .refl s
  · exact (closeOpen_emits s).more (List.forall_mem_singleton.mpr (messagesOpen_blockStart _ _))
      rfl rfl

theorem blockDelta_emits (kind : BlockKind) (body : Value) (s : StreamEncoder) :
    Emits MessagesOpen s (blockDelta sj kind body s) :=
  (ensureBlock_emits kind s).more (List.forall_mem_singleton.mpr (messagesOpen_blockDelta _ _))
    rfl rfl

theorem deferOr_emits {emit : StreamEncoder → List RawSse × StreamEncoder}
    (h : ∀ s, Emits MessagesOpen s (emit s)) (s : StreamEncoder) :
    Emits MessagesOpen s (deferOr ev emit s) := by
  unfold deferOr
  split
  · exact .none rfl rfl
  · exact h s

theorem openTool_emits (enc : ℕ) (id name : String) (s : StreamEncoder) :
    Emits MessagesOpen s (openTool enc id name s) := .one (messagesOpen_blockStart _ _) rfl rfl

theorem messagesToolStart_emits (custom : Bool) (id name : String) (index : ℕ) (s : StreamEncoder) :
    Emits MessagesOpen s (messagesToolStart sj custom id name index s) := by
  have halloc : ∀ s, Emits MessagesOpen s ([], noteCustomSlot (allocTool index s).1 custom
      (allocTool index s).2) := fun s =>
    (noteCustomSlot_emits _ _ _ _).before (allocTool_same index s).wire (allocTool_same index s).finished
  unfold messagesToolStart
  simp only
  split
  · split
    · exact noteCustomSlot_emits _ _ _ _
    · exact .refl s
  · split
    · exact (closeOpen_emits s).andThen
        (((halloc _).andThen (openTool_emits _ _ _ _)).before rfl rfl)
    · split
      · exact (noteCustomSlot_emits _ _ _ _).before rfl rfl
      · split
        · exact .none (halloc s).wire (halloc s).finished
        · exact (halloc s).andThen ((closeOpen_emits _).andThen (openTool_emits _ _ _ _))

theorem messagesToolArg_emits (custom : Bool) (delta : String) (index : ℕ) (s : StreamEncoder) :
    Emits MessagesOpen s (messagesToolArg sj custom delta index s) := by
  have hsame := toolEnc_same index s
  unfold messagesToolArg
  simp only
  split
  · exact .none hsame.wire hsame.finished
  · split
    · split
      · exact .none hsame.wire hsame.finished
      · exact .none hsame.wire hsame.finished
    · split
      · exact .none hsame.wire hsame.finished
      · split
        · exact .one (messagesOpen_blockDelta _ _) hsame.wire hsame.finished
        · exact .one (messagesOpen_blockDelta _ _) hsame.wire hsame.finished

theorem messagesImage_emits (mediaType data : String) (s : StreamEncoder) :
    Emits MessagesOpen s (messagesImage sj mediaType data s) := by
  refine (closeOpen_emits s).more ?_ rfl rfl
  simp only [List.forall_mem_cons]
  exact ⟨messagesOpen_blockStart _ _, messagesOpen_blockStop _, List.forall_mem_nil _⟩

theorem messagesEvent_emits {custom : Bool} {r : List RawSse × StreamEncoder}
    (harm : MessagesGrammar.hasMessagesArm ev = true) (h : messagesEvent sj custom ev s = .ok r) :
    Emits MessagesOpen s r := by
  cases ev with
  | textDelta text => exact Except.ok.inj h ▸ deferOr_emits (blockDelta_emits _ _) s
  | reasoningDelta text => exact Except.ok.inj h ▸ deferOr_emits (blockDelta_emits _ _) s
  | reasoningSignature signature => exact Except.ok.inj h ▸ deferOr_emits (blockDelta_emits _ _) s
  | audioTranscriptDelta text => exact Except.ok.inj h ▸ deferOr_emits (blockDelta_emits _ _) s
  | annotationAdded ann => exact Except.ok.inj h ▸ deferOr_emits (blockDelta_emits _ _) s
  | toolCallStart id name sig index =>
    exact Except.ok.inj h ▸ messagesToolStart_emits custom id name index s
  | toolCallArgDelta delta index =>
    exact Except.ok.inj h ▸ messagesToolArg_emits custom delta index s
  | imageDelta mediaType data => exact Except.ok.inj h ▸ messagesImage_emits mediaType data s
  | customToolCallStart id name index => cases harm
  | customToolCallInputDelta delta index => cases harm
  | searchEntryPoint rendered => cases harm
  | protocol itemType payload => cases harm
  | unknown event raw => cases harm
  | done => cases harm
  | _ => exact Except.ok.inj h ▸ .none rfl rfl

theorem noteMessagesEvent_same (ev : IrStreamEvent) (s : StreamEncoder) :
    (noteMessagesEvent ev s).wire = s.wire ∧ (noteMessagesEvent ev s).finished = s.finished := by
  cases ev <;> exact ⟨rfl, rfl⟩

theorem startMessages_emits (s : StreamEncoder) : Emits MessagesOpen s (startMessages s) := by
  unfold startMessages
  split
  · exact .refl s
  · exact .one ⟨by simp [messagesStartFrame, named], rfl⟩ rfl rfl

theorem pushMessages_emits {r : List RawSse × StreamEncoder}
    (harm : MessagesGrammar.hasMessagesArm (customToolAsFunction ev) = true)
    (h : pushMessages sj s ev = .ok r) : Emits MessagesOpen s r := by
  obtain ⟨hwire, hfinished⟩ := noteMessagesEvent_same (customToolAsFunction ev) s
  unfold pushMessages at h
  simp only at h
  split at h
  · exact Except.ok.inj h ▸ .none hwire hfinished
  · obtain ⟨r', hevent, rfl⟩ := map_eq_ok h
    exact ((startMessages_emits _).andThen (messagesEvent_emits harm hevent)).before hwire hfinished

def ResponsesOpen (frame : RawSse) : Prop :=
  frame.event ≠ some "response.completed" ∧ frameStop .responses frame = none

theorem responsesOpen_named {type : String} {rest : List (String × Value)}
    (h : ResponsesFrames.isTerminal type = false) :
    ResponsesOpen (named type (.object (("type", .string type) :: rest))) := by
  constructor
  · intro hevent
    rw [Option.some.inj hevent] at h
    cases h
  · have hany : (some type).any ResponsesFrames.isTerminal = false := h
    exact if_neg (by rw [show (Value.object (("type", .string type) :: rest)).strAt? "type" = some type
      from rfl, hany]; simp)

theorem responsesOpen_added (index : ℕ) (item : Value) : ResponsesOpen (outputItemAdded index item) :=
  responsesOpen_named rfl

theorem responsesOpen_done (index : ℕ) (item : Value) : ResponsesOpen (outputItemDone index item) :=
  responsesOpen_named rfl

theorem textDones_open (s : StreamEncoder) (index : ℕ) (kind : BlockKind) :
    ∀ f ∈ textDones s index kind, ResponsesOpen f := by
  intro f hf
  cases kind with
  | text =>
    obtain ⟨⟨part, i⟩, _, hdone⟩ := List.mem_filterMap.mp hf
    unfold textDone at hdone
    simp only at hdone
    split at hdone
    · cases hdone
    · split at hdone
      · cases hdone
      · obtain rfl := Option.some.inj hdone
        cases part.get? "logprobs" with
        | none => exact responsesOpen_named rfl
        | some logprobs => exact responsesOpen_named rfl
  | thinking => cases hf
  | tool => cases hf
  | customTool => cases hf

theorem closeItem_emits (s : StreamEncoder) : Emits ResponsesOpen s (closeItem s) := by
  obtain ⟨r, items, hstate⟩ := ResponsesGrammar.closeItem_fields s
  refine ⟨?_, by rw [hstate], by rw [hstate]⟩
  unfold closeItem
  split
  · exact List.forall_mem_nil _
  · simp only [List.forall_mem_append]
    exact ⟨textDones_open s _ _, List.forall_mem_singleton.mpr (responsesOpen_done _ _)⟩

theorem ensureItem_emits (kind : BlockKind) (s : StreamEncoder) :
    Emits ResponsesOpen s (ensureItem kind s) := by
  unfold ensureItem
  split
  · exact .refl s
  · exact (closeItem_emits s).more (List.forall_mem_singleton.mpr (responsesOpen_added _ _)) rfl rfl

theorem inItem_emits {kind : BlockKind} {send : ℕ → StreamEncoder → List RawSse × StreamEncoder}
    (h : ∀ index s, Emits ResponsesOpen s (send index s)) (s : StreamEncoder) :
    Emits ResponsesOpen s (inItem kind send s) :=
  (ensureItem_emits kind s).andThen (h _ _)

theorem sendLogprobs_emits (content : Value) (refusal : Option Value) (index : ℕ)
    (s : StreamEncoder) : Emits ResponsesOpen s (sendLogprobs content refusal index s) := by
  have hframe : ∀ merged, ResponsesOpen (logprobsDelta index merged) := by
    intro merged
    cases merged with
    | nil => exact responsesOpen_named rfl
    | cons x xs => exact responsesOpen_named rfl
  unfold sendLogprobs
  simp only
  split
  · exact .one (hframe _) rfl rfl
  · exact .one (hframe _) rfl rfl

theorem takePendingToolExtra_same (index enc : ℕ) (s : StreamEncoder) :
    (takePendingToolExtra index enc s).wire = s.wire ∧
      (takePendingToolExtra index enc s).finished = s.finished := by
  unfold takePendingToolExtra
  split <;> exact ⟨rfl, rfl⟩

theorem responsesToolStart_emits (id name : String) (index : ℕ) (s : StreamEncoder) :
    Emits ResponsesOpen s (responsesToolStart id name index s) := by
  have hsame := allocTool_same index s
  unfold responsesToolStart
  simp only
  split
  · refine .none ?_ ?_
    · exact (takePendingToolExtra_same _ _ _).1.trans (by exact hsame.wire)
    · exact (takePendingToolExtra_same _ _ _).2.trans (by exact hsame.finished)
  · refine ((closeItem_emits _).more (List.forall_mem_singleton.mpr (responsesOpen_added _ _))
      ?_ ?_).before ?_ ?_
    · rfl
    · rfl
    · exact (takePendingToolExtra_same _ _ _).1.trans (by exact hsame.wire)
    · exact (takePendingToolExtra_same _ _ _).2.trans (by exact hsame.finished)

theorem responsesCustomStart_emits (id name : String) (index : ℕ) (s : StreamEncoder) :
    Emits ResponsesOpen s (responsesCustomStart id name index s) := by
  have hsame := allocTool_same index s
  unfold responsesCustomStart
  refine ((closeItem_emits (allocTool index s).2).more
    (List.forall_mem_singleton.mpr (responsesOpen_added _ _)) ?_ ?_).before hsame.wire hsame.finished
  · exact (takePendingToolExtra_same _ _ _).1
  · exact (takePendingToolExtra_same _ _ _).2

theorem appendToolItem_same (index : ℕ) (delta : String) (s : StreamEncoder) :
    (appendToolItem (toolEnc index s).1 delta (toolEnc index s).2).wire = s.wire ∧
      (appendToolItem (toolEnc index s).1 delta (toolEnc index s).2).finished = s.finished := by
  obtain ⟨items, hitems⟩ := ResponsesGrammar.appendToolItem_fields (toolEnc index s).1 delta
    (toolEnc index s).2
  rw [hitems]
  exact ⟨(toolEnc_same index s).wire, (toolEnc_same index s).finished⟩

theorem responsesToolArg_emits (delta : String) (index : ℕ) (s : StreamEncoder) :
    Emits ResponsesOpen s (responsesToolArg delta index s) := by
  obtain ⟨hwire, hfinished⟩ := appendToolItem_same index delta s
  unfold responsesToolArg
  simp only
  split
  · exact .none hwire hfinished
  · exact .one (responsesOpen_named rfl) hwire hfinished

theorem responsesCustomInput_emits (delta : String) (index : ℕ) (s : StreamEncoder) :
    Emits ResponsesOpen s (responsesCustomInput delta index s) :=
  .one (responsesOpen_named rfl) (appendToolItem_same index delta s).1
    (appendToolItem_same index delta s).2

theorem responsesEvent_emits {r : List RawSse × StreamEncoder}
    (hwired : isWired .responses ev = true) (h : responsesEvent sj ev s = .ok r) :
    Emits ResponsesOpen s r := by
  have hitem : ∀ {kind : BlockKind} {send : ℕ → StreamEncoder → List RawSse × StreamEncoder},
      (.ok (inItem kind send s) : Except MapError _) = .ok r →
      (∀ index s, Emits ResponsesOpen s (send index s)) → Emits ResponsesOpen s r := fun hr hsend =>
    Except.ok.inj hr ▸ inItem_emits hsend s
  cases ev with
  | textDelta text =>
    exact hitem h fun _ _ => .one (responsesOpen_named rfl) rfl rfl
  | refusalDelta text =>
    exact hitem h fun _ _ => .one (responsesOpen_named rfl) rfl rfl
  | reasoningDelta text =>
    exact hitem h fun _ _ => .one (responsesOpen_named rfl) rfl rfl
  | reasoningSignature signature =>
    exact hitem h fun _ _ => .one (responsesOpen_added _ _) rfl rfl
  | annotationAdded ann =>
    exact hitem h fun _ _ => .one (responsesOpen_named rfl) rfl rfl
  | imageDelta mediaType data =>
    exact hitem h fun _ _ => .one (responsesOpen_named rfl) rfl rfl
  | logprobs content refusal =>
    exact hitem h (sendLogprobs_emits content refusal)
  | toolCallStart id name sig index =>
    exact Except.ok.inj h ▸ responsesToolStart_emits id name index s
  | customToolCallStart id name index =>
    exact Except.ok.inj h ▸ responsesCustomStart_emits id name index s
  | toolCallArgDelta delta index => exact Except.ok.inj h ▸ responsesToolArg_emits delta index s
  | customToolCallInputDelta delta index =>
    exact Except.ok.inj h ▸ responsesCustomInput_emits delta index s
  | toolCallEnd => exact Except.ok.inj h ▸ closeItem_emits s
  | audioDelta data => exact Except.ok.inj h ▸ .one (responsesOpen_named rfl) rfl rfl
  | audioTranscriptDelta text => exact Except.ok.inj h ▸ .one (responsesOpen_named rfl) rfl rfl
  | searchEntryPoint rendered => cases hwired
  | protocol itemType payload => cases hwired
  | unknown event raw => cases hwired
  | done => cases hwired
  | _ => exact Except.ok.inj h ▸ .none rfl rfl

theorem startResponses_emits (s : StreamEncoder) : Emits ResponsesOpen s (startResponses s) := by
  unfold startResponses
  split
  · exact .refl s
  · exact .one (responsesOpen_named rfl) rfl rfl

theorem pushResponses_emits {r : List RawSse × StreamEncoder}
    (hwired : isWired .responses ev = true) (h : pushResponses sj s ev = .ok r) :
    Emits ResponsesOpen s r := by
  obtain ⟨created, tier, side, hnote⟩ := ResponsesGrammar.noteResponsesEvent_fields ev s
  unfold pushResponses at h
  obtain ⟨r', hevent, rfl⟩ := map_eq_ok h
  have hopening : Emits ResponsesOpen s
      (if isResponsesSidecar ev then ([], noteResponsesEvent ev s)
        else startResponses (noteResponsesEvent ev s)) := by
    rw [hnote]
    split
    · exact .none rfl rfl
    · exact (startResponses_emits _).before rfl rfl
  exact hopening.andThen (responsesEvent_emits hwired hevent)

def ConverseOpen (frame : RawSse) : Prop := frame.get? "messageStop" = none

theorem get?_foldl {name : String} {f : Value → String → Value}
    (hf : ∀ v key, key ≠ name → (f v key).get? name = v.get? name) (keys : List String) (v : Value)
    (hkeys : ∀ key ∈ keys, key ≠ name) : (keys.foldl f v).get? name = v.get? name := by
  induction keys generalizing v with
  | nil => rfl
  | cons key keys ih =>
    rw [List.foldl_cons, ih _ fun k hk => hkeys k (List.mem_cons_of_mem _ hk)]
    exact hf v key (hkeys key List.mem_cons_self)

theorem get?_attachBlockIndex (index : ℕ) (v : Value) :
    (attachBlockIndex index v).get? "messageStop" = v.get? "messageStop" := by
  unfold attachBlockIndex
  refine get?_foldl (fun v key hkey => ?_) _ v (by decide)
  split
  · exact Value.get?_insert_of_ne _ _ hkey.symm
  · rfl

theorem converseOpen_index {body : Value} (h : body.get? "messageStop" = none) (index : ℕ) :
    ConverseOpen (converseFrameWithIndex body index) := (get?_attachBlockIndex index body).trans h

theorem converseEncode_open {body : Value} (hend : isEnd ev = false)
    (h : converseEncode sj ev = .ok body) : body.get? "messageStop" = none := by
  cases ev with
  | imageDelta mediaType data =>
    simp only [converseEncode] at h
    split at h
    · cases h
      rfl
    · cases h
  | finishReason reason vendor => cases hend
  | done => cases hend
  | diagnostics reason => cases h
  | container value => cases h
  | contextManagement value => cases h
  | stopSequence text => cases h
  | protocol itemType payload => cases h
  | unknown event raw => cases h
  | _ =>
    cases h
    rfl

theorem closeConverse_emits (s : StreamEncoder) : Emits ConverseOpen s (closeConverse sj s) := by
  unfold closeConverse
  split
  · exact .refl s
  · rename_i index _ _
    have htaken := takeCustomJson_unsaid sj index { s with openBlock := none }
    refine ⟨?_, htaken.wire, htaken.finished⟩
    simp only [List.forall_mem_append]
    refine ⟨?_, List.forall_mem_singleton.mpr (converseOpen_index rfl index)⟩
    intro f hf
    obtain ⟨text, _, rfl⟩ := Option.map_eq_some_iff.mp (Option.mem_toList.mp hf)
    exact converseOpen_index rfl index

theorem ensureConverseBlock_emits (kind : BlockKind) (s : StreamEncoder) :
    Emits ConverseOpen s (ensureConverseBlock sj kind s) := by
  unfold ensureConverseBlock
  split
  · exact .refl s
  · exact ⟨(closeConverse_emits s).frames, (closeConverse_emits s).wire,
      (closeConverse_emits s).finished⟩

theorem inConverseBlock_emits {kind : BlockKind} {r : List RawSse × StreamEncoder}
    (hend : isEnd ev = false) (h : inConverseBlock sj kind ev s = .ok r) :
    Emits ConverseOpen s r := by
  obtain ⟨body, hbody, rfl⟩ := map_eq_ok h
  exact (ensureConverseBlock_emits kind s).more (List.forall_mem_singleton.mpr
    (converseOpen_index (converseEncode_open hend hbody) _)) rfl rfl

theorem converseMedia_emits {r : List RawSse × StreamEncoder} (hend : isEnd ev = false)
    (h : converseMedia sj ev s = .ok r) : Emits ConverseOpen s r := by
  obtain ⟨body, hbody, rfl⟩ := map_eq_ok h
  refine (closeConverse_emits s).more ?_ rfl rfl
  simp only [List.forall_mem_cons]
  exact ⟨converseOpen_index (converseEncode_open hend hbody) _, converseOpen_index rfl _,
    List.forall_mem_nil _⟩

theorem converseToolCallStart_emits (custom : Bool) (id name : String) (sig : Option String)
    (index : ℕ) (s : StreamEncoder) :
    Emits ConverseOpen s (converseToolCallStart sj custom id name sig index s) := by
  have halloc : Emits ConverseOpen s ([], noteCustomSlot (allocTool index s).1 custom
      (allocTool index s).2) :=
    (noteCustomSlot_emits _ _ _ _).before (allocTool_same index s).wire (allocTool_same index s).finished
  unfold converseToolCallStart
  simp only
  split
  · exact .none halloc.wire halloc.finished
  · refine ((closeConverse_emits _).more (List.forall_mem_singleton.mpr ?_) ?_ ?_).before halloc.wire
      halloc.finished
    · exact converseOpen_index rfl _
    · rfl
    · rfl

theorem converseToolCallArg_emits (custom : Bool) (delta : String) (index : ℕ) (s : StreamEncoder) :
    Emits ConverseOpen s (converseToolCallArg custom delta index s) := by
  have hsame := toolEnc_same index s
  unfold converseToolCallArg
  simp only
  split
  · exact .none hsame.wire hsame.finished
  · split
    · exact .none hsame.wire hsame.finished
    · refine .one ?_ hsame.wire hsame.finished
      exact converseOpen_index rfl _

theorem pushConverse_emits {r : List RawSse × StreamEncoder} (hwired : isWired .converse ev = true)
    (hend : isEnd ev = false) (h : pushConverse sj s ev = .ok r) : Emits ConverseOpen s r := by
  unfold pushConverse at h
  cases ev with
  | textDelta text => exact inConverseBlock_emits hend h
  | reasoningDelta text => exact inConverseBlock_emits hend h
  | reasoningSignature signature => exact inConverseBlock_emits hend h
  | audioTranscriptDelta text => exact inConverseBlock_emits hend h
  | annotationAdded ann => exact inConverseBlock_emits hend h
  | toolCallStart id name sig index =>
    exact Except.ok.inj h ▸ converseToolCallStart_emits _ id name sig index s
  | customToolCallStart id name index =>
    exact Except.ok.inj h ▸ converseToolCallStart_emits _ id name none index s
  | toolCallArgDelta delta index => exact Except.ok.inj h ▸ converseToolCallArg_emits _ delta index s
  | customToolCallInputDelta delta index =>
    exact Except.ok.inj h ▸ converseToolCallArg_emits _ delta index s
  | toolCallEnd => exact Except.ok.inj h ▸ closeConverse_emits s
  | imageDelta mediaType data => exact converseMedia_emits hend h
  | audioDelta data => exact converseMedia_emits hend h
  | usage u geo => exact Except.ok.inj h ▸ .one rfl rfl rfl
  | refusalDelta text =>
    cases h
    exact .one rfl rfl rfl
  | finishReason reason vendor => cases hend
  | searchEntryPoint rendered => cases hwired
  | protocol itemType payload => cases hwired
  | unknown event raw => cases hwired
  | done => cases hwired
  | _ => exact Except.ok.inj h ▸ .none rfl rfl

def GeminiOpen (frame : RawSse) : Prop := frame.data.value?.any hasFinishReason = false

theorem hasFinishReason_insert {key : String} (x v : Value) (h : key ≠ "candidates") :
    hasFinishReason (v.insert key x) = hasFinishReason v := by
  unfold hasFinishReason firstCandidate?
  rw [Value.get?_insert_of_ne _ _ h.symm]

theorem hasFinishReason_insertSome {key : String} (x : Option Value) (v : Value)
    (h : key ≠ "candidates") : hasFinishReason (v.insertSome key x) = hasFinishReason v := by
  cases x with
  | none => rfl
  | some x => exact hasFinishReason_insert x v h

theorem attachFinal_open {key : String} {x : Option Value} {v : Value}
    (h : hasFinishReason v = false) : attachFinal key x v = v := by
  unfold attachFinal
  cases x with
  | none => rfl
  | some x => rw [h]; rfl

theorem attachDestModelValue_open {v : Value} (s : StreamEncoder) (h : hasFinishReason v = false) :
    hasFinishReason (attachDestModelValue s v) = false := by
  have husage : ∀ w : Value, hasFinishReason w = false → hasFinishReason (attachUsage s.gemini w) = false := by
    intro w hw
    unfold attachUsage
    split
    · simp only [hasFinishReason_insert _ _ (show "usageMetadata" ≠ "candidates" by decide), hw]
    · exact hw
  have hmodel : hasFinishReason
      ((if s.model.isEmpty then v else v.insert "modelVersion" s.model).insertSome "responseId"
        (s.gemini.responseId.map .string)) = false := by
    rw [hasFinishReason_insertSome _ _ (by decide)]
    split
    · exact h
    · rw [hasFinishReason_insert _ _ (by decide)]
      exact h
  unfold attachDestModelValue
  simp only [attachFinal_open hmodel, attachPromptFeedback, hmodel, Bool.and_false,
    Bool.false_eq_true, if_false]
  rw [attachFinal_open (husage _ hmodel), attachFinal_open (husage _ hmodel)]
  exact husage _ hmodel

theorem attachDestModel_open {frame : RawSse} (s : StreamEncoder) (h : GeminiOpen frame) :
    GeminiOpen (attachDestModel s frame) := by
  unfold attachDestModel
  split
  · exact h
  · rename_i v hdata
    unfold GeminiOpen at h
    rw [hdata] at h
    exact attachDestModelValue_open s h

theorem geminiEncode_open {frame : RawSse} (hend : isEnd ev = false)
    (h : geminiEncode sj ev = .ok frame) : GeminiOpen frame := by
  cases ev with
  | serviceTier tier =>
    simp only [geminiEncode] at h
    split at h
    · cases h
      rfl
    · cases h
      rfl
  | finishReason reason vendor => cases hend
  | done => cases hend
  | protocol itemType payload => cases h
  | unknown event raw => cases h
  | _ =>
    cases h
    rfl

def GeminiQuiet (s : StreamEncoder) : Prop := ∀ f ∈ s.geminiDeferred, GeminiOpen f

theorem geminiCallFrame_open {call : GeminiHeldCall} {frame : RawSse}
    (h : geminiCallFrame sj s call = some frame) : GeminiOpen frame := by
  unfold geminiCallFrame at h
  split at h
  · cases h
  · obtain rfl := Option.some.inj h
    exact attachDestModel_open s rfl

theorem flushGeminiCalls_emits (h : GeminiQuiet s) :
    Emits GeminiOpen s (flushGeminiCalls sj s) ∧ GeminiQuiet (flushGeminiCalls sj s).2 := by
  refine ⟨⟨?_, rfl, rfl⟩, List.forall_mem_nil _⟩
  intro f hf
  rcases List.mem_append.mp hf with hcall | hlate
  · obtain ⟨call, _, hframe⟩ := List.mem_filterMap.mp hcall
    exact geminiCallFrame_open hframe
  · exact h f hlate

theorem holdGeminiStart_emits (index : ℕ) (id name : String) (sig : Option String) (custom : Bool)
    (h : GeminiQuiet s) : Emits GeminiOpen s (holdGeminiStart sj index id name sig custom s) ∧
      GeminiQuiet (holdGeminiStart sj index id name sig custom s).2 := by
  unfold holdGeminiStart
  simp only
  split
  · split
    · exact ⟨.none rfl rfl, h⟩
    · refine ⟨⟨?_, rfl, rfl⟩, h⟩
      intro f hf
      exact geminiCallFrame_open (Option.mem_toList.mp hf)
  · exact ⟨.none rfl rfl, h⟩

theorem pushGemini_emits {r : List RawSse × StreamEncoder} (hwired : isWired .gemini ev = true)
    (hend : isEnd ev = false) (hquiet : GeminiQuiet s) (h : pushGemini sj s ev = .ok r) :
    Emits GeminiOpen s r ∧ GeminiQuiet r.2 := by
  have hother : (encodeStreamEvent sj .gemini ev).map (fun f =>
      if s.geminiOpenCalls.isEmpty then ([attachDestModel s f], s)
      else ([], { s with geminiDeferred := s.geminiDeferred ++ [attachDestModel s f] })) = .ok r →
      encodeStreamEvent sj .gemini ev = geminiEncode sj ev → Emits GeminiOpen s r ∧ GeminiQuiet r.2 := by
    intro hr heq
    obtain ⟨frame, hframe, rfl⟩ := map_eq_ok hr
    have hopen : GeminiOpen (attachDestModel s frame) :=
      attachDestModel_open s (geminiEncode_open hend (heq ▸ hframe))
    split
    · exact ⟨.one hopen rfl rfl, hquiet⟩
    · exact ⟨.none rfl rfl, List.forall_mem_append.mpr ⟨hquiet, List.forall_mem_singleton.mpr hopen⟩⟩
  cases ev with
  | toolCallStart id name sig index =>
    exact Except.ok.inj h ▸ holdGeminiStart_emits index id name sig false hquiet
  | customToolCallStart id name index =>
    exact Except.ok.inj h ▸ holdGeminiStart_emits index id name none true hquiet
  | toolCallArgDelta delta index => exact Except.ok.inj h ▸ ⟨.none rfl rfl, hquiet⟩
  | customToolCallInputDelta delta index => exact Except.ok.inj h ▸ ⟨.none rfl rfl, hquiet⟩
  | toolCallEnd => exact Except.ok.inj h ▸ flushGeminiCalls_emits hquiet
  | finishReason reason vendor => cases hend
  | protocol itemType payload => cases hwired
  | unknown event raw => cases hwired
  | done => cases hwired
  | _ => exact hother h rfl

/-- A stream that has not been told to end. -/
structure Quiet (client : Wire) (s : StreamEncoder) : Prop where
  wire : s.wire = client
  finished : s.finished = false
  chat : client = .chatCompletions → ∃ before, ChatHeard before s
  deferred : client = .gemini → GeminiQuiet s

theorem Quiet.new (wire : Wire) (model : String) : Quiet wire (StreamEncoder.new wire model) where
  wire := rfl
  finished := rfl
  chat := by
    rintro rfl
    exact ⟨[], rfl, rfl, rfl, .new, by simp [SeenCall, StreamEncoder.new, called]⟩
  deferred := fun _ => List.forall_mem_nil _

def openFrame (wire : Wire) (frame : RawSse) : Prop := closing wire frame = false

theorem Emits.closed {wire : Wire} {p : RawSse → Prop} {r : List RawSse × StreamEncoder}
    (h : Emits p s r) (hp : ∀ f, p f → closing wire f = false) : Emits (openFrame wire) s r :=
  ⟨fun f hf => hp f (h.frames f hf), h.wire, h.finished⟩

theorem wired_quiet {wire : Wire} (hwire : wire ≠ .chatCompletions) (h : Quiet wire s)
    (hend : isEnd ev = false) (hwired : isWired s.wire ev = true)
    (hpush : pushWire sj s ev = .ok (more, t)) :
    Emits (openFrame wire) s (more, t) ∧ (wire = .gemini → GeminiQuiet t) := by
  obtain rfl := h.wire
  unfold pushWire at hpush
  cases hkind : s.wire with
  | chatCompletions => exact absurd hkind hwire
  | messages =>
    rw [hkind] at hpush hwired
    refine ⟨(pushMessages_emits (MessagesGrammar.hasMessagesArm_of_wired hwired) hpush).closed ?_,
      by simp⟩
    exact fun f hf => by simpa [closing] using hf.1
  | responses =>
    rw [hkind] at hpush hwired
    refine ⟨(pushResponses_emits hwired hpush).closed ?_, by simp⟩
    exact fun f hf => by simpa [closing] using hf.1
  | gemini =>
    rw [hkind] at hpush hwired
    obtain ⟨hemits, hquiet⟩ := pushGemini_emits hwired hend (h.deferred hkind) hpush
    exact ⟨hemits.closed fun f hf => hf, fun _ => hquiet⟩
  | converse =>
    rw [hkind] at hpush hwired
    refine ⟨(pushConverse_emits hwired hend hpush).closed ?_, by simp⟩
    exact fun f hf => by simp [closing, show f.get? "messageStop" = none from hf]

theorem side_quiet {wire : Wire} (h : Quiet wire s) {itemType : String} {payload : Value}
    {r : List RawSse × StreamEncoder} (heffect : SideEffect sj s itemType payload r) :
    Emits (openFrame wire) s r ∧ (wire = .gemini → GeminiQuiet r.2) := by
  obtain rfl := h.wire
  cases heffect with
  | quiet hside =>
    refine ⟨.none (SideOnly.unsaid hside).wire (SideOnly.unsaid hside).finished, fun hwire => ?_⟩
    obtain ⟨c, m, r, g, p, rfl, _⟩ := hside
    exact h.deferred hwire
  | citation hwire =>
    refine ⟨(blockDelta_emits _ _ s).closed fun f hf => ?_, fun hgemini => ?_⟩
    · rw [hwire]
      simpa [closing] using hf.1
    · rw [hwire] at hgemini
      cases hgemini
  | @reasoning u hwire _ _ hside =>
    refine ⟨((ensureItem_emits .thinking u).before (SideOnly.unsaid hside).wire
      (SideOnly.unsaid hside).finished).closed fun f hf => ?_, fun hgemini => ?_⟩
    · rw [hwire]
      simpa [closing] using hf.1
    · rw [hwire] at hgemini
      cases hgemini
  | codePart hwire =>
    refine ⟨.one ?_ rfl rfl, h.deferred⟩
    have hpart : GeminiOpen (unnamed (geminiPart payload)) := rfl
    rw [hwire]
    exact attachDestModel_open s hpart
  | redacted blob hwire =>
    refine ⟨.one ?_ rfl rfl, h.deferred⟩
    rw [hwire]
    rfl

theorem chat_push_quiet {before : List IrStreamEvent} (h : ChatHeard before s)
    (hstep : PushStep sj s ev more t) : ChatHeard (before ++ [ev]) t ∧
      ∀ f ∈ more, closing .chatCompletions f = true → copiesClosing sj .chatCompletions ev := by
  obtain ⟨hnext, hstops⟩ := chat_step h hstep
  refine ⟨hnext, fun f hf hclosing => ?_⟩
  obtain ⟨stop, hstop⟩ := Option.isSome_iff_exists.mp hclosing
  have hmem : stop ∈ stopsIn .chatCompletions more := List.mem_filterMap.mpr ⟨f, hf, hstop⟩
  rw [hstops, Option.mem_toList, copiedStop] at hmem
  split at hmem
  · rename_i hcopied
    refine ⟨hcopied, ?_⟩
    cases hframe : encodeStreamEvent sj .chatCompletions ev with
    | ok frame =>
      rw [hframe] at hmem
      exact ⟨frame, rfl, by rw [closing, show frameStop .chatCompletions frame = some stop from hmem]; rfl⟩
    | error e =>
      rw [hframe] at hmem
      cases hmem
  · cases hmem

theorem push_quiet {wire : Wire} (h : Quiet wire s) (hend : isEnd ev = false)
    (hpush : push sj s ev = .ok (more, t)) :
    Quiet wire t ∧ ∀ f ∈ more, closing wire f = true → copiesClosing sj wire ev := by
  have hdone : isDone ev = false := by
    cases ev <;> first | rfl | cases hend
  have hstep := push_step h.finished hdone hpush
  by_cases hchat : wire = .chatCompletions
  · subst hchat
    obtain ⟨before, hheard⟩ := h.chat rfl
    obtain ⟨hnext, hclosing⟩ := chat_push_quiet hheard hstep
    exact ⟨⟨hnext.wire, hnext.finished, fun _ => ⟨_, hnext⟩, nofun⟩, hclosing⟩
  · have hown : Emits (openFrame wire) s (more, t) ∧ (wire = .gemini → GeminiQuiet t) →
        Quiet wire t ∧ ∀ f ∈ more, closing wire f = true → copiesClosing sj wire ev := by
      rintro ⟨hemits, hquiet⟩
      refine ⟨⟨hemits.wire.trans h.wire, hemits.finished.trans h.finished, fun hc => absurd hc hchat,
        hquiet⟩, fun f hf hclosing => ?_⟩
      have hopen : closing wire f = false := hemits.frames f hf
      rw [hopen] at hclosing
      cases hclosing
    cases hstep with
    | copied frame hcopied hframe =>
      refine ⟨h, fun f hf hclosing => ?_⟩
      obtain rfl := List.mem_singleton.mp hf
      rw [h.wire] at hcopied hframe
      exact ⟨hcopied, f, hframe, hclosing⟩
    | side hev _ heffect => exact hown (side_quiet h heffect)
    | skipped _ _ => exact hown ⟨.refl s, h.deferred⟩
    | wired hwired _ hpush => exact hown (wired_quiet hchat h hend hwired hpush)

end Wiremux.ClosingFrames
