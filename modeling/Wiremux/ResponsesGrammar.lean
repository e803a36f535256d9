import Wiremux.OrderedMap
import Wiremux.ResponsesFrames
import Wiremux.SideChannels
import Wiremux.ToolRouting

set_option autoImplicit false

/-!
# Grammar of the Responses stream

Output items are serial. The calls that are held have indexes that no item
was added at, and are added in one piece at the end.
-/
namespace Wiremux.ResponsesGrammar
open Std.TreeMap (mem_toList_iff_getElem?_eq_some)
open JsonValue StreamEvents StreamEventEncoding StreamEventFrames EmittingRuns EncoderState
open ResponsesEncoder SerialBlocks ResponsesFrames OrderedMap ToolRouting StreamEncoderPush
open SideChannels CallEvents

structure Itemed (ms : List (Mark ℕ)) (s : StreamEncoder) : Prop where
  wire : s.wire = .responses
  serial : Serial (· ≠ ·) ms (s.openBlock.map Prod.fst)
  starts_lt : ∀ j ∈ starts ms, j < s.nextBlock
  held_lt : ∀ e, s.responsesHeld.contains e = true → e < s.nextBlock
  held_new : ∀ e, s.responsesHeld.contains e = true → e ∉ starts ms

variable {ms : List (Mark ℕ)} {s t : StreamEncoder}

theorem Itemed.congr (h : Itemed ms s) (hwire : t.wire = s.wire)
    (hopen : t.openBlock = s.openBlock) (hheld : t.responsesHeld = s.responsesHeld)
    (hnext : s.nextBlock ≤ t.nextBlock) : Itemed ms t where
  wire := hwire.trans h.wire
  serial := hopen ▸ h.serial
  starts_lt := fun j hj => Nat.lt_of_lt_of_le (h.starts_lt j hj) hnext
  held_lt := fun e he => Nat.lt_of_lt_of_le (h.held_lt e (hheld ▸ he)) hnext
  held_new := fun e he => h.held_new e (hheld ▸ he)

theorem takeItem_fields (s : StreamEncoder) (index : ℕ) (kind : BlockKind) :
    ∃ r items, takeItem s index kind = { s with responses := r, toolItems := items } := by
  cases kind with
  | text => exact ⟨_, s.toolItems, rfl⟩
  | thinking => exact ⟨_, s.toolItems, rfl⟩
  | tool => exact ⟨_, _, rfl⟩
  | customTool => exact ⟨_, _, rfl⟩

theorem closeItem_fields (s : StreamEncoder) :
    ∃ r items, (closeItem s).2 = { s with openBlock := none, responses := r, toolItems := items } := by
  unfold closeItem
  cases hopen : s.openBlock with
  | none =>
    refine ⟨s.responses, s.toolItems, ?_⟩
    obtain ⟨⟩ := s
    cases hopen
    rfl
  | some b => exact takeItem_fields { s with openBlock := none } b.1 b.2

theorem marks_textDones (s : StreamEncoder) (index : ℕ) (kind : BlockKind) :
    ∀ m ∈ marks (textDones s index kind), m = .delta index := by
  intro m hm
  obtain ⟨frame, hframe, rfl⟩ := List.mem_map.mp hm
  cases kind with
  | text =>
    obtain ⟨p, _, hp⟩ := List.mem_filterMap.mp hframe
    exact itemMark_textDone_part _ _ _ hp
  | thinking => cases hframe
  | tool => cases hframe
  | customTool => cases hframe

theorem Itemed.close (h : Itemed ms s) :
    Itemed (ms ++ marks (closeItem s).1) (closeItem s).2 ∧
      starts (ms ++ marks (closeItem s).1) = starts ms := by
  have key : Serial (· ≠ ·) (ms ++ marks (closeItem s).1) none ∧
      starts (ms ++ marks (closeItem s).1) = starts ms := by
    have hserial := h.serial
    unfold closeItem
    cases hopen : s.openBlock with
    | none =>
      rw [hopen] at hserial
      simpa using hserial
    | some b =>
      obtain ⟨index, kind⟩ := b
      rw [hopen] at hserial
      simp only [marks_append, marks_cons, marks_nil, itemMark_done, starts_append]
      rw [← List.append_assoc]
      refine ⟨(hserial.deltas _ (marks_textDones s index kind)).stop, ?_⟩
      rw [Serial.starts_of_deltas (marks_textDones s index kind)]
      simp
  obtain ⟨r, items, heq⟩ := closeItem_fields s
  refine ⟨?_, key.2⟩
  rw [heq]
  exact
    { wire := h.wire
      serial := key.1
      starts_lt := by rw [key.2]; exact h.starts_lt
      held_lt := h.held_lt
      held_new := by rw [key.2]; exact h.held_new }

theorem Itemed.startItem (h : Itemed ms s) (hopen : s.openBlock = none) {index : ℕ}
    (hnew : index ∉ starts ms) (hheld : s.responsesHeld.contains index = false)
    (hlt : index < s.nextBlock) (kind : BlockKind) :
    Itemed (ms ++ [.start index]) { s with openBlock := some (index, kind) } := by
  have hserial := h.serial
  rw [hopen] at hserial
  have hmem : ∀ j ∈ starts (ms ++ [.start index]), j ∈ starts ms ∨ j = index := by
    intro j hj
    simpa using hj
  exact
    { wire := h.wire
      serial := hserial.start fun j hj heq => hnew (heq ▸ hj)
      starts_lt := fun j hj => by
        rcases hmem j hj with hj | rfl
        · exact h.starts_lt j hj
        · exact hlt
      held_lt := h.held_lt
      held_new := fun e he hj => by
        rcases hmem e hj with hj | rfl
        · exact h.held_new e he hj
        · exact Bool.false_ne_true (hheld.symm.trans he) }

theorem Itemed.next_new (h : Itemed ms s) :
    s.nextBlock ∉ starts ms ∧ s.responsesHeld.contains s.nextBlock = false := by
  refine ⟨fun hmem => Nat.lt_irrefl _ (h.starts_lt _ hmem), ?_⟩
  cases hc : s.responsesHeld.contains s.nextBlock with
  | false => rfl
  | true => exact absurd (h.held_lt _ hc) (Nat.lt_irrefl _)

/-- What an operation leaves alone, and how much room it takes. -/
structure Kept (s t : StreamEncoder) : Prop where
  started : t.started = s.started
  finished : t.finished = s.finished
  room : t.nextBlock ≤ s.nextBlock + 1

theorem Kept.refl (s : StreamEncoder) : Kept s s := ⟨rfl, rfl, Nat.le_succ _⟩

theorem closeItem_open (s : StreamEncoder) : (closeItem s).2.openBlock = none := by
  obtain ⟨r, items, heq⟩ := closeItem_fields s
  rw [heq]

theorem closeItem_kept (s : StreamEncoder) : Kept s (closeItem s).2 := by
  obtain ⟨r, items, heq⟩ := closeItem_fields s
  rw [heq]
  exact ⟨rfl, rfl, Nat.le_succ _⟩

theorem ensureItem_itemed (kind : BlockKind) (h : Itemed ms s) (hroom : s.nextBlock < u32Max) :
    ∃ index, (ensureItem kind s).2.openBlock = some (index, kind) ∧
      Itemed (ms ++ marks (ensureItem kind s).1) (ensureItem kind s).2 ∧
      Kept s (ensureItem kind s).2 := by
  unfold ensureItem
  by_cases hkind : s.opensKind kind = true
  · rw [if_pos hkind]
    unfold StreamEncoder.opensKind at hkind
    cases hopen : s.openBlock with
    | none => simp [hopen] at hkind
    | some b =>
      obtain ⟨index, k⟩ := b
      obtain rfl : k = kind := by simpa [hopen] using hkind
      exact ⟨index, rfl, by simpa using h, Kept.refl s⟩
  · obtain ⟨r, items, heq⟩ := closeItem_fields s
    obtain ⟨hclose, hstarts⟩ := h.close
    obtain ⟨hnew, hheld⟩ := h.next_new
    simp only [if_neg hkind, heq]
    rw [heq] at hclose
    have hnext : satAdd s.nextBlock 1 = s.nextBlock + 1 := satAdd_one_of_lt hroom
    have hroomed := hclose.congr (t := { s with
      openBlock := none
      responses := r
      toolItems := items
      nextBlock := satAdd s.nextBlock 1 }) rfl rfl rfl (le_satAdd_one hroom)
    have hstart := hroomed.startItem rfl (by rw [hstarts]; exact hnew) hheld
      (by simp only [hnext]; exact Nat.lt_succ_self _) kind
    refine ⟨s.nextBlock, rfl, ?_, ⟨rfl, rfl, satAdd_one_le _⟩⟩
    simp only [marks_append, marks_cons, marks_nil, itemMark_itemBody, ← List.append_assoc]
    exact hstart

theorem Itemed.delta (h : Itemed ms s) {index : ℕ}
    (hopen : s.openBlock.map Prod.fst = some index) : Itemed (ms ++ [.delta index]) s where
  wire := h.wire
  serial := by
    have := h.serial
    rw [hopen] at this ⊢
    exact this.delta
  starts_lt := by simpa using h.starts_lt
  held_lt := h.held_lt
  held_new := by simpa using h.held_new

/-- A send into the open item: one frame of that item, with this visible text. -/
def Sends (send : ℕ → StreamEncoder → List RawSse × StreamEncoder) (text : String) : Prop :=
  ∀ index s, ∃ frame r, send index s = ([frame], { s with responses := r }) ∧
    ItemFrame index text frame

theorem inItem_itemed {send : ℕ → StreamEncoder → List RawSse × StreamEncoder} {text : String}
    (hsend : Sends send text) (kind : BlockKind) (h : Itemed ms s) (hroom : s.nextBlock < u32Max) :
    Itemed (ms ++ marks (inItem kind send s).1) (inItem kind send s).2 ∧
      Kept s (inItem kind send s).2 := by
  obtain ⟨index, hopen, hitemed, hkept⟩ := ensureItem_itemed kind h hroom
  have hindex : (ensureItem kind s).2.openIndex = index := by
    simp [StreamEncoder.openIndex, hopen]
  obtain ⟨frame, r, heq, hframe⟩ := hsend index (ensureItem kind s).2
  unfold inItem
  simp only [hindex, heq, marks_append, marks_cons, marks_nil, hframe.mark]
  rw [← List.append_assoc]
  have hdelta := hitemed.delta (by rw [hopen]; rfl)
  exact ⟨hdelta.congr rfl rfl rfl (Nat.le_refl _), hkept.started, hkept.finished, hkept.room⟩

theorem sends_text (text : String) : Sends (sendText text) text :=
  fun _ _ => ⟨_, _, rfl, rfl, ⟨rfl, rfl, rfl⟩, rfl⟩

theorem sends_refusal (text : String) : Sends (sendRefusal text) "" :=
  fun _ _ => ⟨_, _, rfl, rfl, ⟨rfl, rfl, rfl⟩, rfl⟩

theorem sends_reasoning (text : String) : Sends (sendReasoning text) "" :=
  fun _ _ => ⟨_, _, rfl, rfl, ⟨rfl, rfl, rfl⟩, rfl⟩

theorem sends_signature (signature : String) :
    Sends (fun index s => ([outputItemAdded index (signatureItem signature)], s)) "" :=
  fun _ s => ⟨_, s.responses, rfl, rfl, ⟨rfl, rfl, rfl⟩, rfl⟩

theorem sends_annotation (ann : Value) : Sends ( sendAnnotation ann) "" :=
  fun _ _ => ⟨_, _, rfl, rfl, ⟨rfl, rfl, rfl⟩, rfl⟩

theorem sends_image (mediaType data : String) : Sends (sendImage mediaType data) "" :=
  fun _ _ => ⟨_, _, rfl, rfl, ⟨rfl, rfl, rfl⟩, rfl⟩

theorem sends_logprobs (content : Value) (refusal : Option Value) :
    Sends (sendLogprobs content refusal) "" := by
  intro index s
  unfold sendLogprobs logprobsDelta
  cases mergedLogprobItems content refusal with
  | nil => exact ⟨_, s.responses, rfl, rfl, ⟨rfl, rfl, rfl⟩, rfl⟩
  | cons item items => exact ⟨_, _, rfl, rfl, ⟨rfl, rfl, rfl⟩, rfl⟩

theorem takePendingToolExtra_fields (index enc : ℕ) (s : StreamEncoder) :
    ∃ r, takePendingToolExtra index enc s = { s with responses := r } := by
  unfold takePendingToolExtra
  cases s.responses.toolPending index with
  | none => exact ⟨s.responses, rfl⟩
  | some extra => exact ⟨_, rfl⟩

theorem Itemed.hold (h : Itemed ms s) {enc : ℕ} (hlt : enc < s.nextBlock)
    (hnew : enc ∉ starts ms) :
    Itemed ms { s with responsesHeld := s.responsesHeld.insert enc () } := by
  have hmem : ∀ e, (s.responsesHeld.insert enc ()).contains e = true →
      e = enc ∨ s.responsesHeld.contains e = true := by
    intro e he
    rw [Std.TreeMap.contains_insert, Bool.or_eq_true] at he
    exact he.imp (fun h => (Nat.compare_eq_eq.mp (by simpa using h)).symm) id
  exact
    { wire := h.wire
      serial := h.serial
      starts_lt := h.starts_lt
      held_lt := fun e he => by
        rcases hmem e he with rfl | he
        · exact hlt
        · exact h.held_lt e he
      held_new := fun e he => by
        rcases hmem e he with rfl | he
        · exact hnew
        · exact h.held_new e he }

theorem responsesToolStart_itemed (id name : String) (index : ℕ) (h : Itemed ms s)
    (hroom : s.nextBlock < u32Max) :
    Itemed (ms ++ marks (responsesToolStart id name index s).1)
        (responsesToolStart id name index s).2 ∧
      Kept s (responsesToolStart id name index s).2 := by
  obtain ⟨hnew, hheld⟩ := h.next_new
  have halloc := allocTool_block (s := s) index (by rw [h.wire]; decide)
  have hnext : satAdd s.nextBlock 1 = s.nextBlock + 1 := satAdd_one_of_lt hroom
  unfold responsesToolStart
  simp only [halloc]
  obtain ⟨r, hpending⟩ := takePendingToolExtra_fields index s.nextBlock { s with
    nextBlock := satAdd s.nextBlock 1
    tools := s.tools.assign index s.nextBlock
    toolIds := Function.update s.toolIds s.nextBlock (some id)
    toolItems := Function.update s.toolItems s.nextBlock (some ⟨id, name, ""⟩) }
  rw [hpending]
  have hnoted := h.congr (t := { s with
    nextBlock := satAdd s.nextBlock 1
    tools := s.tools.assign index s.nextBlock
    toolIds := Function.update s.toolIds s.nextBlock (some id)
    toolItems := Function.update s.toolItems s.nextBlock (some ⟨id, name, ""⟩)
    responses := r }) rfl rfl rfl (le_satAdd_one hroom)
  have hlt : s.nextBlock < satAdd s.nextBlock 1 := by omega
  split
  · exact ⟨by simpa using hnoted.hold hlt hnew, rfl, rfl, satAdd_one_le _⟩
  · obtain ⟨hclosed, hstarts⟩ := hnoted.close
    obtain ⟨r', items, heq⟩ := closeItem_fields { s with
      nextBlock := satAdd s.nextBlock 1
      tools := s.tools.assign index s.nextBlock
      toolIds := Function.update s.toolIds s.nextBlock (some id)
      toolItems := Function.update s.toolItems s.nextBlock (some ⟨id, name, ""⟩)
      responses := r }
    rw [heq] at hclosed
    have hstart := hclosed.startItem rfl (by rw [hstarts]; exact hnew)
      hheld hlt .tool
    rw [heq]
    refine ⟨?_, rfl, rfl, satAdd_one_le _⟩
    simp only [marks_append, marks_cons, marks_nil, itemMark_functionCall, ← List.append_assoc]
    exact hstart

theorem responsesCustomStart_itemed (id name : String) (index : ℕ) (h : Itemed ms s)
    (hroom : s.nextBlock < u32Max) :
    Itemed (ms ++ marks (responsesCustomStart id name index s).1)
        (responsesCustomStart id name index s).2 ∧
      Kept s (responsesCustomStart id name index s).2 := by
  obtain ⟨hnew, hheld⟩ := h.next_new
  have halloc := allocTool_block (s := s) index (by rw [h.wire]; decide)
  have hnext : satAdd s.nextBlock 1 = s.nextBlock + 1 := satAdd_one_of_lt hroom
  unfold responsesCustomStart
  simp only [halloc]
  have hnoted := h.congr (t := { s with
    nextBlock := satAdd s.nextBlock 1
    tools := s.tools.assign index s.nextBlock }) rfl rfl rfl (le_satAdd_one hroom)
  obtain ⟨hclosed, hstarts⟩ := hnoted.close
  obtain ⟨r, items, heq⟩ := closeItem_fields { s with
    nextBlock := satAdd s.nextBlock 1
    tools := s.tools.assign index s.nextBlock }
  rw [heq] at hclosed ⊢
  obtain ⟨r', hpending⟩ := takePendingToolExtra_fields index s.nextBlock { s with
    nextBlock := satAdd s.nextBlock 1
    tools := s.tools.assign index s.nextBlock
    openBlock := none
    responses := r
    toolItems := Function.update items s.nextBlock (some ⟨id, name, ""⟩) }
  simp only [hpending]
  have hfields := hclosed.congr (t := { s with
    nextBlock := satAdd s.nextBlock 1
    tools := s.tools.assign index s.nextBlock
    openBlock := none
    responses := r'
    toolItems := Function.update items s.nextBlock (some ⟨id, name, ""⟩) }) rfl rfl rfl
    (Nat.le_refl _)
  have hstart := hfields.startItem rfl (by rw [hstarts]; exact hnew) hheld
    (show s.nextBlock < satAdd s.nextBlock 1 by omega) .customTool
  refine ⟨?_, rfl, rfl, satAdd_one_le _⟩
  simp only [marks_append, marks_cons, marks_nil, itemMark_customCall, ← List.append_assoc]
  exact hstart

theorem appendToolItem_fields (enc : ℕ) (delta : String) (s : StreamEncoder) :
    ∃ items, appendToolItem enc delta s = { s with toolItems := items } := by
  unfold appendToolItem
  cases s.toolItems enc with
  | none => exact ⟨s.toolItems, rfl⟩
  | some t => exact ⟨_, rfl⟩

/-- A fragment goes to the item that is open or, with function arguments, to a
call that is held. -/
def FragmentPlaced (s : StreamEncoder) (f : Fragment) : Prop :=
  s.openBlock.map Prod.fst = some (toolEnc f.index s).1 ∨
    (f.custom = false ∧ s.responsesHeld.contains (toolEnc f.index s).1 = true)

instance (s : StreamEncoder) (f : Fragment) : Decidable (FragmentPlaced s f) :=
  inferInstanceAs (Decidable (_ ∨ _))

theorem FragmentPlaced.congr {f : Fragment} (h : FragmentPlaced s f) (hwire : t.wire = s.wire)
    (hopen : t.openBlock = s.openBlock) (hheld : t.responsesHeld = s.responsesHeld)
    (htools : t.tools = s.tools) (hnext : t.nextBlock = s.nextBlock) : FragmentPlaced t f := by
  unfold FragmentPlaced at h ⊢
  rwa [toolEnc_fst_congr hwire htools hnext, hopen, hheld]

theorem FragmentPlaced.routed {f : Fragment} (hf : FragmentPlaced s f) (h : Itemed ms s) :
    ∃ tools, (toolEnc f.index s).2 = { s with tools := tools } := by
  rcases toolEnc_route f.index (show s.wire ≠ .chatCompletions by rw [h.wire]; decide) with
    hroute | hnew
  · exact hroute
  · obtain ⟨hstarts, hheld⟩ := h.next_new
    rcases hf with hopen | ⟨_, hcontains⟩
    · have := h.serial.starts_eq
      rw [hopen, hnew] at this
      exact absurd (by simp [this]) hstarts
    · rw [hnew, hheld] at hcontains
      cases hcontains

theorem responsesToolArg_itemed (delta : String) (index : ℕ) (h : Itemed ms s)
    (hf : FragmentPlaced s ⟨index, false, delta⟩) :
    Itemed (ms ++ marks (responsesToolArg delta index s).1)
        (responsesToolArg delta index s).2 ∧
      Kept s (responsesToolArg delta index s).2 := by
  obtain ⟨tools, hroute⟩ := hf.routed h
  simp only at hroute
  unfold responsesToolArg
  simp only [hroute]
  obtain ⟨items, happend⟩ := appendToolItem_fields (toolEnc index s).1 delta
    { s with tools := tools }
  rw [happend]
  have hnoted := h.congr (t := { s with tools := tools, toolItems := items }) rfl rfl rfl
    (Nat.le_refl _)
  split
  · exact ⟨by simpa using hnoted, rfl, rfl, Nat.le_succ _⟩
  · rename_i hheld
    refine ⟨hnoted.delta ?_, rfl, rfl, Nat.le_succ _⟩
    exact hf.resolve_right fun hc => hheld hc.2

theorem responsesCustomInput_itemed (delta : String) (index : ℕ) (h : Itemed ms s)
    (hf : FragmentPlaced s ⟨index, true, delta⟩) :
    Itemed (ms ++ marks (responsesCustomInput delta index s).1)
        (responsesCustomInput delta index s).2 ∧
      Kept s (responsesCustomInput delta index s).2 := by
  obtain ⟨tools, hroute⟩ := hf.routed h
  simp only at hroute
  unfold responsesCustomInput
  simp only [hroute]
  obtain ⟨items, happend⟩ := appendToolItem_fields (toolEnc index s).1 delta
    { s with tools := tools }
  rw [happend]
  have hnoted := h.congr (t := { s with tools := tools, toolItems := items }) rfl rfl rfl
    (Nat.le_refl _)
  refine ⟨hnoted.delta ?_, rfl, rfl, Nat.le_succ _⟩
  exact hf.resolve_right fun hc => Bool.false_ne_true hc.1.symm

section
variable (sj : SerdeJson)

theorem Itemed.silent (h : Itemed ms s) : Itemed (ms ++ [.silent]) s where
  wire := h.wire
  serial := h.serial.silent
  starts_lt := by simpa using h.starts_lt
  held_lt := h.held_lt
  held_new := by simpa using h.held_new

theorem responsesEvent_itemed (ev : IrStreamEvent) (h : Itemed ms s)
    (hwired : isWired .responses ev = true) (hroom : s.nextBlock < u32Max)
    (hplaced : ∀ f ∈ fragmentOf? ev, FragmentPlaced s f) :
    ∃ frames t, responsesEvent sj ev s = .ok (frames, t) ∧ Itemed (ms ++ marks frames) t ∧
      Kept s t := by
  have same : ∀ {u : StreamEncoder}, Itemed ms u → Itemed (ms ++ marks []) u := by
    intro u hu
    simpa using hu
  have sent : ∀ {send : ℕ → StreamEncoder → List RawSse × StreamEncoder} {text : String}
      (kind : BlockKind), Sends send text → ∃ frames t, Except.ok (ε := MapError) (inItem kind send s) =
        .ok (frames, t) ∧ Itemed (ms ++ marks frames) t ∧ Kept s t :=
    fun kind hsend => ⟨_, _, rfl, inItem_itemed hsend kind h hroom⟩
  cases ev with
  | textDelta text => exact sent .text (sends_text text)
  | refusalDelta text => exact sent .text (sends_refusal text)
  | reasoningDelta text => exact sent .thinking (sends_reasoning text)
  | reasoningSignature signature => exact sent .thinking (sends_signature signature)
  | annotationAdded ann => exact sent .text ( sends_annotation ann)
  | imageDelta mediaType data => exact sent .text (sends_image mediaType data)
  | logprobs content refusal => exact sent .text (sends_logprobs content refusal)
  | toolCallStart id name sig index =>
    exact ⟨_, _, rfl, responsesToolStart_itemed id name index h hroom⟩
  | customToolCallStart id name index =>
    exact ⟨_, _, rfl, responsesCustomStart_itemed id name index h hroom⟩
  | toolCallArgDelta delta index =>
    exact ⟨_, _, rfl, responsesToolArg_itemed delta index h (hplaced _ rfl)⟩
  | customToolCallInputDelta delta index =>
    exact ⟨_, _, rfl, responsesCustomInput_itemed delta index h (hplaced _ rfl)⟩
  | toolCallEnd => exact ⟨_, _, rfl, h.close.1, closeItem_kept s⟩
  | audioDelta data => exact ⟨_, _, rfl, h.silent, .refl s⟩
  | audioTranscriptDelta text => exact ⟨_, _, rfl, h.silent, .refl s⟩
  | finishReason reason vendor =>
    exact ⟨_, _, rfl, same (h.congr rfl rfl rfl (Nat.le_refl _)), ⟨rfl, rfl, Nat.le_succ _⟩⟩
  | usage u geo =>
    exact ⟨_, _, rfl, same (h.congr rfl rfl rfl (Nat.le_refl _)), ⟨rfl, rfl, Nat.le_succ _⟩⟩
  | created unix => exact ⟨_, _, rfl, same h, .refl s⟩
  | serviceTier tier => exact ⟨_, _, rfl, same h, .refl s⟩
  | metadata entries => exact ⟨_, _, rfl, same h, .refl s⟩
  | moderation input output => exact ⟨_, _, rfl, same h, .refl s⟩
  | diagnostics reason => cases hwired
  | container value => cases hwired
  | contextManagement value => cases hwired
  | stopSequence text => cases hwired
  | searchEntryPoint rendered => cases hwired
  | protocol itemType payload => cases hwired
  | unknown event raw => cases hwired
  | done => cases hwired

/-- Before `response.created` nothing was sent, and the items are as they will
be behind it. -/
structure Tracks (ms : List (Mark ℕ)) (s : StreamEncoder) : Prop where
  itemed : Itemed (if s.started then ms else [.head]) s
  silent : s.started = false → ms = []

theorem Tracks.of_itemed (h : Itemed ms s) (hstarted : s.started = true) : Tracks ms s :=
  ⟨by rw [if_pos hstarted]; exact h, fun hf => by rw [hstarted] at hf; cases hf⟩

theorem Tracks.congr (h : Tracks ms s) (hstarted : t.started = s.started)
    (hwire : t.wire = s.wire) (hopen : t.openBlock = s.openBlock)
    (hheld : t.responsesHeld = s.responsesHeld) (hnext : s.nextBlock ≤ t.nextBlock) :
    Tracks ms t where
  itemed := by
    rw [hstarted]
    exact h.itemed.congr hwire hopen hheld hnext
  silent := fun hf => h.silent (hstarted.symm.trans hf)

theorem noteResponsesEvent_fields (ev : IrStreamEvent) (s : StreamEncoder) :
    ∃ created tier r, noteResponsesEvent ev s =
      { s with createdAt := created, serviceTier := tier, responses := r } := by
  unfold noteResponsesEvent
  split <;> exact ⟨_, _, _, rfl⟩

theorem startResponses_fields (s : StreamEncoder) :
    (startResponses s).2 = { s with started := true } := by
  unfold startResponses
  cases hstarted : s.started with
  | true => simp only [if_true, ← hstarted]
  | false => rfl

theorem Tracks.start (h : Tracks ms s) :
    Itemed (ms ++ marks (startResponses s).1) { s with started := true } := by
  have hitemed := h.itemed.congr (t := { s with started := true }) rfl rfl rfl (Nat.le_refl _)
  unfold startResponses
  cases hstarted : s.started with
  | true => simpa [hstarted] using hitemed
  | false => simpa [hstarted, h.silent hstarted] using hitemed

/-- Events that make the encoder send `response.created`. -/
def opensResponse (ev : IrStreamEvent) : Bool :=
  isWired .responses ev && !isResponsesSidecar ev

theorem sidecar_event {ev : IrStreamEvent} (h : isResponsesSidecar ev = true)
    (s : StreamEncoder) : responsesEvent sj ev s = .ok ([], s) := by
  cases ev <;> first | rfl | cases h

theorem pushResponses_tracks {ev : IrStreamEvent} (h : Tracks ms s)
    (hwired : isWired .responses ev = true) (hroom : s.nextBlock < u32Max)
    (hplaced : ∀ f ∈ fragmentOf? ev, FragmentPlaced s f) :
    ∃ frames t, pushResponses sj s ev = .ok (frames, t) ∧ Tracks (ms ++ marks frames) t ∧
      t.finished = s.finished ∧ t.nextBlock ≤ s.nextBlock + 1 ∧
      (s.started = true ∨ opensResponse ev = true → t.started = true) := by
  obtain ⟨created, tier, r, hnote⟩ := noteResponsesEvent_fields ev s
  have hnoted := h.congr (t := { s with createdAt := created, serviceTier := tier, responses := r })
    rfl rfl rfl rfl (Nat.le_refl _)
  unfold pushResponses
  simp only [hnote]
  cases hside : isResponsesSidecar ev with
  | true =>
    simp only [if_true, sidecar_event sj hside, Except.map]
    refine ⟨_, _, rfl, by simpa using hnoted, rfl, Nat.le_succ _, ?_⟩
    rintro (hs | hopens)
    · exact hs
    · simp [opensResponse, hside] at hopens
  | false =>
    simp only [Bool.false_eq_true, if_false, startResponses_fields]
    obtain ⟨frames, t, hok, hitemed, hkept⟩ := responsesEvent_itemed sj ev hnoted.start hwired
      hroom fun f hf => (hplaced f hf).congr rfl rfl rfl rfl rfl
    have htstarted : t.started = true := hkept.started
    rw [hok]
    refine ⟨_, t, rfl, ?_, hkept.finished, hkept.room, fun _ => htstarted⟩
    rw [marks_append, ← List.append_assoc]
    exact .of_itemed hitemed htstarted

theorem heldCallFrames_serial {e : ℕ} (h : Serial (· ≠ ·) ms none) (hnew : e ∉ starts ms)
    (s : StreamEncoder) :
    Serial (· ≠ ·) (ms ++ marks (heldCallFrames e s).1) none ∧
      (∀ j ∈ starts (ms ++ marks (heldCallFrames e s).1), j ∈ starts ms ∨ j = e) := by
  unfold heldCallFrames
  cases s.toolItems e with
  | none =>
    refine ⟨by simpa using h, fun j hj => Or.inl ?_⟩
    simpa using hj
  | some item =>
    have hargs : ∀ m ∈ marks (if item.args.isEmpty = true then []
        else [callDelta "response.function_call_arguments.delta" e item.id item.args]),
        m = .delta e := by
      intro m hm
      split at hm
      · cases hm
      · exact List.mem_singleton.mp hm
    have hblock := h.block (fun j hj (heq : j = e) => hnew (heq ▸ hj)) hargs
    simp only [marks_cons, marks_append, marks_nil, itemMark_functionCall, itemMark_done]
    refine ⟨hblock, fun j hj => ?_⟩
    simp only [starts_append, starts_start, Serial.starts_of_deltas hargs] at hj
    simpa using hj

theorem flushResponsesHeld_serial (h : Itemed ms s) (hopen : s.openBlock = none) :
    Serial (· ≠ ·) (ms ++ marks (flushResponsesHeld s).1) none := by
  let Inv : List ℕ → List RawSse → StreamEncoder → Prop := fun rest out _ =>
    Serial (· ≠ ·) (ms ++ marks out) none ∧ rest.Nodup ∧ ∀ e ∈ rest, e ∉ starts (ms ++ marks out)
  have hstep : ∀ e rest out t, Inv (e :: rest) out t →
      Inv rest (out ++ (heldCallFrames e t).1) (heldCallFrames e t).2 := by
    rintro e rest out t ⟨hserial, hnodup, hnew⟩
    obtain ⟨he, hrest⟩ := List.nodup_cons.mp hnodup
    obtain ⟨hblock, hstarts⟩ := heldCallFrames_serial hserial (hnew e (by simp)) t
    simp only [Inv, marks_append, ← List.append_assoc]
    refine ⟨hblock, hrest, fun d hd hmem => ?_⟩
    rcases hstarts d hmem with hold | rfl
    · exact hnew d (by simp [hd]) hold
    · exact he hd
  have hserial := h.serial
  rw [hopen] at hserial
  have hinit : Inv (s.responsesHeld.toList.map Prod.fst) [] { s with responsesHeld := ∅ } := by
    refine ⟨by simpa using hserial, ?_, ?_⟩
    · exact List.pairwise_map.mpr ((strictBy_toList s.responsesHeld).imp fun hlt => Nat.ne_of_lt hlt)
    · intro e he
      obtain ⟨⟨k, u⟩, hmem, rfl⟩ := List.mem_map.mp he
      have hcontains : s.responsesHeld.contains k = true :=
        Std.TreeMap.contains_iff_mem.mpr (Std.TreeMap.isSome_getElem?_iff_mem.mp
          (by rw [mem_toList_iff_getElem?_eq_some.mp hmem]; rfl))
      simpa using h.held_new k hcontains
  exact (emitEach_invariant heldCallFrames Inv hstep _ _ _ hinit).1

theorem flushResponsesHeld_kept (s : StreamEncoder) :
    (flushResponsesHeld s).2.started = s.started ∧
      (flushResponsesHeld s).2.finished = s.finished := by
  let Inv : List ℕ → List RawSse → StreamEncoder → Prop := fun _ _ t =>
    t.started = s.started ∧ t.finished = s.finished
  have hstep : ∀ e rest out t, Inv (e :: rest) out t →
      Inv rest (out ++ (heldCallFrames e t).1) (heldCallFrames e t).2 := by
    rintro e rest out t ht
    unfold heldCallFrames
    cases t.toolItems e with
    | none => exact ht
    | some item => exact ht
  exact emitEach_invariant heldCallFrames Inv hstep _ [] _ ⟨rfl, rfl⟩

theorem finishResponses_wellFormed (h : Itemed ms s) :
    WellFormed (· ≠ ·) 1 (ms ++ marks (finishResponses s).1) ∧
      (finishResponses s).2.started = s.started ∧
      (finishResponses s).2.finished = s.finished := by
  have hflush := flushResponsesHeld_serial h.close.1 (closeItem_open s)
  have hwell := hflush.wellFormed 1
  obtain ⟨hstarted, hfinished⟩ := flushResponsesHeld_kept (closeItem s).2
  refine ⟨?_, hstarted.trans (closeItem_kept s).started,
    hfinished.trans (closeItem_kept s).finished⟩
  simpa [finishResponses, tails, List.range_succ] using hwell

/-- A reasoning field that opens the reasoning item. -/
def opensReasoning (s : StreamEncoder) : IrStreamEvent → Bool
  | .protocol itemType payload => isReasoningField itemType &&
      (knowsReasoning s.responses || isReasoningPayload itemType payload)
  | _ => false

/-- Where a step of the Responses encoder keeps the grammar: reasoning fields
and the end come after `response.created`, a fragment has its item, and the
output indexes have not run out. -/
def ResponsesSafe (s : StreamEncoder) (ev : IrStreamEvent) : Prop :=
  s.finished = false →
    (opensReasoning s ev = true → s.started = true) ∧ (isDone ev = true → s.started = true) ∧
    (∀ f ∈ fragmentOf? ev, FragmentPlaced s f) ∧ s.nextBlock < u32Max

instance (s : StreamEncoder) (ev : IrStreamEvent) : Decidable (ResponsesSafe s ev) :=
  inferInstanceAs (Decidable (_ → _ ∧ _ ∧ _ ∧ _))

/-- The trace of a stream that may have ended. -/
structure Streaming (ms : List (Mark ℕ)) (s : StreamEncoder) : Prop where
  running : s.finished = false → Tracks ms s
  ended : s.finished = true → s.started = true ∧ WellFormed (· ≠ ·) 1 ms

theorem finish_streaming (h : Streaming ms s) (hstarted : s.started = true) :
    Streaming (ms ++ marks (finish sj s).1) (finish sj s).2 ∧
      (finish sj s).2.started = true ∧ (finish sj s).2.finished = true := by
  unfold finish
  cases hfinished : s.finished with
  | true =>
    simp only [if_true]
    exact ⟨by simpa using h, hstarted, hfinished⟩
  | false =>
    have hitemed := (h.running hfinished).itemed
    rw [if_pos hstarted] at hitemed
    have hwire : s.wire = .responses := hitemed.wire
    obtain ⟨hwell, hkept, hdone⟩ := finishResponses_wellFormed
      (hitemed.congr (t := { s with finished := true }) rfl rfl rfl (Nat.le_refl _))
    simp only [Bool.false_eq_true, if_false, hwire] at hwell hkept hdone ⊢
    have hlate := hkept.trans hstarted
    exact ⟨⟨fun hf => absurd (hdone.symm.trans hf) (by decide), fun _ => ⟨hlate, hwell⟩⟩, hlate,
      hdone⟩

theorem Tracks.sideOnly (h : Tracks ms s) (hside : SideOnly s t) : Tracks ms t := by
  obtain ⟨c, m, r, g, p, rfl, _⟩ := hside
  exact h.congr rfl rfl rfl rfl (Nat.le_refl _)

theorem push_streaming {ev : IrStreamEvent} (h : Streaming ms s)
    (hplain : copiedVerbatim sj .responses ev = false) (hsafe : ResponsesSafe s ev) :
    ∃ frames t, push sj s ev = .ok (frames, t) ∧ Streaming (ms ++ marks frames) t ∧
      (s.started = true ∨ opensResponse ev = true → t.started = true) := by
  cases hfinished : s.finished with
  | true =>
    obtain ⟨hstarted, _⟩ := h.ended hfinished
    exact ⟨_, _, push_finished hfinished, by simpa using h, fun _ => hstarted⟩
  | false =>
    have htracks := h.running hfinished
    have hwire : s.wire = .responses := htracks.itemed.wire
    obtain ⟨hreasoning, hdone, hplaced, hroom⟩ := hsafe hfinished
    have running : ∀ {ms' : List (Mark ℕ)} {u : StreamEncoder}, u.finished = false →
        Tracks ms' u → Streaming ms' u := by
      intro ms' u hu ht
      exact ⟨fun _ => ht, fun hf => absurd (hf.symm.trans hu) (by decide)⟩
    cases push_cases hfinished (by rw [hwire]; exact hplain) with
    | @side itemType payload r hev hpush heffect =>
      subst hev
      rw [hpush]
      have hnot : opensResponse (.protocol itemType payload) = false := rfl
      cases heffect with
      | @quiet t hside =>
        have hrun := running (hside.finished.trans hfinished) (htracks.sideOnly hside)
        exact ⟨_, _, rfl, by simpa using hrun, by simp [hnot, hside.started]⟩
      | @reasoning t _ hfield hknown hside =>
        have hstarted : s.started = true := hreasoning (by
          simp only [opensReasoning, hfield, decide_true, Bool.true_and]
          exact hknown)
        have htstarted := hside.started.trans hstarted
        have hitemed := (htracks.sideOnly hside).itemed
        rw [if_pos htstarted] at hitemed
        obtain ⟨_, _, hensured, hkept⟩ := ensureItem_itemed .thinking hitemed (by
          obtain ⟨c, m, r, g, p, rfl, _⟩ := hside
          exact hroom)
        have hlate := hkept.started.trans htstarted
        exact ⟨_, _, rfl, running (hkept.finished.trans (hside.finished.trans hfinished))
          (.of_itemed hensured hlate), fun _ => hlate⟩
      | citation hother => rw [hwire] at hother; cases hother
      | codePart hother => rw [hwire] at hother; cases hother
      | redacted blob hother => rw [hwire] at hother; cases hother
    | done hev hpush =>
      subst hev
      rw [hpush]
      obtain ⟨hrun, hstarted, hended⟩ := finish_streaming sj h (hdone rfl)
      exact ⟨_, _, rfl, hrun, fun _ => hstarted⟩
    | skipped hskip hpush =>
      rw [hpush]
      refine ⟨_, _, rfl, by simpa using h, ?_⟩
      rw [hwire] at hskip
      rintro (hs | hopens)
      · exact hs
      · rw [opensResponse, Bool.and_eq_true] at hopens
        exact absurd hopens.1 (not_wired_of_skipped hskip)
    | wired hwired hpush =>
      rw [hwire] at hwired
      obtain ⟨frames, t, hok, ht, htfinished, _, hopens⟩ :=
        pushResponses_tracks sj htracks hwired hroom hplaced
      exact ⟨frames, t, by rw [hpush]; simpa only [pushWire, hwire] using hok,
        running (htfinished.trans hfinished) ht, hopens⟩

theorem new_streaming (model : String) : Streaming [] (StreamEncoder.new .responses model) where
  running := fun _ =>
    { itemed :=
        { wire := rfl
          serial := Serial.head
          starts_lt := by simp [StreamEncoder.new]
          held_lt := fun e he => by cases he
          held_new := fun e he => by cases he }
      silent := fun _ => rfl }
  ended := fun hf => by cases hf

/-- The Responses grammar over whole runs. -/
theorem responses_stream_grammar (model : String) (evs : List IrStreamEvent)
    (hplain : ∀ ev ∈ evs, copiedVerbatim sj .responses ev = false)
    (hopens : evs.any opensResponse = true)
    (hsafe : StepsMeet (push sj) ResponsesSafe (StreamEncoder.new .responses model) evs) :
    ∃ frames, encodeStream sj .responses model evs = .ok frames ∧
      WellFormed (· ≠ ·) 1 (frames.map itemMark) := by
  obtain ⟨out, t, hrun, hstream, hstarted⟩ := runAll_invariant
    (fun before out t => Streaming (marks out) t ∧
      (before.any opensResponse = true → t.started = true))
    hsafe ⟨new_streaming model, fun h => by cases h⟩
    fun before ev after out t hevs hI hstep => by
      obtain ⟨hstream, hstarted⟩ := hI
      obtain ⟨more, u, hok, hu, hustarted⟩ :=
        push_streaming sj hstream (hplain ev (by simp [hevs])) hstep
      refine ⟨more, u, hok, by simpa using hu, fun hany => hustarted ?_⟩
      rw [List.any_append, Bool.or_eq_true, List.any_cons, List.any_nil, Bool.or_false] at hany
      exact hany.imp_left hstarted
  obtain ⟨hended, _, hfinished⟩ := finish_streaming sj hstream (hstarted hopens)
  refine ⟨out ++ (finish sj t).1, by simp only [encodeStream, hrun, Except.map], ?_⟩
  simpa [marks] using (hended.ended hfinished).2

end

/-- Reasoning, a call held behind another and text. -/
theorem responses_stream_grammar_mixed :
    ∃ frames, encodeStream flatJson .responses "m" [.reasoningDelta "r", .toolCallStart "a" "f" none 0,
        .toolCallArgDelta "[]" 0, .toolCallStart "b" "g" none 1, .toolCallArgDelta "[]" 1,
        .textDelta "t"] = .ok frames ∧ WellFormed (· ≠ ·) 1 (frames.map itemMark) :=
  responses_stream_grammar flatJson "m" _ (by decide) (by decide) (.of_allSteps (by decide))

/-- A signature is sent as a second `output_item.added` of the open item. -/
theorem responses_signature_adds_again :
    (∀ ev ∈ [IrStreamEvent.reasoningDelta "r", .reasoningSignature "s"],
        copiedVerbatim flatJson .responses ev = false) ∧
      ¬ ∃ frames, encodeStream flatJson .responses "m" [.reasoningDelta "r",
          .reasoningSignature "s"] = .ok frames ∧
        (frames.filter fun frame => frame.event = some "response.output_item.added" ∧
          outputIndex? frame = some 0).length = 1 := by
  refine ⟨by decide, ?_⟩
  rintro ⟨frames, hframes, hcount⟩
  obtain rfl := Except.ok.inj hframes
  exact absurd hcount (by decide)

end Wiremux.ResponsesGrammar
