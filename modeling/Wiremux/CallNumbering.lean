import Wiremux.FrameEnds
import Wiremux.GeminiCallIds

set_option autoImplicit false

/-!
# The numbers of Gemini calls

A decoder counts the calls of its stream. The calls of a frame are the visible
calls of its parts; the events about calls that come out are those of the calls,
numbered from the count of the decoder.
-/
namespace Wiremux.CallNumbering
open JsonValue StreamEvents Completion SseReader Upstream FrameDecoding StreamDecoding GeminiDecoding

variable (sj : SerdeJson)

/-- The events of a frame and the count as the frame leaves it, also when it fails. A chunk
without events puts the count back. -/
def decodeInPlace (wire : Wire) (raw : SseFrame) (dialect : Dialect) (callSeq : ℕ) :
    Except MapError (List IrStreamEvent) × ℕ :=
  let first := decodeStreamEvent sj wire raw dialect
  match earlyEvents sj wire first raw with
  | .error e => (.error e, callSeq)
  | .ok (some events) => (.ok events, callSeq)
  | .ok none =>
    match first with
    | .error e => (.error e, callSeq)
    | .ok first =>
      match fanOutEvents sj wire raw callSeq with
      | some (events, next) => (.ok events, next)
      | none => (eventsOfFirst sj wire raw first, callSeq)

theorem decode_eq_inPlace (d : StreamDecoder) (wire : Wire) (raw : SseFrame) (dialect : Dialect) :
    d.decode sj wire raw dialect =
      ((decodeInPlace sj wire raw dialect d.geminiCallSeq).1,
        ⟨(decodeInPlace sj wire raw dialect d.geminiCallSeq).2⟩) := by
  unfold StreamDecoder.decode decodeStreamEventsSeq decodeInPlace
  simp only
  cases earlyEvents sj wire (decodeStreamEvent sj wire raw dialect) raw with
  | error e => rfl
  | ok early =>
    cases early with
    | some events => rfl
    | none =>
      cases decodeStreamEvent sj wire raw dialect with
      | error e => rfl
      | ok first =>
        cases fanOutEvents sj wire raw d.geminiCallSeq with
        | some out => rfl
        | none =>
          simp only
          cases eventsOfFirst sj wire raw first <;> rfl

def partCall (part : Value) : Option (Value × Value) := (visibleCall part).map fun fc => (part, fc)

def frameCalls (raw : SseFrame) : List (Value × Value) :=
  ((sj.fromStr raw.data).map fun value =>
    (items (candidateAt value ["content", "parts"])).filterMap partCall).getD []

def numbered : List (Value × Value) → ℕ → List IrStreamEvent
  | [], _ => []
  | call :: rest, seq => callEvents sj call.1 call.2 seq ++ numbered rest (seq + 1)

def isCallEvent : IrStreamEvent → Bool
  | .toolCallStart .. => true
  | .toolCallArgDelta .. => true
  | .toolCallEnd => true
  | .customToolCallStart .. => true
  | .customToolCallInputDelta .. => true
  | _ => false

def NoCall (events : List IrStreamEvent) : Prop := ∀ e ∈ events, isCallEvent e = false

variable {sj} {xs ys : List IrStreamEvent} {part value : Value} {seq next : ℕ}

theorem filter_noCall (h : NoCall xs) : xs.filter isCallEvent = [] :=
  List.filter_eq_nil_iff.mpr fun e he => by simp [h e he]

theorem noCall_append : NoCall (xs ++ ys) ↔ NoCall xs ∧ NoCall ys := List.forall_mem_append

theorem noCall_toList {ev : Option IrStreamEvent} (h : ∀ e, ev = some e → isCallEvent e = false) :
    NoCall ev.toList := fun e he => h e (Option.mem_toList.mp he)

theorem noCall_map {α : Type} {f : α → IrStreamEvent} (hf : ∀ a, isCallEvent (f a) = false)
    (list : List α) : NoCall (list.map f) := by
  intro e he
  obtain ⟨a, _, rfl⟩ := List.mem_map.mp he
  exact hf a

theorem noCall_toList_map {α : Type} {f : α → IrStreamEvent} (hf : ∀ a, isCallEvent (f a) = false)
    (a : Option α) : NoCall (a.map f).toList := by
  apply noCall_toList
  intro e he
  obtain ⟨b, _, rfl⟩ := Option.map_eq_some_iff.mp he
  exact hf b

theorem noCall_inlineData (part : Value) : NoCall (inlineDataEvent part).toList := by
  apply noCall_toList
  intro e he
  rcases WireEnds.inlineData_cases he with ⟨data, rfl⟩ | ⟨mime, data, rfl⟩ <;> rfl

theorem noCall_said (part : Value) :
    NoCall ((thoughtEvent part).toList ++ (signatureEvent part).toList) := by
  rw [noCall_append]
  constructor
  · unfold thoughtEvent
    split
    · exact noCall_toList_map (fun _ => rfl) _
    · nofun
  · unfold signatureEvent
    split
    · exact noCall_toList_map (fun _ => rfl) _
    · nofun

theorem noCall_plainPart (part : Value) : NoCall (plainPartEvent part).toList := by
  unfold plainPartEvent
  split
  · intro e he
    rw [List.mem_singleton.mp he]
    rfl
  · cases hinline : inlineDataEvent part with
    | some e =>
      have hquiet := noCall_inlineData part
      rwa [hinline] at hquiet
    | none =>
      rw [Option.orElse_none]
      split
      · nofun
      · exact noCall_toList_map (fun _ => rfl) _

theorem callEvents_filter (part fc : Value) (seq : ℕ) :
    (callEvents sj part fc seq).filter isCallEvent = callEvents sj part fc seq := by
  apply List.filter_eq_self.mpr
  intro e he
  rcases List.mem_cons.mp he with rfl | hdelta
  · rfl
  · obtain ⟨args, _, rfl⟩ := Option.map_eq_some_iff.mp (Option.mem_toList.mp hdelta)
    rfl

variable (sj) in
theorem part_numbered (part : Value) (seq : ℕ) :
    (geminiPartEvents sj part seq).1.filter isCallEvent = numbered sj (partCall part).toList seq ∧
      (geminiPartEvents sj part seq).2 = seq + (partCall part).toList.length := by
  unfold geminiPartEvents partCall
  cases visibleCall part with
  | some fc =>
    constructor
    · simp only [List.filter_append _ (callEvents sj part fc seq), filter_noCall (noCall_said part)]
      simp [callEvents_filter, numbered]
    · rfl
  | none =>
    constructor
    · simp only [List.filter_append _ (plainPartEvent part).toList, filter_noCall (noCall_said part),
        filter_noCall (noCall_plainPart part)]
      rfl
    · rfl

theorem numbered_append (calls more : List (Value × Value)) (seq : ℕ) :
    numbered sj (calls ++ more) seq = numbered sj calls seq ++ numbered sj more (seq + calls.length) := by
  induction calls generalizing seq with
  | nil => rfl
  | cons call rest ih =>
    rw [List.cons_append, numbered, numbered, ih, List.append_assoc, List.length_cons]
    congr 3
    omega

variable (sj) in
theorem parts_numbered (parts : List Value) (seq : ℕ) :
    (partsEvents sj parts seq).1.filter isCallEvent =
        numbered sj (parts.filterMap partCall) seq ∧
      (partsEvents sj parts seq).2 = seq + (parts.filterMap partCall).length := by
  induction parts generalizing seq with
  | nil => exact ⟨rfl, rfl⟩
  | cons part rest ih =>
    obtain ⟨hevents, hnext⟩ := part_numbered sj part seq
    obtain ⟨hrest, hlast⟩ := ih (geminiPartEvents sj part seq).2
    have hcalls : (part :: rest).filterMap partCall =
        (partCall part).toList ++ rest.filterMap partCall := by
      cases hcall : partCall part with
      | none => exact List.filterMap_cons_none hcall
      | some call => exact List.filterMap_cons_some hcall
    constructor
    · simp only [partsEvents]
      rw [List.filter_append, hevents, hrest, hcalls, numbered_append, hnext]
    · simp only [partsEvents]
      rw [hlast, hnext, hcalls, List.length_append]
      omega

theorem noCall_usageFromChunk (value : Value) : NoCall (usageFromChunk value).toList := by
  unfold usageFromChunk
  split
  · intro e he
    rw [List.mem_singleton.mp he]
    rfl
  · exact noCall_toList_map (fun _ => rfl) _

theorem noCall_countEvent (kind : String) (count : Option ℕ) :
    NoCall (MessagesDecoding.countEvent kind count).toList := noCall_toList_map (fun _ => rfl) _

theorem noCall_bind {α : Type} {f : α → Option IrStreamEvent} (hf : ∀ a, NoCall (f a).toList)
    (a : Option α) : NoCall (a.bind f).toList := by
  cases a with
  | none => nofun
  | some b => exact hf b

theorem noCall_modality (value : Value) (key name : String) :
    NoCall (modalityDetailEvents value key name) := by
  unfold modalityDetailEvents
  simp only
  split
  · nofun
  · intro e he
    rw [List.mem_singleton.mp he]
    rfl

theorem noCall_usageEvents (value : Value) : NoCall (GeminiDecoding.usageEvents value) := by
  simp only [GeminiDecoding.usageEvents, noCall_append]
  refine ⟨⟨⟨⟨⟨?_, noCall_toList_map (fun _ => rfl) _⟩, ?_⟩, noCall_modality value _ _⟩,
    noCall_modality value _ _⟩, noCall_usageFromChunk value⟩
  · exact noCall_bind (fun _ => noCall_toList_map (fun _ => rfl) _) _
  · exact noCall_bind (fun _ => noCall_countEvent _ _) _

theorem noCall_side (value : Value) : NoCall (sideEvents value) := by
  have hone {α : Type} (a : Option α) (f : α → IrStreamEvent) (hf : ∀ a, isCallEvent (f a) = false) :
      NoCall (a.map f).toList := noCall_toList_map hf a
  simp only [sideEvents, noCall_append]
  refine ⟨⟨⟨⟨⟨⟨⟨⟨?_, ?_⟩, noCall_map (fun _ => rfl) _⟩, ?_⟩, ?_⟩, ?_⟩, ?_⟩, ?_⟩, ?_⟩
  all_goals exact hone _ _ fun _ => rfl

theorem noCall_block (value : Value) : NoCall (blockEvents value) := by
  unfold blockEvents
  split
  · nofun
  · exact noCall_toList_map (fun _ => rfl) _

theorem fanOut_numbered (h : fanOut sj value seq = some (xs, next)) :
    xs.filter isCallEvent =
        numbered sj ((items (candidateAt value ["content", "parts"])).filterMap partCall) seq ∧
      next = seq + ((items (candidateAt value ["content", "parts"])).filterMap partCall).length := by
  obtain ⟨hevents, hnext⟩ :=
    parts_numbered sj (items (candidateAt value ["content", "parts"])) seq
  have hid : NoCall (responseIdEvent value).toList := noCall_toList_map (fun _ => rfl) _
  have hnotes (notes : List Value) : NoCall (notes.map .annotationAdded) := noCall_map (fun _ => rfl) _
  have havg : NoCall (avgLogprobsEvent value).toList := noCall_toList_map (fun _ => rfl) _
  have htokens : NoCall (candidateTokensEvent value).toList :=
    noCall_bind (fun _ => noCall_countEvent _ _) _
  have hfinish : NoCall (GeminiDecoding.finishEvents value) := noCall_toList_map (fun _ => rfl) _
  unfold fanOut at h
  simp only at h
  split at h
  · cases h
  · cases h
    refine ⟨?_, hnext⟩
    simp only [List.filter_append, filter_noCall hid, filter_noCall (hnotes _), filter_noCall havg,
      filter_noCall htokens, filter_noCall hfinish, filter_noCall (noCall_side value),
      filter_noCall (noCall_block value), filter_noCall (noCall_usageEvents value), hevents,
      List.nil_append, List.append_nil]

variable (sj) in
theorem part_silent (h : (geminiPartEvents sj part seq).1 = []) : visibleCall part = none := by
  unfold geminiPartEvents at h
  cases hcall : visibleCall part with
  | none => rfl
  | some fc =>
    rw [hcall] at h
    simp [callEvents] at h

variable (sj) in
theorem parts_silent {parts : List Value} (h : (partsEvents sj parts seq).1 = []) :
    ∀ part ∈ parts, visibleCall part = none := by
  induction parts generalizing seq with
  | nil => nofun
  | cons part rest ih =>
    obtain ⟨hfirst, hrest⟩ := List.append_eq_nil_iff.mp h
    intro other hother
    rcases List.mem_cons.mp hother with rfl | hmem
    · exact part_silent sj hfirst
    · exact ih hrest other hmem

theorem fanOut_silent (h : fanOut sj value seq = none) :
    ∀ part ∈ items (candidateAt value ["content", "parts"]), visibleCall part = none := by
  unfold fanOut at h
  simp only at h
  split at h
  · rename_i hempty
    rw [List.isEmpty_iff] at hempty
    simp only [List.append_eq_nil_iff] at hempty
    exact parts_silent sj hempty.1.1.1.1.1.1.1.1.2
  · cases h

end Wiremux.CallNumbering
