import Wiremux.EmittingRuns
import Wiremux.StreamDecoding

set_option autoImplicit false

/-!
# Which decoded events end a stream

Of the events of a wire only the finish reason and `done` are ends. Most
functions of the decoders give none of them; what is left says which fields do.
-/
namespace Wiremux.TerminalEvents
open JsonValue StreamEvents Completion FrameDecoding StreamDecoding

def isEnd : IrStreamEvent → Bool
  | .finishReason .. => true
  | .done => true
  | _ => false

def NoEnd (events : List IrStreamEvent) : Prop := events.any isEnd = false

variable {α : Type} {xs ys : List IrStreamEvent}

@[simp] theorem noEnd_nil : NoEnd [] := rfl

theorem noEnd_append : NoEnd (xs ++ ys) ↔ NoEnd xs ∧ NoEnd ys := by
  simp only [NoEnd, List.any_append, Bool.or_eq_false_iff]

theorem noEnd_cons {ev : IrStreamEvent} : NoEnd (ev :: xs) ↔ isEnd ev = false ∧ NoEnd xs := by
  simp only [NoEnd, List.any_cons, Bool.or_eq_false_iff]

theorem noEnd_singleton {ev : IrStreamEvent} : NoEnd [ev] ↔ isEnd ev = false := by
  simp [noEnd_cons]

theorem noEnd_iff : NoEnd xs ↔ ∀ ev ∈ xs, isEnd ev = false := by
  simp [NoEnd]

theorem noEnd_toList {ev : Option IrStreamEvent} (h : ∀ e, ev = some e → isEnd e = false) :
    NoEnd ev.toList := by
  cases ev with
  | none => rfl
  | some e => exact noEnd_singleton.mpr (h e rfl)

theorem noEnd_map {l : List α} {f : α → IrStreamEvent} (h : ∀ a, isEnd (f a) = false) :
    NoEnd (l.map f) := by
  induction l with
  | nil => rfl
  | cons a l ih => exact noEnd_cons.mpr ⟨h a, ih⟩

theorem noEnd_toList_map {a : Option α} {f : α → IrStreamEvent} (h : ∀ a, isEnd (f a) = false) :
    NoEnd (a.map f).toList := by
  cases a with
  | none => rfl
  | some a => exact noEnd_singleton.mpr (h a)

theorem noEnd_getD_map {a : Option α} {f : α → List IrStreamEvent} (h : ∀ a, NoEnd (f a)) :
    NoEnd ((a.map f).getD []) := by
  cases a with
  | none => rfl
  | some a => exact h a

theorem noEnd_filterMap {l : List α} {f : α → Option IrStreamEvent}
    (h : ∀ a e, f a = some e → isEnd e = false) : NoEnd (l.filterMap f) := by
  induction l with
  | nil => rfl
  | cons a l ih =>
    rw [List.filterMap_cons]
    split
    · exact ih
    · rename_i e he
      exact noEnd_cons.mpr ⟨h a e he, ih⟩

theorem noEnd_flatMap {l : List α} {f : α → List IrStreamEvent} (h : ∀ a, NoEnd (f a)) :
    NoEnd (l.flatMap f) := by
  induction l with
  | nil => rfl
  | cons a l ih =>
    rw [List.flatMap_cons]
    exact noEnd_append.mpr ⟨h a, ih⟩

theorem noEnd_filter {keep : IrStreamEvent → Bool} (h : NoEnd xs) : NoEnd (xs.filter keep) :=
  noEnd_iff.mpr fun ev hev => noEnd_iff.mp h ev (List.mem_of_mem_filter hev)

theorem noEnd_ite {c : Prop} [Decidable c] (hx : NoEnd xs) (hy : NoEnd ys) :
    NoEnd (if c then xs else ys) := by
  split
  · exact hx
  · exact hy

theorem isEnd_of_map {a : Option α} {f : α → IrStreamEvent} {e : IrStreamEvent}
    (hf : ∀ a, isEnd (f a) = false) (h : a.map f = some e) : isEnd e = false := by
  obtain ⟨a, _, rfl⟩ := Option.map_eq_some_iff.mp h
  exact hf a

def EndsOnlyIf (p : Prop) (ev : Option IrStreamEvent) : Prop :=
  ∀ e, ev = some e → isEnd e = true → p

theorem EndsOnlyIf.of_quiet {p : Prop} {ev : Option IrStreamEvent}
    (h : ∀ e, ev = some e → isEnd e = false) : EndsOnlyIf p ev := by
  intro e he hend
  rw [h e he] at hend
  cases hend

theorem EndsOnlyIf.map {p : Prop} {a : Option α} {f : α → IrStreamEvent}
    (hf : ∀ a, isEnd (f a) = false) : EndsOnlyIf p (a.map f) :=
  .of_quiet fun _ => isEnd_of_map hf

theorem EndsOnlyIf.head? {p : Prop} (h : NoEnd xs) : EndsOnlyIf p xs.head? :=
  .of_quiet fun e he => noEnd_iff.mp h e (List.mem_of_head? he)

theorem EndsOnlyIf.orElse {p : Prop} {a : Option IrStreamEvent} {b : Unit → Option IrStreamEvent}
    (ha : EndsOnlyIf p a) (hb : EndsOnlyIf p (b ())) : EndsOnlyIf p (a.orElse b) := by
  cases a with
  | none => exact hb
  | some e => exact ha

section
open ChatDecoding
variable (sj : SerdeJson)

theorem noEnd_textEvent (text : String) : NoEnd (textEvent text) := by
  rw [textEvent]
  exact noEnd_ite rfl rfl

theorem isEnd_imageOfDataUrl {url : String} {e : IrStreamEvent} (h : imageOfDataUrl url = some e) :
    isEnd e = false := by
  unfold imageOfDataUrl at h
  split at h
  · obtain ⟨⟨mediaType, data⟩, _, hout⟩ := Option.bind_eq_some_iff.mp h
    simp only at hout
    split at hout
    · cases hout
    · cases hout
      rfl
  · cases h

theorem isEnd_imagePart (part : Value) :
    isEnd ((imageEventFromPart part).getD (protocol "image_url" part)) = false := by
  cases himage : imageEventFromPart part with
  | none => rfl
  | some e =>
    unfold imageEventFromPart at himage
    split at himage
    · obtain ⟨url, _, hurl⟩ := Option.bind_eq_some_iff.mp himage
      exact isEnd_imageOfDataUrl hurl
    · cases himage

theorem noEnd_partEvents (text : String) (parts : List Value) : NoEnd (partEvents text parts) := by
  induction parts generalizing text with
  | nil => exact noEnd_textEvent text
  | cons part rest ih =>
    rw [partEvents]
    split
    · exact ih _
    · split
      · exact noEnd_append.mpr ⟨noEnd_textEvent text, noEnd_cons.mpr ⟨isEnd_imagePart part, ih ""⟩⟩
      · exact ih _

theorem noEnd_contentEvents (content : Value) : NoEnd (contentEvents content) := by
  unfold contentEvents
  split
  · exact noEnd_textEvent _
  · exact noEnd_partEvents "" _
  · rfl

theorem noEnd_audioEvents (audio : Value) : NoEnd (audioEvents audio) := by
  simp only [audioEvents, audioIdentityEvents, noEnd_append]
  exact ⟨⟨noEnd_toList_map fun _ => rfl, noEnd_toList_map fun _ => rfl⟩,
    noEnd_toList_map fun _ => rfl, noEnd_toList_map fun _ => rfl⟩

theorem isEnd_chatLogprobs {choice : Value} {e : IrStreamEvent}
    (h : chatLogprobsEvent choice = some e) : isEnd e = false := by
  obtain ⟨logprobs, _, hout⟩ := Option.bind_eq_some_iff.mp h
  simp only at hout
  split at hout
  · cases hout
  · cases hout
    rfl

theorem isEnd_moderation {value : Value} {e : IrStreamEvent} (h : moderationEvent value = some e) :
    isEnd e = false := by
  obtain ⟨moderation, _, hout⟩ := Option.bind_eq_some_iff.mp h
  simp only at hout
  split at hout
  · cases hout
  · cases hout
    rfl

theorem isEnd_metadata {value : Option Value} {e : IrStreamEvent} (h : metadataEvent value = some e) :
    isEnd e = false := by
  obtain ⟨v, _, hout⟩ := Option.bind_eq_some_iff.mp h
  simp only at hout
  split at hout
  · cases hout
  · cases hout
    rfl

theorem noEnd_usageEvents (value : Value) : NoEnd (usageEvents value) := by
  unfold usageEvents
  split
  · rfl
  · refine noEnd_cons.mpr ⟨rfl, noEnd_filterMap ?_⟩
    rintro ⟨key, itemType⟩ e he
    exact isEnd_of_map (fun _ => rfl) he

theorem noEnd_slotEvents (value : Value) : NoEnd (slotEvents value) := by
  simp only [slotEvents, noEnd_append]
  exact ⟨⟨⟨⟨⟨noEnd_toList_map fun _ => rfl, noEnd_toList_map fun _ => rfl⟩,
    noEnd_toList_map fun _ => rfl⟩, noEnd_toList_map fun _ => rfl⟩,
    noEnd_toList fun _ => isEnd_metadata⟩, noEnd_toList fun _ => isEnd_moderation⟩

theorem noEnd_deltaEvents (choice : Value) : NoEnd (deltaEvents choice) := by
  simp only [deltaEvents, annotationEvents, noEnd_append]
  exact ⟨⟨⟨⟨⟨⟨noEnd_toList_map fun _ => rfl, noEnd_toList_map fun _ => rfl⟩,
    noEnd_getD_map noEnd_contentEvents⟩, noEnd_map fun _ => rfl⟩, noEnd_toList_map fun _ => rfl⟩,
    noEnd_getD_map noEnd_audioEvents⟩, noEnd_toList fun _ => isEnd_chatLogprobs⟩

theorem noEnd_orChunk {chunk : Value} (h : NoEnd xs) : NoEnd (orChunk chunk xs) := noEnd_ite rfl h

variable {sj}

theorem noEnd_expandToolCall {call chunk : Value} (h : expandToolCall sj call chunk = .ok xs) :
    NoEnd xs := by
  unfold expandToolCall at h
  split at h
  · unfold expandCustomToolCall at h
    obtain ⟨input, _, rfl⟩ := EmittingRuns.map_eq_ok h
    exact noEnd_orChunk (noEnd_append.mpr ⟨noEnd_ite rfl rfl, noEnd_toList_map fun _ => rfl⟩)
  · split at h
    · cases h
      rfl
    · obtain ⟨args, _, rfl⟩ := EmittingRuns.map_eq_ok h
      exact noEnd_orChunk (noEnd_append.mpr ⟨noEnd_ite rfl rfl, noEnd_toList_map fun _ => rfl⟩)

theorem noEnd_expandCalls {chunk : Value} {calls : List Value}
    (h : expandCalls sj chunk calls = .ok xs) : NoEnd xs := by
  induction calls generalizing xs with
  | nil =>
    cases h
    rfl
  | cons call rest ih =>
    unfold expandCalls at h
    split at h
    · cases h
    · split at h
      · cases h
      · rename_i events hevents
        obtain ⟨more, hmore, rfl⟩ := EmittingRuns.map_eq_ok h
        exact noEnd_append.mpr ⟨noEnd_expandToolCall hevents, ih hmore⟩

theorem noEnd_callEvents {choice value : Value} (h : callEvents sj choice value = .ok xs) :
    NoEnd xs := by
  unfold callEvents at h
  split at h
  · exact noEnd_expandCalls h
  · split at h
    · exact noEnd_expandToolCall h
    · cases h
      rfl

def firstFinishes (value : Value) : Bool :=
  (firstChoice value).any fun choice => nonemptyStr choice "finish_reason"

theorem any_finishEvent (choice : Value) :
    (finishEvent choice).toList.any isEnd = nonemptyStr choice "finish_reason" := by
  unfold finishEvent nonemptyStr Value.strAt? nonempty isText
  cases choice.get? "finish_reason" with
  | none => rfl
  | some v =>
    cases htext : v.asStr? with
    | none => simp [htext]
    | some text => by_cases hempty : text = "" <;> simp [htext, hempty, isEnd, Option.filter]

theorem decodeAll_ends {value : Value} (h : decodeAll sj value = .ok xs) :
    xs.any isEnd = firstFinishes value := by
  unfold decodeAll at h
  split at h
  · cases h
  · cases hfirst : firstChoice value with
    | none =>
      rw [hfirst] at h
      cases h
      rw [firstFinishes, hfirst]
      refine noEnd_ite (noEnd_append.mpr ⟨noEnd_toList_map fun _ => rfl, noEnd_usageEvents value⟩) ?_
      exact noEnd_toList fun _ => isEnd_moderation
    | some choice =>
      rw [hfirst] at h
      obtain ⟨calls, hcalls, rfl⟩ := EmittingRuns.map_eq_ok h
      have hslots : (slotEvents value).any isEnd = false := noEnd_slotEvents value
      have hcall : calls.any isEnd = false := noEnd_callEvents hcalls
      have hdelta : (deltaEvents choice).any isEnd = false := noEnd_deltaEvents choice
      have husage : (usageEvents value).any isEnd = false := noEnd_usageEvents value
      rw [firstFinishes, hfirst, Option.any_some]
      simp only [List.any_append, hslots, hcall, hdelta, husage, any_finishEvent, Bool.false_or,
        Bool.or_false]

/-! The single event. -/

theorem endsOnlyIf_firstDelta {p : Prop} (choice : Value) : EndsOnlyIf p (firstDelta choice) := by
  refine .orElse (.map fun _ => rfl) (.orElse (.map fun _ => rfl) (.orElse ?_ ?_))
  · exact .of_quiet fun _ => isEnd_chatLogprobs
  · exact .orElse (.map fun _ => rfl) (.map fun _ => rfl)

theorem noEnd_deltaMedia (choice : Value) : NoEnd (deltaMedia choice) := by
  simp only [deltaMedia, noEnd_append]
  exact ⟨noEnd_getD_map noEnd_contentEvents, noEnd_getD_map noEnd_audioEvents⟩

theorem endsOnlyIf_finishEvent (choice : Value) :
    EndsOnlyIf (nonemptyStr choice "finish_reason" = true) (finishEvent choice) := by
  intro e he hend
  rw [← any_finishEvent, he]
  simpa using hend

variable {choice value : Value} {out : Option IrStreamEvent}

theorem endsOnlyIf_decodeRest (h : decodeRest choice value = .ok out) :
    EndsOnlyIf (nonemptyStr choice "finish_reason" = true) out := by
  unfold decodeRest at h
  simp only at h
  split at h
  · cases h
  · cases h
    refine .orElse (.head? (noEnd_deltaMedia choice)) (.orElse (endsOnlyIf_finishEvent choice) ?_)
    exact .map fun _ => rfl

theorem endsOnlyIf_decodeBody (h : decodeBody choice value = .ok out) :
    EndsOnlyIf (nonemptyStr choice "finish_reason" = true) out := by
  unfold decodeBody at h
  split at h
  · rename_i ev hev
    cases h
    exact hev ▸ endsOnlyIf_firstDelta choice
  · exact endsOnlyIf_decodeRest h

theorem isEnd_decodeToolCall (call chunk : Value) : isEnd (decodeToolCall sj call chunk) = false := by
  unfold decodeToolCall
  split
  · rfl
  · simp only
    split
    · rfl
    · split <;> rfl

theorem endsOnlyIf_decodeFunctionCall (h : decodeFunctionCall sj choice value = .ok out) :
    EndsOnlyIf (nonemptyStr choice "finish_reason" = true) out := by
  unfold decodeFunctionCall at h
  split at h
  · exact endsOnlyIf_decodeBody h
  · split at h
    · cases h
    · split at h
      · cases h
      · cases h
        exact .of_quiet fun e he => Option.some.inj he ▸ isEnd_decodeToolCall _ _

theorem endsOnlyIf_decodeChoice (h : decodeChoice sj choice value = .ok out) :
    EndsOnlyIf (nonemptyStr choice "finish_reason" = true) out := by
  unfold decodeChoice at h
  split at h
  · exact endsOnlyIf_decodeFunctionCall h
  · split at h
    · cases h
    · split at h
      · cases h
      · split at h
        · cases h
          exact .of_quiet fun e he => Option.some.inj he ▸ isEnd_decodeToolCall _ _
        · exact endsOnlyIf_decodeFunctionCall h

/-- The single event of a chunk ends the stream only where its first choice does. -/
theorem endsOnlyIf_chat (h : ChatDecoding.decode sj value = .ok out) :
    EndsOnlyIf (firstFinishes value = true) out := by
  unfold ChatDecoding.decode at h
  split at h
  · cases h
  · split at h
    · rename_i choice hfirst
      rw [firstFinishes, hfirst]
      exact endsOnlyIf_decodeChoice h
    · cases h
      exact .orElse (.map fun _ => rfl) (.orElse (.of_quiet fun _ => isEnd_moderation)
        (.map fun _ => rfl))

end

end Wiremux.TerminalEvents
