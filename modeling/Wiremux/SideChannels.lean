import Wiremux.CallEvents
import Wiremux.StreamEncoderPush

set_option autoImplicit false

/-!
# What a side-channel event does

All but four kinds only record a field. The four that send something do so on
one wire each: a Messages citation, Responses reasoning fields, a Gemini code
part and Converse redacted reasoning.
-/
namespace Wiremux.SideChannels
open JsonValue StreamEvents StreamEventFrames EncoderState StreamEncoderPush
open MessagesEncoder ResponsesEncoder GeminiEncoder CallEvents

/-- Only recorded fields differ; whether a custom call was seen does not. -/
def SideOnly (s t : StreamEncoder) : Prop :=
  ∃ c m r g p, t = { s with
      chat := c
      messages := m
      responses := r
      gemini := g
      conversePassthrough := p } ∧ c.sawCustomTool = s.chat.sawCustomTool

theorem SideOnly.refl (s : StreamEncoder) : SideOnly s s :=
  ⟨s.chat, s.messages, s.responses, s.gemini, s.conversePassthrough, rfl, rfl⟩

theorem SideOnly.started {s t : StreamEncoder} (h : SideOnly s t) : t.started = s.started := by
  obtain ⟨c, m, r, g, p, rfl, _⟩ := h
  rfl

theorem SideOnly.finished {s t : StreamEncoder} (h : SideOnly s t) : t.finished = s.finished := by
  obtain ⟨c, m, r, g, p, rfl, _⟩ := h
  rfl

def isReasoningField (itemType : String) : Prop :=
  itemType = "responses_reasoning_id" ∨ itemType = "responses_reasoning_status" ∨
    itemType = "responses_reasoning_content"

instance (itemType : String) : Decidable (isReasoningField itemType) :=
  inferInstanceAs (Decidable (_ ∨ _ ∨ _))

def isReasoningPayload (itemType : String) (payload : Value) : Bool :=
  if itemType = "responses_reasoning_content" then (nonEmptyArrayPayload payload).isSome
  else (nonEmptyStr? payload).isSome

def knowsReasoning (r : ResponsesSide) : Bool :=
  r.reasoningId.isSome || r.reasoningStatus.isSome || r.reasoningContent.isSome

inductive SideEffect (sj : SerdeJson) (s : StreamEncoder) (itemType : String) (payload : Value) :
    List RawSse × StreamEncoder → Prop
  | quiet {t : StreamEncoder} : SideOnly s t → SideEffect sj s itemType payload ([], t)
  | citation : s.wire = .messages → payload.isObject = true → itemType = "messages_citation" →
      SideEffect sj s itemType payload (blockDelta sj .text (citationsDeltaBody payload) s)
  | reasoning {t : StreamEncoder} : s.wire = .responses → isReasoningField itemType →
      (knowsReasoning s.responses || isReasoningPayload itemType payload) = true → SideOnly s t →
      SideEffect sj s itemType payload (ensureItem .thinking t)
  | codePart : s.wire = .gemini → itemType = "gemini_code_part" →
      SideEffect sj s itemType payload ([attachDestModel s (unnamed (geminiPart payload))], s)
  | redacted (blob : String) : s.wire = .converse → itemType = "converse_redacted_content" →
      SideEffect sj s itemType payload ([unnamed (.object [("contentBlockDelta",
        .object [("contentBlockIndex", 0), ("delta", .object [("reasoningContent",
          .object [("redactedContent", .string blob)])])])])], s)

section
variable (sj : SerdeJson) (s : StreamEncoder) (itemType : String) (payload : Value)

theorem note_quiet {α : Type} (wire : Wire) (read : Option α)
    (set : α → StreamEncoder → StreamEncoder) (hset : ∀ x, SideOnly s (set x s)) :
    SideEffect sj s itemType payload (note wire read set s) := by
  unfold note
  cases read with
  | none => exact .quiet (.refl s)
  | some x =>
    simp only
    split
    · exact .quiet (hset x)
    · exact .quiet (.refl s)

theorem noteChat_quiet {α : Type} (read : Option α) (set : α → ChatSide → ChatSide)
    (hset : ∀ x c, (set x c).sawCustomTool = c.sawCustomTool) :
    SideEffect sj s itemType payload (noteChat read set s) :=
  note_quiet sj s itemType payload _ _ _ fun x =>
    ⟨set x s.chat, s.messages, s.responses, s.gemini, s.conversePassthrough, rfl, hset x s.chat⟩

theorem noteMessages_quiet {α : Type} (read : Option α)
    (set : α → MessagesSide → MessagesSide) :
    SideEffect sj s itemType payload (noteMessages read set s) :=
  note_quiet sj s itemType payload _ _ _ fun x =>
    ⟨s.chat, set x s.messages, s.responses, s.gemini, s.conversePassthrough, rfl, rfl⟩

theorem noteResponses_sideOnly {α : Type} (read : Option α)
    (set : α → ResponsesSide → ResponsesSide) :
    (noteResponses read set s).1 = [] ∧ SideOnly s (noteResponses read set s).2 := by
  unfold noteResponses note
  cases read with
  | none => exact ⟨rfl, .refl s⟩
  | some x =>
    simp only
    split
    · exact ⟨rfl, s.chat, s.messages, set x s.responses, s.gemini, s.conversePassthrough, rfl, rfl⟩
    · exact ⟨rfl, .refl s⟩

theorem noteResponses_quiet {α : Type} (read : Option α)
    (set : α → ResponsesSide → ResponsesSide) :
    SideEffect sj s itemType payload (noteResponses read set s) := by
  obtain ⟨hout, hside⟩ := noteResponses_sideOnly s read set
  have := @SideEffect.quiet sj _ itemType payload _ hside
  rwa [← hout] at this

theorem noteGemini_quiet {α : Type} (read : Option α) (set : α → GeminiSide → GeminiSide) :
    SideEffect sj s itemType payload (noteGemini read set s) :=
  note_quiet sj s itemType payload _ _ _ fun x =>
    ⟨s.chat, s.messages, s.responses, set x s.gemini, s.conversePassthrough, rfl, rfl⟩

theorem messagesCitation_effect (h : itemType = "messages_citation") :
    SideEffect sj s itemType payload (messagesCitation sj payload s) := by
  unfold messagesCitation
  split
  · exact .quiet (.refl s)
  · rename_i hno
    obtain ⟨hwire, hobj⟩ := not_or.mp hno
    exact .citation (Decidable.not_not.mp hwire) (by simpa using hobj) h

theorem responsesReasoning_effect {α : Type} (h : isReasoningField itemType) (read : Option α)
    (hread : isReasoningPayload itemType payload = read.isSome)
    (set : α → ResponsesSide → ResponsesSide) :
    SideEffect sj s itemType payload (responsesReasoning read set s) := by
  unfold responsesReasoning
  obtain ⟨_, hside⟩ := noteResponses_sideOnly s read set
  split
  · exact .quiet (.refl s)
  · rename_i hwire
    simp only
    split
    · rename_i hknows
      refine .reasoning (Decidable.not_not.mp hwire) h ?_ hside
      rw [hread]
      cases read with
      | none => simpa [knowsReasoning, noteResponses, note] using hknows
      | some x => simp
    · exact .quiet hside

theorem geminiCodePart_effect (h : itemType = "gemini_code_part") :
    SideEffect sj s itemType payload (geminiCodePart payload s) := by
  unfold geminiCodePart
  split
  · rename_i hyes
    exact .codePart hyes.1 h
  · exact .quiet (.refl s)

theorem converseRedacted_effect (h : itemType = "converse_redacted_content") :
    SideEffect sj s itemType payload (converseRedactedContent payload s) := by
  unfold converseRedactedContent
  split
  · rename_i blob _
    split
    · rename_i hwire
      exact .redacted blob hwire h
    · exact .quiet (.refl s)
  · exact .quiet (.refl s)

variable {sj s itemType payload} {act : StreamEncoder → List RawSse × StreamEncoder}

theorem chatProtocol_effect (h : chatProtocol s.wire itemType payload = some act) :
    SideEffect sj s itemType payload (act s) := by
  unfold chatProtocol at h
  split at h
  · split at h
    · cases h
      exact noteChat_quiet _ _ _ _ _ _ fun _ _ => rfl
    · cases h
  · cases h
    exact noteChat_quiet _ _ _ _ _ _ fun _ _ => rfl
  · cases h
    exact noteChat_quiet _ _ _ _ _ _ fun _ _ => rfl
  · cases h

theorem messagesProtocol_effect (h : messagesProtocol sj itemType payload = some act) :
    SideEffect sj s itemType payload (act s) := by
  unfold messagesProtocol at h
  split at h
  case h_5 =>
    cases h
    exact messagesCitation_effect _ _ _ _ rfl
  case h_6 => cases h
  all_goals
    cases h
    exact noteMessages_quiet _ _ _ _ _ _

theorem responsesProtocol_effect (h : responsesProtocol itemType payload = some act) :
    SideEffect sj s itemType payload (act s) := by
  unfold responsesProtocol at h
  split at h
  case h_7 =>
    cases h
    exact responsesReasoning_effect _ _ _ _ (Or.inl rfl) _ rfl _
  case h_8 =>
    cases h
    exact responsesReasoning_effect _ _ _ _ (Or.inr (Or.inl rfl)) _ rfl _
  case h_9 =>
    cases h
    exact responsesReasoning_effect _ _ _ _ (Or.inr (Or.inr rfl)) _ rfl _
  case h_10 => cases h
  all_goals
    cases h
    exact noteResponses_quiet _ _ _ _ _ _

theorem noteToolExtra_sideOnly (index : ℕ) (extra : ResponsesToolExtra) (s : StreamEncoder) :
    SideOnly s (noteToolExtra index extra s) := by
  unfold noteToolExtra
  split
  · exact ⟨s.chat, s.messages, _, s.gemini, s.conversePassthrough, rfl, rfl⟩
  · exact ⟨s.chat, s.messages, _, s.gemini, s.conversePassthrough, rfl, rfl⟩

theorem toolExtraProtocol_effect (h : toolExtraProtocol itemType payload = some act) :
    SideEffect sj s itemType payload (act s) := by
  obtain ⟨extra, _, rfl⟩ := Option.map_eq_some_iff.mp h
  exact note_quiet _ _ _ _ _ _ _ fun e => noteToolExtra_sideOnly e.1 e.2 s

theorem geminiProtocol_effect (h : geminiProtocol itemType payload = some act) :
    SideEffect sj s itemType payload (act s) := by
  unfold geminiProtocol at h
  split at h
  case h_4 =>
    cases h
    exact geminiCodePart_effect _ _ _ _ rfl
  case h_14 => cases h
  all_goals
    cases h
    exact noteGemini_quiet _ _ _ _ _ _

theorem converseProtocol_effect (h : converseProtocol s.wire itemType payload = some act) :
    SideEffect sj s itemType payload (act s) := by
  unfold converseProtocol at h
  split at h
  · cases h
    exact .quiet ⟨s.chat, s.messages, s.responses, s.gemini, _, rfl, rfl⟩
  · split at h
    · cases h
      exact .quiet (.refl s)
    · split at h
      · rename_i htype
        cases h
        exact converseRedacted_effect _ _ _ _ htype
      · split at h
        · cases h
          exact .quiet (.refl s)
        · cases h

theorem sideChannel_effect (h : sideChannel sj s.wire itemType payload = some act) :
    SideEffect sj s itemType payload (act s) := by
  unfold sideChannel at h
  simp only [Option.orElse_eq_orElse, Option.orElse_eq_or, Option.or_eq_some_iff] at h
  rcases h with h | ⟨_, h | ⟨_, h | ⟨_, h | ⟨_, h | ⟨_, h⟩⟩⟩⟩⟩
  · exact chatProtocol_effect h
  · exact messagesProtocol_effect h
  · exact responsesProtocol_effect h
  · exact toolExtraProtocol_effect h
  · exact geminiProtocol_effect h
  · exact converseProtocol_effect h

def isWired (wire : Wire) : IrStreamEvent → Bool
  | .protocol _ _ => false
  | .unknown _ _ => false
  | .done => false
  | ev => !skippedOn wire ev

variable {ev : IrStreamEvent}

/-- The ways of `push` before the end of the stream, verbatim copies apart. -/
inductive PushCase (sj : SerdeJson) (s : StreamEncoder) (ev : IrStreamEvent) : Prop
  | side {itemType : String} {payload : Value} {r : List RawSse × StreamEncoder} :
      ev = .protocol itemType payload → push sj s ev = .ok r →
      SideEffect sj s itemType payload r → PushCase sj s ev
  | done : ev = .done → push sj s ev = .ok (finish sj s) → PushCase sj s ev
  | skipped : skippedOn s.wire ev = true → push sj s ev = .ok ([], s) → PushCase sj s ev
  | wired : isWired s.wire ev = true → push sj s ev = pushWire sj s ev → PushCase sj s ev

theorem push_cases (hfinished : s.finished = false)
    (hplain : copiedVerbatim sj s.wire ev = false) : PushCase sj s ev := by
  have main : ∀ e : IrStreamEvent, ev = e → (∀ t p, e ≠ .protocol t p) → (∀ n r, e ≠ .unknown n r) →
      e ≠ .done → PushCase sj s ev := by
    rintro e rfl hproto hunknown hdone
    have hpush : push sj s ev = if skippedOn s.wire ev then .ok ([], s) else pushWire sj s ev := by
      unfold push
      rw [hfinished]
      simp only [Bool.false_eq_true, if_false]
    cases hskip : skippedOn s.wire ev with
    | true => exact .skipped hskip (by rw [hpush, hskip]; rfl)
    | false =>
      refine .wired ?_ (by rw [hpush, hskip]; rfl)
      cases ev <;> first
        | simp [isWired, hskip]; done
        | exact absurd rfl (hproto _ _)
        | exact absurd rfl (hunknown _ _)
        | exact absurd rfl hdone
  cases ev with
  | protocol itemType payload =>
    obtain ⟨act, hact⟩ : ∃ act, sideChannel sj s.wire itemType payload = some act :=
      Option.isSome_iff_exists.mp (by simpa [copiedVerbatim] using hplain)
    refine .side rfl ?_ (sideChannel_effect hact)
    simp only [push, hfinished, Bool.false_eq_true, if_false, hact]
  | unknown event raw => cases hplain
  | done => exact .done rfl (by simp only [push, hfinished, Bool.false_eq_true, if_false])
  | _ =>
    refine main _ rfl ?_ ?_ ?_
    · exact fun _ _ h => by cases h
    · exact fun _ _ h => by cases h
    · exact fun h => by cases h

theorem not_wired_of_skipped {wire : Wire} (h : skippedOn wire ev = true) :
    ¬ isWired wire ev = true := by
  cases ev <;> simp [isWired, h]

theorem skipped_noCall {wire : Wire} (h : skippedOn wire ev = true) :
    startOf? ev = none ∧ fragmentOf? ev = none := by
  cases ev <;> first | exact ⟨rfl, rfl⟩ | cases h

theorem push_finished (hfinished : s.finished = true) : push sj s ev = .ok ([], s) := by
  simp only [push, hfinished, if_true]

end

end Wiremux.SideChannels
