import Wiremux.ChatFrames
import Wiremux.StopReasons

set_option autoImplicit false

/-!
# The stop reason of a Chat stream

A Chat stream reports at its end the finish reason it was told before, which a
call turns into a tool reason.
-/
namespace Wiremux.StreamStops
open JsonValue StreamEvents StreamEventEncoding StreamEventFrames EmittingRuns EncoderState
open ChatEncoder MessagesEncoder ResponsesEncoder ConverseEncoder GeminiEncoder ChatFrames
open StreamEncoderPush SideChannels CallEvents StopSignals StopReasons

variable {sj : SerdeJson} {s t : StreamEncoder} {ev : IrStreamEvent} {before : List IrStreamEvent}
variable {out more : List RawSse}

theorem chat_frameStop_attach (s : StreamEncoder) (frame : RawSse) :
    frameStop .chatCompletions (attachChatDestModel s frame) = frameStop .chatCompletions frame := by
  have hread : ∀ frame : RawSse, frameStop .chatCompletions frame =
      plainStop (((frame.get? "choices").bind fun choices => choices.nth? 0).bind fun choice =>
        choice.strAt? "finish_reason") := by
    rintro ⟨event, data⟩
    cases data <;> rfl
  rw [hread, hread, choices_attach]

theorem chat_stopsIn_attach (s : StreamEncoder) (frames : List RawSse) :
    stopsIn .chatCompletions (frames.map (attachChatDestModel s)) =
      stopsIn .chatCompletions frames := by
  unfold stopsIn
  rw [List.filterMap_map]
  exact List.filterMap_congr fun f _ => chat_frameStop_attach s f

/-- The state of a Chat stream that has read `before`. -/
structure ChatHeard (before : List IrStreamEvent) (s : StreamEncoder) : Prop where
  wire : s.wire = .chatCompletions
  finished : s.finished = false
  finish : s.finish = told before
  coherent : Coherent s.tools
  seen : SeenCall s ↔ called before = true

theorem ChatHeard.quiet (h : ChatHeard before s) (hsame : SameEnd s t) (htools : t.tools = s.tools)
    (hfinish : finishOf? ev = none) (hcall : isCallEvent ev = false) :
    ChatHeard (before ++ [ev]) t where
  wire := hsame.wire.trans h.wire
  finished := hsame.finished.trans h.finished
  finish := by rw [hsame.finish, h.finish, told_snoc, hfinish]; rfl
  coherent := htools ▸ h.coherent
  seen := by
    rw [SeenCall, htools, hsame.customSeen, called_snoc, hcall, Bool.or_false]
    exact h.seen

theorem ChatHeard.call (h : ChatHeard before s) (hsame : SameEnd s t)
    (hused : t.tools.used.Nonempty) (hfinish : finishOf? ev = none) (hcall : isCallEvent ev = true) :
    ChatHeard (before ++ [ev]) t where
  wire := hsame.wire.trans h.wire
  finished := hsame.finished.trans h.finished
  finish := by rw [hsame.finish, h.finish, told_snoc, hfinish]; rfl
  coherent := coherent_of_nonempty hused
  seen := by
    rw [called_snoc, hcall, Bool.or_true]
    exact ⟨fun _ => rfl, fun _ => Or.inl hused⟩

theorem chatEvent_heard (h : ChatHeard before s) (hwired : isWired .chatCompletions ev = true)
    (hok : chatEvent sj ev s = .ok (more, t)) :
    ChatHeard (before ++ [ev]) t ∧ stopsIn .chatCompletions more = [] := by
  have quiet : ∀ {t' : StreamEncoder}, SameEnd s t' → t'.tools = s.tools → finishOf? ev = none →
      isCallEvent ev = false → ChatHeard (before ++ [ev]) t' := fun hsame htools hfinish hcall =>
    h.quiet hsame htools hfinish hcall
  have custom : isCallEvent ev = true → finishOf? ev = none →
      ChatHeard (before ++ [ev]) { s with chat := { s.chat with sawCustomTool := true } } := by
    intro hcall hfinish
    exact
      { wire := h.wire
        finished := h.finished
        finish := by rw [told_snoc, hfinish]; exact h.finish
        coherent := h.coherent
        seen := by
          rw [called_snoc, hcall, Bool.or_true]
          exact ⟨fun _ => rfl, fun _ => Or.inr rfl⟩ }
  cases ev with
  | toolCallStart id name sig index =>
    cases hok
    obtain ⟨hsame, hused, _⟩ := allocTool_seen index s
    exact ⟨h.call hsame hused rfl rfl, rfl⟩
  | toolCallArgDelta delta index =>
    cases hok
    obtain ⟨hsame, hused, _⟩ := toolEnc_seen index h.coherent
    exact ⟨h.call hsame hused rfl rfl, rfl⟩
  | customToolCallStart id name index =>
    cases hok
    exact ⟨custom rfl rfl, rfl⟩
  | customToolCallInputDelta delta index =>
    cases hok
    exact ⟨custom rfl rfl, rfl⟩
  | finishReason reason vendor =>
    cases hok
    refine ⟨⟨h.wire, h.finished, ?_, h.coherent, ?_⟩, rfl⟩
    · rw [told_snoc]
      rfl
    · rw [called_snoc, show isCallEvent (.finishReason reason vendor) = false from rfl,
        Bool.or_false]
      exact h.seen
  | logprobs content refusal =>
    cases hok
    refine ⟨quiet (.refl s) rfl rfl rfl, ?_⟩
    cases chatLogprobsValue content refusal <;> rfl
  | diagnostics reason => cases hwired
  | container value => cases hwired
  | contextManagement value => cases hwired
  | stopSequence text => cases hwired
  | searchEntryPoint rendered => cases hwired
  | protocol itemType payload => cases hwired
  | unknown event raw => cases hwired
  | done => cases hwired
  | _ =>
    cases hok
    exact ⟨quiet ⟨rfl, rfl, rfl, rfl, rfl⟩ rfl rfl rfl, rfl⟩

theorem pushChat_heard (h : ChatHeard before s) (hwired : isWired .chatCompletions ev = true)
    (hok : pushChat sj s ev = .ok (more, t)) :
    ChatHeard (before ++ [ev]) t ∧ stopsIn .chatCompletions more = [] := by
  obtain ⟨created, hpush⟩ : ∃ created, pushChat sj s ev =
      (chatEvent sj ev (startChat { s with createdAt := created }).2).map fun r =>
        (((startChat { s with createdAt := created }).1 ++ r.1).map (attachChatDestModel r.2),
          r.2) := by
    cases ev <;> exact ⟨_, rfl⟩
  rw [hpush] at hok
  obtain ⟨⟨frames, u⟩, hevent, heq⟩ := map_eq_ok hok
  obtain ⟨rfl, rfl⟩ := Prod.mk.inj heq
  have hopening : stopsIn .chatCompletions (startChat { s with createdAt := created }).1 = [] ∧
      ChatHeard before (startChat { s with createdAt := created }).2 := by
    unfold startChat
    split
    · exact ⟨rfl, h.wire, h.finished, h.finish, h.coherent, h.seen⟩
    · exact ⟨rfl, h.wire, h.finished, h.finish, h.coherent, h.seen⟩
  obtain ⟨hnext, hstops⟩ := chatEvent_heard hopening.2 hwired hevent
  refine ⟨hnext, ?_⟩
  rw [chat_stopsIn_attach, stopsIn_append, hopening.1, hstops]
  rfl

theorem chat_step (h : ChatHeard before s) (hstep : PushStep sj s ev more t) :
    ChatHeard (before ++ [ev]) t ∧
      stopsIn .chatCompletions more = (copiedStop sj .chatCompletions ev).toList := by
  cases hstep with
  | copied frame hcopied hframe =>
    obtain ⟨hfinish, hcall, _⟩ := copied_quiet hcopied
    rw [h.wire] at hcopied hframe
    exact ⟨h.quiet (.refl s) rfl hfinish hcall, (copiedStop_eq hcopied hframe).symm⟩
  | side hev hown heffect =>
    subst hev
    rw [h.wire] at hown
    rw [copiedStop_own hown]
    generalize hr : (more, t) = r at heffect
    cases heffect with
    | quiet hside =>
      obtain ⟨rfl, rfl⟩ := Prod.mk.inj hr
      exact ⟨h.quiet (SideOnly.unsaid hside).toSameEnd (SideOnly.unsaid hside).tools rfl rfl, rfl⟩
    | citation hwire => rw [h.wire] at hwire; cases hwire
    | reasoning hwire => rw [h.wire] at hwire; cases hwire
    | codePart hwire => rw [h.wire] at hwire; cases hwire
    | redacted blob hwire => rw [h.wire] at hwire; cases hwire
  | skipped hskipped hown =>
    rw [h.wire] at hown
    rw [copiedStop_own hown]
    exact ⟨h.quiet (.refl s) rfl (finishOf?_skipped hskipped) (isCallEvent_skipped hskipped), rfl⟩
  | wired hwired hown hpush =>
    rw [h.wire] at hown hwired
    rw [copiedStop_own hown]
    rw [pushWire, h.wire] at hpush
    exact pushChat_heard h hwired hpush

end Wiremux.StreamStops
