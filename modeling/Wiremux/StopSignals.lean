import Mathlib.Data.List.TakeWhile
import Wiremux.EmittingRuns
import Wiremux.SideChannels
import Wiremux.ToolRouting

set_option autoImplicit false

/-!
# What the end of a stream depends on

The stop reason is decided by the finish reason, the refusal text and whether a
call was seen. `SameEnd` relates states that agree on the end so far, `Unsaid`
those that agree on the calls and the kept events too.
-/
namespace Wiremux.StopSignals
open JsonValue StreamEvents StreamEventFrames EmittingRuns EncoderState ToolRouting CallEvents
open StreamEncoderPush SideChannels

def finishOf? : IrStreamEvent → Option (String × Option String)
  | .finishReason reason vendor => some (reason, vendor)
  | _ => none

def finishes (evs : List IrStreamEvent) : List (String × Option String) := evs.filterMap finishOf?

def told (evs : List IrStreamEvent) : Option String := (finishes evs).getLast?.map Prod.fst

def refusalOf : IrStreamEvent → String
  | .refusalDelta text => text
  | _ => ""

def isCallEvent (ev : IrStreamEvent) : Bool := (startOf? ev).isSome || (fragmentOf? ev).isSome

def called (evs : List IrStreamEvent) : Bool := evs.any isCallEvent

theorem told_snoc (evs : List IrStreamEvent) (ev : IrStreamEvent) :
    told (evs ++ [ev]) = ((finishOf? ev).map Prod.fst).or (told evs) := by
  unfold told finishes
  rw [List.filterMap_append]
  cases h : finishOf? ev <;> simp [h]

@[simp] theorem called_snoc (evs : List IrStreamEvent) (ev : IrStreamEvent) :
    called (evs ++ [ev]) = (called evs || isCallEvent ev) := by
  simp [called]

theorem finishOf?_skipped {wire : Wire} {ev : IrStreamEvent} (h : skippedOn wire ev = true) :
    finishOf? ev = none := by
  cases ev <;> first | rfl | cases h

theorem isCallEvent_skipped {wire : Wire} {ev : IrStreamEvent} (h : skippedOn wire ev = true) :
    isCallEvent ev = false := by
  obtain ⟨hstart, hfragment⟩ := skipped_noCall h
  simp [isCallEvent, hstart, hfragment]

structure SameEnd (s t : StreamEncoder) : Prop where
  wire : t.wire = s.wire
  finished : t.finished = s.finished
  finish : t.finish = s.finish
  refusal : t.refusal = s.refusal
  customSeen : t.chat.sawCustomTool = s.chat.sawCustomTool

structure Unsaid (s t : StreamEncoder) : Prop extends SameEnd s t where
  tools : t.tools = s.tools
  deferred : t.deferred = s.deferred

variable {s t u : StreamEncoder}

theorem SameEnd.refl (s : StreamEncoder) : SameEnd s s := ⟨rfl, rfl, rfl, rfl, rfl⟩

theorem Unsaid.refl (s : StreamEncoder) : Unsaid s s := ⟨.refl s, rfl, rfl⟩

theorem SideOnly.unsaid (h : SideOnly s t) : Unsaid s t := by
  obtain ⟨c, m, r, g, p, rfl, hcustom⟩ := h
  exact ⟨⟨rfl, rfl, rfl, rfl, hcustom⟩, rfl, rfl⟩

theorem takeCustomJson_unsaid (sj : SerdeJson) (enc : ℕ) (s : StreamEncoder) :
    Unsaid s (takeCustomJson sj enc s).2 := by
  unfold takeCustomJson
  split
  · exact .refl s
  · exact ⟨⟨rfl, rfl, rfl, rfl, rfl⟩, rfl, rfl⟩

theorem noteCustomSlot_unsaid (enc : ℕ) (custom : Bool) (s : StreamEncoder) :
    Unsaid s (noteCustomSlot enc custom s) := by
  unfold noteCustomSlot
  split
  · exact ⟨⟨rfl, rfl, rfl, rfl, rfl⟩, rfl, rfl⟩
  · exact .refl s

def Coherent (tools : ToolSlots) : Prop := ∀ i e, Known tools i e → tools.used.Nonempty

def SeenCall (s : StreamEncoder) : Prop := s.tools.used.Nonempty ∨ s.chat.sawCustomTool = true

theorem Coherent.new : Coherent {} := fun i e h => absurd h (not_known_new i e)

theorem used_assign (tools : ToolSlots) (i enc : ℕ) : (tools.assign i enc).used.Nonempty :=
  ⟨enc, Finset.mem_insert_self _ _⟩

theorem allocTool_seen (i : ℕ) (s : StreamEncoder) : SameEnd s (allocTool i s).2 ∧
    (allocTool i s).2.tools.used.Nonempty ∧ (allocTool i s).2.deferred = s.deferred := by
  unfold allocTool
  split
  · exact ⟨⟨rfl, rfl, rfl, rfl, rfl⟩, used_assign _ _ _, rfl⟩
  · exact ⟨⟨rfl, rfl, rfl, rfl, rfl⟩, used_assign _ _ _, rfl⟩

theorem coherent_of_nonempty {tools : ToolSlots} (h : tools.used.Nonempty) : Coherent tools :=
  fun _ _ _ => h

theorem toolEnc_seen (i : ℕ) (h : Coherent s.tools) : SameEnd s (toolEnc i s).2 ∧
    (toolEnc i s).2.tools.used.Nonempty ∧ (toolEnc i s).2.deferred = s.deferred := by
  unfold toolEnc
  split
  · rename_i front rest hslots
    have hused := h i front (Or.inl (by simp [hslots]))
    exact ⟨⟨rfl, rfl, rfl, rfl, rfl⟩, hused, rfl⟩
  · split
    · rename_i enc hlast
      have hused := h i enc (Or.inr hlast)
      exact ⟨⟨rfl, rfl, rfl, rfl, rfl⟩, hused, rfl⟩
    · exact allocTool_seen i s

variable {sj : SerdeJson} {ev : IrStreamEvent} {more : List RawSse}

/-- The ways of a successful `push` that is not the end. -/
inductive PushStep (sj : SerdeJson) (s : StreamEncoder) (ev : IrStreamEvent) :
    List RawSse → StreamEncoder → Prop
  | copied (frame : RawSse) : copiedVerbatim sj s.wire ev = true →
      encodeStreamEvent sj s.wire ev = .ok frame → PushStep sj s ev [frame] s
  | side {itemType : String} {payload : Value} {more : List RawSse} {t : StreamEncoder} :
      ev = .protocol itemType payload → copiedVerbatim sj s.wire ev = false →
      SideEffect sj s itemType payload (more, t) → PushStep sj s ev more t
  | skipped : skippedOn s.wire ev = true → copiedVerbatim sj s.wire ev = false →
      PushStep sj s ev [] s
  | wired {more : List RawSse} {t : StreamEncoder} : isWired s.wire ev = true →
      copiedVerbatim sj s.wire ev = false → pushWire sj s ev = .ok (more, t) →
      PushStep sj s ev more t

theorem push_step (hfinished : s.finished = false) (hdone : isDone ev = false)
    (h : push sj s ev = .ok (more, t)) : PushStep sj s ev more t := by
  cases hcopied : copiedVerbatim sj s.wire ev with
  | true =>
    have hpush : push sj s ev = (encodeStreamEvent sj s.wire ev).map fun f => ([f], s) := by
      cases ev with
      | protocol itemType payload =>
        have hnone : sideChannel sj s.wire itemType payload = none := by
          simpa [copiedVerbatim] using hcopied
        simp only [push, hfinished, Bool.false_eq_true, if_false, hnone]
      | unknown event raw => simp only [push, hfinished, Bool.false_eq_true, if_false]
      | _ => cases hcopied
    rw [hpush] at h
    obtain ⟨frame, hframe, heq⟩ := map_eq_ok h
    obtain ⟨rfl, rfl⟩ := Prod.mk.inj heq
    exact .copied frame hcopied hframe
  | false =>
    cases push_cases hfinished hcopied with
    | side hev hok heffect =>
      rw [hok] at h
      obtain rfl := Except.ok.inj h
      exact .side hev hcopied heffect
    | done hev _ =>
      subst hev
      cases hdone
    | skipped hskipped hok =>
      rw [hok] at h
      obtain ⟨rfl, rfl⟩ := Prod.mk.inj (Except.ok.inj h)
      exact .skipped hskipped hcopied
    | wired hwired hok => exact .wired hwired hcopied (hok ▸ h)

end Wiremux.StopSignals
