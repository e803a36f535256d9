import Wiremux.RestoredChoice

set_option autoImplicit false

/-!
# A request with and without the step on the model

Where the model rejects a forced choice, the body that is sent has another tool choice than
the one that is kept, unless the profile wrote or took away the choice, and the report has
one event more.
-/
namespace Wiremux.RelaxedRequests
open JsonValue Losses Completion FrameDecoding MessagesItems ToolPreparation
open MessagesCache MessagesThinking MessagesRequests ChoiceLosses ChoiceSwap
open MessagesSampling hiding encode
open RestoredChoice

variable {sj : SerdeJson} {cc : CharCase} {decimal : ℚ → ℚ} {ir : IrRequest}
  {profile : ResolvedProfile} {choice : IrToolChoice} {s : IrSampling} {o : OtherSettings}
  {p : EncodedParts} {own v : Value} {report : LossReport} {kept relaxed sent : Value × LossReport}

/-- What is known of the value of a forced choice. -/
structure ForcedChoice (choice : IrToolChoice) (own : Value) : Prop where
  object : own.isObject = true
  unmarked : Unmarked own
  unmarkedAuto : Unmarked (asAuto own)
  reread : ∀ float, reread float (asAuto own) = asAuto own
  back : ∃ v, forcedBack choice (asAuto own) = some v ∧ Same v own

theorem get?_asAuto_of_ne {key : String} (hname : key ≠ "name") (htype : key ≠ "type") (own : Value) :
    (asAuto own).get? key = own.get? key := by
  rw [asAuto, CredentialWriteback.get?_remove_of_ne _ hname, Value.get?_insert_of_ne _ _ htype]

theorem isObject_asAuto (h : own.isObject = true) : (asAuto own).isObject = true := by
  rw [asAuto, isObject_remove, Value.isObject_insert]
  exact h

theorem back_named {name : String} (h : own.isObject = true) (htype : own.get? "type" = some (.string "tool"))
    (hname : own.get? "name" = some (.string name)) :
    ∃ v, forcedBack (.named name) (asAuto own) = some v ∧ Same v own := by
  have hauto := isObject_asAuto h
  have htyped : ((asAuto own).insert "type" "tool").isObject = true := by
    rw [Value.isObject_insert]
    exact hauto
  refine ⟨_, rfl, .inr ⟨by rw [Value.isObject_insert]; exact htyped, h, fun key => ?_⟩⟩
  by_cases hkName : key = "name"
  · rw [hkName, Value.get?_insert_self _ _ htyped, hname]
  · rw [Value.get?_insert_of_ne _ _ hkName]
    by_cases hkType : key = "type"
    · rw [hkType, Value.get?_insert_self _ _ hauto, htype]
    · rw [Value.get?_insert_of_ne _ _ hkType, get?_asAuto_of_ne hkName hkType]

theorem back_required (h : own.isObject = true) (htype : own.get? "type" = some (.string "any"))
    (hname : own.get? "name" = none) :
    ∃ v, forcedBack .required (asAuto own) = some v ∧ Same v own := by
  have hauto := isObject_asAuto h
  refine ⟨_, rfl, .inr ⟨?_, h, fun key => ?_⟩⟩
  · rw [isObject_remove, Value.isObject_insert]
    exact hauto
  by_cases hkName : key = "name"
  · rw [hkName, get?_remove_self, hname]
  · rw [CredentialWriteback.get?_remove_of_ne _ hkName]
    by_cases hkType : key = "type"
    · rw [hkType, Value.get?_insert_self _ _ hauto, htype]
    · rw [Value.get?_insert_of_ne _ _ hkType, get?_asAuto_of_ne hkName hkType]

theorem forcedChoice_exists (h : isForced choice = true) (parallel : Option Bool) :
    ∃ own, disableParallel (toolChoiceValue choice) parallel = some own ∧ ForcedChoice choice own := by
  cases choice with
  | auto => cases h
  | none => cases h
  | required =>
    rcases parallel with _ | _ | _ <;> exact ⟨_, rfl, rfl, ⟨rfl, rfl⟩, ⟨rfl, rfl⟩, fun _ => rfl,
      back_required rfl rfl rfl⟩
  | named name =>
    rcases parallel with _ | _ | _ <;> exact ⟨_, rfl, rfl, ⟨rfl, rfl⟩, ⟨rfl, rfl⟩, fun _ => rfl,
      back_named rfl rfl rfl⟩

def chosenBody (decimal : ℚ → ℚ) (s : IrSampling) (p : EncodedParts) : Value :=
  omitSamplingRejectedByThinking s (encodeThinking s (plainSettings decimal s (startBody p)))

def chosenLosses (decimal : ℚ → ℚ) (s : IrSampling) (o : OtherSettings) (p : EncodedParts) : LossReport :=
  plainLosses s o (encodeToolChoice s.toolChoice (startBody p)) ++
    (thinkingLosses s (plainSettings decimal s (startBody p)) ++
      rejectedLosses s (encodeThinking s (plainSettings decimal s (startBody p))))

theorem encodeSettings_eq (step : ChoiceStep) (model : String) :
    encodeSettings decimal step model s o (startBody p) report =
      (lateSettings s (step model (chosenBody decimal s p) (report ++ chosenLosses decimal s o p)).1,
        (step model (chosenBody decimal s p) (report ++ chosenLosses decimal s o p)).2 ++
          lateLosses s o (step model (chosenBody decimal s p) (report ++ chosenLosses decimal s o p)).1) :=
  rfl

theorem quiet_chosen : Quiet (chosenLosses decimal s o p) :=
  quiet_append (quiet_plain s o _) (quiet_append (quiet_thinking s _) (quiet_rejected s _))

theorem written_chosen : Written s decimal (encodeThinking s (plainSettings decimal s (startBody p))) :=
  written_thinking (written_plain (unset_startBody p))

theorem thinking_chosen (decimal : ℚ → ℚ) (s : IrSampling) (p : EncodedParts) :
    thinkingOn (encodeThinking s (plainSettings decimal s (startBody p))) =
    (enabledBudget s).isSome := (thinking_readings (unset_startBody p) _ rfl).1

theorem object_chosen : (chosenBody decimal s p).isObject = true :=
  isObject_omitSampling written_chosen.object

theorem chosen_choice (h : enabledBudget s = none) : (chosenBody decimal s p).get? "tool_choice" =
    disableParallel (toolChoiceValue s.toolChoice) s.parallelToolCalls := by
  have hoff := thinking_chosen decimal s p
  rw [h] at hoff
  rw [chosenBody, omitSamplingRejectedByThinking, hoff, if_neg (by exact Bool.false_ne_true)]
  exact written_chosen.choice

theorem chosen_forced (decimal : ℚ → ℚ) (s : IrSampling) (p : EncodedParts) :
    forcedKind (chosenBody decimal s p) =
    (isForced s.toolChoice && (enabledBudget s).isNone) := by
  cases hbudget : enabledBudget s with
  | some budget =>
    have hon := thinking_chosen decimal s p
    rw [hbudget] at hon
    rw [chosenBody, omitSampling_forced written_chosen hon]
    exact (Bool.and_false _).symm
  | none =>
    rw [forcedKind, textAt, pointer?, chosen_choice hbudget]
    rcases s.parallelToolCalls with _ | _ | _ <;> cases s.toolChoice <;> rfl

theorem chosen_thinking (decimal : ℚ → ℚ) (s : IrSampling) (p : EncodedParts) :
    thinkingOn (chosenBody decimal s p) = (enabledBudget s).isSome := by
  rw [← thinking_chosen decimal s p, chosenBody]
  exact thinkingOn_congr (get?_omitSampling_of_ne _ (by decide) (by decide))

/-- The body with the step on the model, beside the one without it. -/
structure Relaxed (own : Value) (kept relaxed : Value × LossReport) : Prop where
  choice : kept.1.get? "tool_choice" = some own
  body : relaxed.1 = swap (asAuto own) kept.1
  report : ∃ before after, Quiet before ∧ kept.2 = before ++ after ∧
    relaxed.2 = before ++ downgrade :: after

theorem parts_same (h : (rejectsForcedToolChoice p.model &&
    (isForced p.sampling.toolChoice && (enabledBudget p.sampling).isNone)) = false) :
    encodeParts decimal omitForced p o report = encodeParts decimal keepForced p o report := by
  have hsettings : encodeSettings decimal omitForced p.model p.sampling o (startBody p) report =
      encodeSettings decimal keepForced p.model p.sampling o (startBody p) report := by
    rw [encodeSettings_eq, encodeSettings_eq, omitForced, chosen_forced, h,
      if_neg (by exact Bool.false_ne_true)]
    rfl
  rw [encodeParts, encodeParts, hsettings]

theorem parts_relaxed (hrelaxes : (rejectsForcedToolChoice p.model &&
      (isForced p.sampling.toolChoice && (enabledBudget p.sampling).isNone)) = true)
    (hown : disableParallel (toolChoiceValue p.sampling.toolChoice) p.sampling.parallelToolCalls = some own)
    (hforced : ForcedChoice p.sampling.toolChoice own) (hreport : Quiet report)
    (h : encodeParts decimal omitForced p o report = .ok relaxed) :
    ∃ kept, encodeParts decimal keepForced p o report = .ok kept ∧ Relaxed own kept relaxed := by
  have hbudget : enabledBudget p.sampling = none :=
    Option.isNone_iff_eq_none.mp (Bool.and_eq_true_iff.mp (Bool.and_eq_true_iff.mp hrelaxes).2).2
  have hchosen : (chosenBody decimal p.sampling p).get? "tool_choice" = some own :=
    (chosen_choice hbudget).trans hown
  have hchoice : HasChoice (chosenBody decimal p.sampling p) := hasChoice_of_own hchosen
  have hstep : omitForcedToolChoiceRejectedByModel p.model (chosenBody decimal p.sampling p) =
      swap (asAuto own) (chosenBody decimal p.sampling p) := by
    rw [omitForcedToolChoiceRejectedByModel, chosen_forced, hrelaxes, if_pos rfl, hchosen,
      Option.filter_some_pos hforced.object]
    rfl
  obtain ⟨set, hset⟩ : ∃ set, set = lateSettings p.sampling (chosenBody decimal p.sampling p) := ⟨_, rfl⟩
  have hsetOwn : set.get? "tool_choice" = some own := by
    rw [hset, get?_late_of_ne _ (by decide) (by decide) (by decide), hchosen]
  obtain ⟨cached, events, hcached⟩ := cachedAs_exists hsetOwn hforced.unmarked hforced.unmarkedAuto
    p.sampling.cache p.estimated
  obtain ⟨late, hlate⟩ : ∃ late, late = lateLosses p.sampling o (chosenBody decimal p.sampling p) :=
    ⟨_, rfl⟩
  unfold encodeParts at h ⊢
  cases herror : (emptyError p).or (settingError p.sampling) with
  | some err =>
    rw [herror] at h
    cases h
  | none =>
    rw [herror] at h
    dsimp only at h ⊢
    rw [encodeSettings_eq, omitForced, chosen_forced, hrelaxes, if_pos rfl, hstep,
      late_swap hchoice, lateLosses_swap, ← hset, ← hlate, hcached.swapped] at h
    rw [encodeSettings_eq, keepForced]
    dsimp only
    rw [← hset, ← hlate, hcached.plain]
    refine ⟨_, rfl, ?_⟩
    obtain rfl := Except.ok.inj h
    refine ⟨hcached.own, rfl, report ++ chosenLosses decimal p.sampling o p, late ++ events,
      quiet_append hreport quiet_chosen, List.append_assoc _ _ _, ?_⟩
    change report ++ chosenLosses decimal p.sampling o p ++ [downgrade] ++ late ++ events =
      report ++ chosenLosses decimal p.sampling o p ++ downgrade :: (late ++ events)
    simp only [List.append_assoc, List.cons_append, List.nil_append]

/-- The profile writes a tool choice of its own, or takes it away. -/
def Replaced (profile : ResolvedProfile) : Prop :=
  "tool_choice" ∈ forbiddenOf profile ∨ "tool_choice" ∈ (extraOf profile).map Prod.fst

structure SentRelaxed (profile : ResolvedProfile) (own : Value) (kept relaxed : Value × LossReport) :
    Prop where
  replaced : Replaced profile → relaxed.1 = kept.1
  own : ¬ Replaced profile → kept.1.get? "tool_choice" = some own ∧
    relaxed.1 = swap (asAuto own) kept.1
  report : ∃ before after, Quiet before ∧ kept.2 = before ++ after ∧
    relaxed.2 = before ++ downgrade :: after

theorem get?_merge_absent {extra : List (String × Value)} {key : String}
    (h : key ∉ extra.map Prod.fst) (body : Value) : (mergeExtraBody extra body).get? key = body.get? key := by
  induction extra generalizing body with
  | nil => rfl
  | cons field rest ih =>
    rw [List.map_cons, List.mem_cons, not_or] at h
    rw [mergeExtraBody, List.foldl_cons]
    exact (ih h.2 _).trans (Value.get?_insert_of_ne _ _ h.1)

theorem finish_relaxed (hrelaxed : Relaxed own kept relaxed) (h : finishBody profile relaxed = .ok sent) :
    ∃ keptSent, finishBody profile kept = .ok keptSent ∧ SentRelaxed profile own keptSent sent := by
  obtain ⟨before, after, hquiet, hkept, hreport⟩ := hrelaxed.report
  have hchoice : HasChoice kept.1 := hasChoice_of_own hrelaxed.choice
  cases hprint : profile.fingerprint with
  | none =>
    rw [finishBody, hprint] at h ⊢
    obtain rfl := Except.ok.inj h
    have hfree : ¬ Replaced profile := by
      rw [Replaced, forbiddenOf, extraOf, hprint]
      rintro (hmem | hmem) <;> cases hmem
    exact ⟨kept, rfl, fun hreplaced => absurd hreplaced hfree,
      fun _ => ⟨hrelaxed.choice, hrelaxed.body⟩, hrelaxed.report⟩
  | some fp =>
    have hforbidden : forbiddenOf profile = fp.forbiddenBodyFields := by
      rw [forbiddenOf, hprint]
      rfl
    have hextra : extraOf profile = fp.extraBody := by
      rw [extraOf, hprint]
      rfl
    obtain ⟨hmerge, hmerged⟩ := merge_swap hchoice fp.extraBody (asAuto own)
    have hstripped : ∀ body, stripLosses fp.forbiddenBodyFields body = stripLosses fp.forbiddenBodyFields
        (mergeExtraBody fp.extraBody kept.1) → ∃ before' after', Quiet before' ∧
          kept.2 ++ stripLosses fp.forbiddenBodyFields (mergeExtraBody fp.extraBody kept.1) =
            before' ++ after' ∧
          relaxed.2 ++ stripLosses fp.forbiddenBodyFields body = before' ++ downgrade :: after' := by
      intro body hsame
      refine ⟨before, after ++ stripLosses fp.forbiddenBodyFields
        (mergeExtraBody fp.extraBody kept.1), hquiet, ?_, ?_⟩
      · rw [hkept, List.append_assoc]
      · rw [hreport, hsame, List.append_assoc, List.cons_append]
    unfold finishBody at h ⊢
    rw [hprint] at h ⊢
    dsimp only at h ⊢
    rw [hrelaxed.body, hmerge] at h
    by_cases hmem : "tool_choice" ∈ fp.extraBody.map Prod.fst
    · rw [if_pos hmem] at h
      cases hsent : applyForbiddenFields fp.toFingerprint (mergeExtraBody fp.extraBody kept.1) with
      | error err =>
        rw [hsent] at h
        cases h
      | ok body =>
        rw [hsent] at h
        obtain rfl := Except.ok.inj h
        refine ⟨_, rfl, fun _ => rfl, fun hfree => ?_, hstripped _ rfl⟩
        exact absurd (.inr (hextra ▸ hmem)) hfree
    · rw [if_neg hmem, forbidden_swap hmerged] at h
      cases hsent : applyForbiddenFields fp.toFingerprint (mergeExtraBody fp.extraBody kept.1) with
      | error err =>
        rw [hsent] at h
        cases h
      | ok body =>
        rw [hsent] at h
        obtain rfl := Except.ok.inj h
        refine ⟨_, rfl, ?_, ?_, hstripped _ (stripLosses_swap hmerged _ _)⟩
        · rintro (hforbid | hin)
          · exact if_pos (hforbidden ▸ hforbid)
          · exact absurd (hextra ▸ hin) hmem
        · intro hfree
          have hkeep : "tool_choice" ∉ fp.forbiddenBodyFields := fun hforbid =>
            hfree (.inl (hforbidden ▸ hforbid))
          refine ⟨?_, if_neg hkeep⟩
          rw [get?_applyForbidden hsent, if_neg hkeep, get?_merge_absent hmem, hrelaxed.choice]

theorem quiet_store {others : OtherSettings} (h : stripOrRefuseStore profile o = .ok (others, report)) :
    Quiet report := by
  unfold stripOrRefuseStore at h
  split at h
  · obtain ⟨-, rfl⟩ := Prod.mk.inj (Except.ok.inj h)
    exact quiet_nil
  · split at h
    · obtain ⟨-, rfl⟩ := Prod.mk.inj (Except.ok.inj h)
      exact quiet_nil
    · split at h
      · cases h
      · obtain ⟨-, rfl⟩ := Prod.mk.inj (Except.ok.inj h)
        exact quiet_one (dropped_quiet _ _)

theorem quiet_parts {tools : List PreparedTool} (h : Quiet report) :
    Quiet (encodedParts sj ir profile tools report).2 := quiet_append h (quiet_turns _)

theorem model_parts (tools : List PreparedTool) (report : LossReport) :
    (encodedParts sj ir profile tools report).1.model = ir.model := rfl

theorem sampling_parts (tools : List PreparedTool) (report : LossReport) :
    (encodedParts sj ir profile tools report).1.sampling = ir.sampling := rfl

theorem encode_same (sj : SerdeJson) (cc : CharCase) (decimal : ℚ → ℚ) (profile : ResolvedProfile)
    (h : relaxes ir = false) :
    encode sj cc decimal ir profile = encodeWith sj cc decimal keepForced ir profile := by
  unfold encode encodeWith
  split
  · rfl
  · split
    · rfl
    · dsimp only
      rw [parts_same (by rw [model_parts, sampling_parts]; exact h)]

theorem encode_relaxed (hrelaxes : relaxes ir = true)
    (hown : disableParallel (toolChoiceValue ir.sampling.toolChoice) ir.sampling.parallelToolCalls = some own)
    (hforced : ForcedChoice ir.sampling.toolChoice own)
    (h : encode sj cc decimal ir profile = .ok sent) :
    ∃ kept, encodeWith sj cc decimal keepForced ir profile = .ok kept ∧
      SentRelaxed profile own kept sent := by
  unfold encode encodeWith at h
  unfold encodeWith
  split at h
  · cases h
  · rename_i others losses hstore
    split at h
    · cases h
    · rename_i prepared hprepared
      dsimp only at h ⊢
      split at h
      · cases h
      · rename_i relaxed hparts
        have hreport : Quiet (encodedParts sj ir profile (prepared.flatMap Prod.snd)
            (losses ++ preparedLosses profile.toolTypePolicy prepared)).2 :=
          quiet_parts (quiet_append (quiet_store hstore) (quiet_prepared _ prepared))
        obtain ⟨kept, hkept, hrelated⟩ := parts_relaxed
          (by rw [model_parts, sampling_parts]; exact hrelaxes) (by rw [sampling_parts]; exact hown)
          (by rw [sampling_parts]; exact hforced) hreport hparts
        obtain ⟨keptSent, hsent, hfinal⟩ := finish_relaxed hrelated h
        refine ⟨keptSent, ?_, hfinal⟩
        rw [hkept]
        exact hsent

end Wiremux.RelaxedRequests
