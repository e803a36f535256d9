import Wiremux.RelaxedRequests
import Wiremux.ToolNames

set_option autoImplicit false

/-!
# Restoring the tool choice of a Messages client

The restore gives the body and the report that the encoder gives without its step on the
model, exactly where the body can be read back and the profile did not write a tool choice
of the type `auto`, which looks like a relaxed one.
-/
namespace Wiremux.RestoredRequests
open JsonValue StreamEvents Losses Completion FrameDecoding ToolPreparation MessagesItems
open MessagesCache MessagesThinking MessagesMarkers MessagesRequests ChoiceLosses ChoiceSwap
open RestoredChoice RelaxedRequests
open MessagesSampling hiding encode

variable {sj : SerdeJson} {cc : CharCase} {decimal float : ℚ → ℚ} {ir : IrRequest}
  {profile : ResolvedProfile} {choice : IrToolChoice} {own v w body : Value} {key : String}
  {report before after : LossReport} {kept sent : Value × LossReport}

theorem lookup_reread (float : ℚ → ℚ) (key : String) (fields : List (String × Value)) :
    (rereadFields float fields).lookup key = (fields.lookup key).map (reread float) := by
  induction fields with
  | nil => rfl
  | cons field rest ih =>
    obtain ⟨k, v⟩ := field
    rw [rereadFields, List.lookup_cons, List.lookup_cons, ih]
    cases key == k <;> rfl

theorem get?_reread (float : ℚ → ℚ) (v : Value) (key : String) :
    (reread float v).get? key = (v.get? key).map (reread float) := by
  cases v with
  | object fields =>
    rw [reread]
    exact lookup_reread float key fields
  | number n => cases n <;> rfl
  | array items =>
    rw [reread]
    rfl
  | _ => rfl

theorem asStr?_reread (float : ℚ → ℚ) (v : Value) : (reread float v).asStr? = v.asStr? := by
  cases v with
  | number n => cases n <;> rfl
  | object fields =>
    rw [reread]
    rfl
  | array items =>
    rw [reread]
    rfl
  | _ => rfl

theorem strAt?_reread (float : ℚ → ℚ) (v : Value) (key : String) :
    (reread float v).strAt? key = v.strAt? key := by
  rw [Value.strAt?, Value.strAt?, get?_reread]
  cases v.get? key with
  | none => rfl
  | some x => exact asStr?_reread float x

mutual
theorem reread_id : ∀ v, reread id v = v
  | .null | .bool _ | .string _ => rfl
  | .number (.posInt _) | .number (.negInt _) | .number (.float _) => rfl
  | .array items => by rw [reread, rereadItems_id items]
  | .object fields => by rw [reread, rereadFields_id fields]

theorem rereadItems_id : ∀ items, rereadItems id items = items
  | [] => rfl
  | v :: rest => by rw [rereadItems, reread_id v, rereadItems_id rest]

theorem rereadFields_id : ∀ fields, rereadFields id fields = fields
  | [] => rfl
  | (_, v) :: rest => by rw [rereadFields, reread_id v, rereadFields_id rest]
end

theorem same_strAt (h : Same v w) (key : String) : v.strAt? key = w.strAt? key := by
  rcases h with rfl | ⟨-, -, hkeys⟩
  · rfl
  · rw [Value.strAt?, Value.strAt?, hkeys key]

theorem textAt_pair (v : Value) (key leaf : String) :
    textAt v [key, leaf] = (v.get? key).bind fun x => x.strAt? leaf := by
  cases hget : v.get? key with
  | none => simp [textAt, pointer?, hget]
  | some x => simp [textAt, pointer?, hget, Value.strAt?]

theorem sameBody_textAt (h : SameBody v w) (key leaf : String) :
    textAt v [key, leaf] = textAt w [key, leaf] := by
  have hkey := h key
  rw [textAt_pair, textAt_pair]
  generalize v.get? key = a at hkey ⊢
  generalize w.get? key = b at hkey ⊢
  cases hkey with
  | none => rfl
  | some hsame => exact same_strAt hsame leaf

theorem sameBody_thinking (h : SameBody v w) : thinkingOn v = thinkingOn w := by
  rw [thinkingOn, thinkingOn, sameBody_textAt h]

theorem sameBody_forced (h : SameBody v w) : forcedKind v = forcedKind w := by
  rw [forcedKind, forcedKind, sameBody_textAt h]

theorem sameBody_refl (v : Value) : SameBody v v := by
  intro key
  cases v.get? key with
  | none => exact .none
  | some x => exact .some (.inl rfl)

theorem findIdx_quiet (h : Quiet report) : report.findIdx? isDowngrade = none := by
  rw [List.findIdx?_eq_none_iff]
  exact h

theorem findIdx_downgrade (h : Quiet before) (after : LossReport) :
    (before ++ downgrade :: after).findIdx? isDowngrade = some before.length := by
  have hfirst : (downgrade :: after).findIdx? isDowngrade = some 0 := by
    rw [List.findIdx?_cons, if_pos (by decide)]
  rw [List.findIdx?_append, findIdx_quiet h, hfirst]
  simp

theorem erase_downgrade (before after : LossReport) :
    (before ++ downgrade :: after).eraseIdx before.length = before ++ after := by
  rw [List.eraseIdx_append_of_length_le (Nat.le_refl _), Nat.sub_self]
  rfl

def choiceType (body : Value) : Option String := (body.get? "tool_choice").bind fun v => v.strAt? "type"

theorem isObject_of_strAt {text : String} (h : v.strAt? key = some text) : v.isObject = true := by
  cases v with
  | object fields => rfl
  | _ => cases h

theorem choiceType_reread (float : ℚ → ℚ) (body : Value) :
    choiceType (reread float body) = choiceType body := by
  rw [choiceType, choiceType, get?_reread]
  cases body.get? "tool_choice" with
  | none => rfl
  | some v => exact strAt?_reread float v "type"

theorem putBack_other (h : choiceType body ≠ some "auto") (choice : IrToolChoice) :
    putBackForcedToolChoice choice body = some body := by
  unfold putBackForcedToolChoice
  split
  · rfl
  · rename_i obj hobj
    have hget := (Option.filter_eq_some_iff.mp hobj).1
    rw [choiceType, hget] at h
    change obj.strAt? "type" ≠ some "auto" at h
    rw [if_pos h]

theorem putBack_auto (hget : body.get? "tool_choice" = some v) (htype : v.strAt? "type" = some "auto") :
    putBackForcedToolChoice choice body = (forcedBack choice v).map (body.insert "tool_choice") := by
  unfold putBackForcedToolChoice
  rw [hget, Option.filter_some_pos (isObject_of_strAt htype)]
  dsimp only
  rw [if_neg (not_not_intro htype)]

theorem forcedBack_type (h : isForced choice = true) (hv : v.isObject = true) :
    ∃ w, forcedBack choice v = some w ∧ w.strAt? "type" ≠ some "auto" := by
  cases choice with
  | auto => cases h
  | none => cases h
  | required =>
    refine ⟨_, rfl, ?_⟩
    rw [Value.strAt?, CredentialWriteback.get?_remove_of_ne _ (by decide), Value.get?_insert_self _ _ hv]
    exact fun heq => absurd (Option.some.inj heq) (by decide)
  | named name =>
    refine ⟨_, rfl, ?_⟩
    rw [Value.strAt?, Value.get?_insert_of_ne _ _ (by decide), Value.get?_insert_self _ _ hv]
    exact fun heq => absurd (Option.some.inj heq) (by decide)

theorem restored_quiet (h : Quiet report) : restored float ir body report = (body, report) := by
  rw [restored, restoreSameWireMessagesToolChoice, if_neg (by simp), findIdx_quiet h]

theorem restored_deep (hquiet : Quiet before) (hdeep : ¬ depth body ≤ maxDepth) :
    restored float ir body (before ++ downgrade :: after) = (body, before ++ downgrade :: after) := by
  rw [restored, restoreSameWireMessagesToolChoice, if_neg (by simp), findIdx_downgrade hquiet, readBack,
    if_neg hdeep]
  rfl

theorem restored_read (hquiet : Quiet before) (hdepth : depth body ≤ maxDepth)
    (hput : putBackForcedToolChoice ir.sampling.toolChoice (reread float body) = some v) :
    restored float ir body (before ++ downgrade :: after) = (v, before ++ after) := by
  rw [restored, restoreSameWireMessagesToolChoice, if_neg (by simp), findIdx_downgrade hquiet, readBack,
    if_pos hdepth, Option.bind_some, hput]
  dsimp only
  rw [erase_downgrade]

theorem shallow_of_report (hquiet : Quiet before)
    (h : (restored float ir body (before ++ downgrade :: after)).2 = before ++ after) :
    depth body ≤ maxDepth := by
  by_contra hdeep
  rw [restored_deep hquiet hdeep] at h
  have hlength := congrArg List.length h
  simp only [List.length_append, List.length_cons] at hlength
  omega

theorem members_of_same (hsame : SameBody v w) (hv : v.get? key = (body.get? key).map (reread float))
    (hw : w.get? key = body.get? key) {x : Value} (hx : body.get? key = some x) :
    Same (reread float x) x := by
  have hkey := hsame key
  rw [hv, hw, hx] at hkey
  cases hkey with
  | some h => exact h

theorem rel_of_members (hread : ReadsBack float body) (key : String) :
    Option.Rel Same ((body.get? key).map (reread float)) (body.get? key) := by
  cases hx : body.get? key with
  | none => exact .none
  | some x => exact .some (hread.members key x hx)

theorem lookup_isSome_of_mem {fields : List (String × Value)} (h : key ∈ fields.map Prod.fst) :
    (fields.lookup key).isSome = true := by
  induction fields with
  | nil => cases h
  | cons field rest ih =>
    obtain ⟨k, x⟩ := field
    rw [List.lookup_cons]
    by_cases hk : key = k
    · rw [hk, beq_self_eq_true]
      rfl
    · rw [beq_false_of_ne hk]
      exact ih ((List.mem_cons.mp h).resolve_left hk)

theorem lookup_of_mem {fields : List (String × Value)} (honce : (fields.map Prod.fst).Nodup)
    {field : String × Value} (h : field ∈ fields) : fields.lookup field.1 = some field.2 := by
  induction fields with
  | nil => cases h
  | cons first rest ih =>
    obtain ⟨k, x⟩ := first
    obtain ⟨hnot, hrest⟩ := List.nodup_cons.mp honce
    rw [List.lookup_cons]
    rcases List.mem_cons.mp h with rfl | hmem
    · rw [beq_self_eq_true]
    · have hne : field.1 ≠ k := fun heq => hnot (List.mem_map.mpr ⟨field, hmem, heq⟩)
      rw [beq_false_of_ne hne]
      exact ih hrest hmem

theorem lookup_eq_none_of_not_mem {fields : List (String × Value)} (h : key ∉ fields.map Prod.fst) :
    fields.lookup key = none := by
  refine List.lookup_eq_none_iff.mpr fun field hfield => bne_iff_ne.mpr ?_
  rintro rfl
  exact h (List.mem_map_of_mem hfield)

structure SentBody (profile : ResolvedProfile) (encoded sent : Value) : Prop where
  forbidden : ∀ key ∈ forbiddenOf profile, sent.get? key = none
  kept : ∀ key, key ∉ forbiddenOf profile →
    sent.get? key = ((extraOf profile).lookup key).or (encoded.get? key)

theorem get?_merge {extra : List (String × Value)} (honce : (extra.map Prod.fst).Nodup)
    (hobj : body.isObject = true) (key : String) :
    (mergeExtraBody extra body).get? key = (extra.lookup key).or (body.get? key) := by
  induction extra generalizing body with
  | nil => rfl
  | cons field rest ih =>
    obtain ⟨k, x⟩ := field
    obtain ⟨hnot, hrest⟩ := List.nodup_cons.mp honce
    have hinsert : (body.insert k x).isObject = true := by
      rw [Value.isObject_insert]
      exact hobj
    refine (ih hrest hinsert).trans ?_
    rw [List.lookup_cons]
    by_cases hk : key = k
    · rw [hk, lookup_eq_none_of_not_mem hnot, beq_self_eq_true, Value.get?_insert_self _ _ hobj]
      rfl
    · rw [beq_false_of_ne hk, Value.get?_insert_of_ne _ _ hk]

theorem finish_sent (hobj : kept.1.isObject = true) (h : finishBody profile kept = .ok sent) :
    SentBody profile kept.1 sent.1 := by
  unfold finishBody at h
  cases hprint : profile.fingerprint with
  | none =>
    rw [hprint] at h
    obtain rfl := Except.ok.inj h
    have hforbidden : forbiddenOf profile = [] := by
      rw [forbiddenOf, hprint]
      rfl
    have hextra : extraOf profile = [] := by
      rw [extraOf, hprint]
      rfl
    constructor
    · rw [hforbidden]
      exact fun key hmem => absurd hmem List.not_mem_nil
    · rw [hextra]
      exact fun key _ => rfl
  | some fp =>
    rw [hprint] at h
    dsimp only at h
    have hforbidden : forbiddenOf profile = fp.forbiddenBodyFields := by
      rw [forbiddenOf, hprint]
      rfl
    have hextra : extraOf profile = fp.extraBody := by
      rw [extraOf, hprint]
      rfl
    split at h
    · cases h
    · rename_i final hfinal
      obtain rfl := Except.ok.inj h
      constructor
      · intro key hmem
        rw [get?_applyForbidden hfinal, if_pos (hforbidden ▸ hmem)]
      · intro key hmem
        rw [get?_applyForbidden hfinal, if_neg (hforbidden ▸ hmem), get?_merge fp.extraOnce hobj, hextra]

section
variable {ttl : Option String}

theorem isObject_tools (v : Value) : (tagLastTool v ttl).isObject = v.isObject := by
  unfold tagLastTool
  split
  · exact Value.isObject_insert _ _ _
  · rfl

theorem isObject_system (v : Value) (first : Bool) : (tagSystemSlot v ttl first).2.isObject = v.isObject := by
  unfold tagSystemSlot
  split <;> first | rfl | exact Value.isObject_insert _ _ _

theorem isObject_user (v : Value) : (tagFirstUserText v ttl).isObject = v.isObject := by
  unfold tagFirstUserText
  split
  · exact Value.isObject_insert _ _ _
  · rfl

theorem isObject_preferred (v : Value) :
    (applyPreferredCacheBreakpoints v ttl).isObject = v.isObject := by
  unfold applyPreferredCacheBreakpoints
  split
  · split
    · dsimp only
      split
      · rw [isObject_system, isObject_tools]
      · rw [isObject_user, isObject_system, isObject_tools]
    · rw [isObject_user, isObject_system]
  · dsimp only
    rw [isObject_user]
    split
    · exact isObject_system v false
    · rw [isObject_system, isObject_system]

end

theorem isObject_cache (v : Value) (cache : IrCache) (estimated : ℕ) (report : LossReport) :
    (applyCacheBreakpoints v cache estimated report).1.isObject = v.isObject := by
  have hlimit : ∀ (u : Value) ttl, (enforceCacheControlLimit u ttl).isObject = u.isObject := by
    intro u ttl
    unfold enforceCacheControlLimit
    split
    · rfl
    · rw [isObject_preferred, isObject_strip]
  unfold applyCacheBreakpoints
  split
  · rfl
  · split
    · rfl
    · dsimp only
      split <;> exact (hlimit _ _).trans ((isObject_preferred _).trans (isObject_strip v))

theorem quiet_cache (h : Quiet report) (v : Value) (cache : IrCache) (estimated : ℕ) :
    Quiet (applyCacheBreakpoints v cache estimated report).2 := by
  unfold applyCacheBreakpoints
  split
  · exact h
  · split
    · exact quiet_append h (quiet_one (isDowngrade_action LossAction.noConfusion))
    · dsimp only
      split <;> exact quiet_append h (quiet_one (isDowngrade_action LossAction.noConfusion))

/-- What the encoder wrote of thinking and of the tool choice. -/
structure Wrote (s : IrSampling) (encoded : Value) : Prop where
  object : encoded.isObject = true
  thinking : thinkingOn encoded = (enabledBudget s).isSome
  forced : forcedKind encoded = (isForced s.toolChoice && (enabledBudget s).isNone)

theorem parts_wrote {p : EncodedParts} {o : OtherSettings} (hreport : Quiet report)
    (h : encodeParts decimal keepForced p o report = .ok kept) :
    Wrote p.sampling kept.1 ∧ Quiet kept.2 := by
  unfold encodeParts at h
  split at h
  · cases h
  · rw [encodeSettings_eq, keepForced] at h
    dsimp only at h
    obtain rfl := Except.ok.inj h
    have hreadings := readings_applyCache (lateSettings p.sampling (chosenBody decimal p.sampling p))
      p.sampling.cache p.estimated (report ++ chosenLosses decimal p.sampling o p ++
        lateLosses p.sampling o (chosenBody decimal p.sampling p))
    refine ⟨⟨?_, ?_, ?_⟩, ?_⟩
    · rw [isObject_cache]
      exact isObject_late object_chosen
    · refine (congrArg Readings.on hreadings).trans ?_
      rw [← chosen_thinking decimal p.sampling p]
      exact thinkingOn_congr (get?_late_of_ne _ (by decide) (by decide) (by decide))
    · refine (congrArg Readings.forced hreadings).trans ?_
      rw [← chosen_forced decimal p.sampling p]
      exact forcedKind_congr (get?_late_of_ne _ (by decide) (by decide) (by decide))
    · exact quiet_cache (quiet_append (quiet_append hreport quiet_chosen) (quiet_late _ _ _)) _ _ _

theorem quiet_finish (hreport : Quiet kept.2) (h : finishBody profile kept = .ok sent) :
    Quiet sent.2 := by
  unfold finishBody at h
  split at h
  · obtain rfl := Except.ok.inj h
    exact hreport
  · dsimp only at h
    split at h
    · cases h
    · obtain rfl := Except.ok.inj h
      exact quiet_append hreport (quiet_strip _ _)

/-- The run without the step: what was written, and what the profile made of it. -/
theorem kept_run (h : encodeWith sj cc decimal keepForced ir profile = .ok sent) :
    ∃ encoded, Wrote ir.sampling encoded ∧ SentBody profile encoded sent.1 ∧ Quiet sent.2 := by
  unfold encodeWith at h
  split at h
  · cases h
  · rename_i others losses hstore
    split at h
    · cases h
    · rename_i prepared _
      dsimp only at h
      split at h
      · cases h
      · rename_i kept hparts
        have hreport : Quiet (encodedParts sj ir profile (prepared.flatMap Prod.snd)
            (losses ++ preparedLosses profile.toolTypePolicy prepared)).2 :=
          quiet_parts (quiet_append (quiet_store hstore) (quiet_prepared _ prepared))
        obtain ⟨hwrote, hquiet⟩ := parts_wrote hreport hparts
        rw [sampling_parts] at hwrote
        exact ⟨kept.1, hwrote, finish_sent hwrote.object h, quiet_finish hquiet h⟩

theorem sent_thinking {encoded : Value} (hwrote : Wrote ir.sampling encoded)
    (hsent : SentBody profile encoded body) : thinkingOn body = sentThinkingOn ir profile := by
  rw [thinkingOn, textAt_pair, sentThinkingOn]
  by_cases hmem : "thinking" ∈ forbiddenOf profile
  · rw [hsent.forbidden _ hmem, List.contains_iff_mem.mpr hmem]
    rfl
  · have hcontains : (forbiddenOf profile).contains "thinking" = false :=
      Bool.eq_false_iff.mpr fun hin => hmem (List.contains_iff_mem.mp hin)
    rw [hsent.kept _ hmem, hcontains, Bool.not_false, Bool.true_and]
    cases (extraOf profile).lookup "thinking" with
    | some thinking => rfl
    | none =>
      rw [Option.none_or, ← textAt_pair]
      exact hwrote.thinking

theorem sent_forced {encoded : Value} (hwrote : Wrote ir.sampling encoded)
    (hsent : SentBody profile encoded body) : forcedKind body = sentForced ir profile := by
  rw [forcedKind, textAt_pair, sentForced]
  by_cases hmem : "tool_choice" ∈ forbiddenOf profile
  · rw [hsent.forbidden _ hmem, List.contains_iff_mem.mpr hmem]
    rfl
  · have hcontains : (forbiddenOf profile).contains "tool_choice" = false :=
      Bool.eq_false_iff.mpr fun hin => hmem (List.contains_iff_mem.mp hin)
    rw [hsent.kept _ hmem, hcontains, Bool.not_false, Bool.true_and]
    cases (extraOf profile).lookup "tool_choice" with
    | some choice => rfl
    | none =>
      rw [Option.none_or, ← textAt_pair]
      exact hwrote.forced

theorem profileAuto_iff (hencoded : SentBody profile w body) (hreplaced : Replaced profile) :
    profileAuto profile = true ↔ choiceType body = some "auto" := by
  rw [profileAuto, choiceType]
  by_cases hmem : "tool_choice" ∈ forbiddenOf profile
  · rw [hencoded.forbidden _ hmem, List.contains_iff_mem.mpr hmem]
    exact iff_of_false Bool.false_ne_true (Option.some_ne_none _).symm
  · have hcontains : (forbiddenOf profile).contains "tool_choice" = false :=
      Bool.eq_false_iff.mpr fun hin => hmem (List.contains_iff_mem.mp hin)
    obtain ⟨choice, hchoice⟩ :=
      Option.isSome_iff_exists.mp (lookup_isSome_of_mem (hreplaced.resolve_left hmem))
    rw [hencoded.kept _ hmem, hcontains, Bool.not_false, Bool.true_and, hchoice, beq_iff_eq]
    rfl

theorem profileAuto_own (h : ¬ Replaced profile) : profileAuto profile = false := by
  rw [profileAuto, lookup_eq_none_of_not_mem fun hmem => h (.inr hmem)]
  exact Bool.and_false _

theorem undone_replaced (hforced : isForced ir.sampling.toolChoice = true) (hquiet : Quiet before)
    (hauto : profileAuto profile = true ↔ choiceType body = some "auto") :
    (SameBody (restored float ir body (before ++ downgrade :: after)).1 body ∧
        (restored float ir body (before ++ downgrade :: after)).2 = before ++ after) ↔
      ReadsBack float body ∧ profileAuto profile = false := by
  have hother : profileAuto profile = false → depth body ≤ maxDepth →
      restored float ir body (before ++ downgrade :: after) = (reread float body, before ++ after) := by
    intro hno hdepth
    refine restored_read hquiet hdepth (putBack_other ?_ _)
    rw [choiceType_reread]
    intro htype
    rw [hauto.mpr htype] at hno
    cases hno
  constructor
  · rintro ⟨hsame, hreport⟩
    have hdepth := shallow_of_report hquiet hreport
    -- what is put back over an `auto` of the profile has another type
    have hno : profileAuto profile = false := by
      rw [Bool.eq_false_iff]
      intro hyes
      have htype : choiceType (reread float body) = some "auto" := by
        rw [choiceType_reread]
        exact hauto.mp hyes
      obtain ⟨v, hget, hv⟩ := Option.bind_eq_some_iff.mp htype
      obtain ⟨w, hback, hw⟩ := forcedBack_type hforced (isObject_of_strAt hv)
      have hput : putBackForcedToolChoice ir.sampling.toolChoice (reread float body) =
          some (swap w (reread float body)) := by
        rw [putBack_auto hget hv, hback]
        rfl
      have hchoice : HasChoice (reread float body) := hasChoice_of_own hget
      rw [restored_read hquiet hdepth hput] at hsame
      have hrel := hsame "tool_choice"
      rw [get?_swap_self hchoice] at hrel
      have hown : choiceType body = some "auto" := hauto.mp hyes
      obtain ⟨x, hx, hxType⟩ := Option.bind_eq_some_iff.mp hown
      rw [hx] at hrel
      cases hrel with
      | some hs => exact hw ((same_strAt hs "type").trans hxType)
    rw [hother hno hdepth] at hsame
    exact ⟨⟨hdepth, fun key v hv => members_of_same hsame (get?_reread float body key) rfl hv⟩, hno⟩
  · rintro ⟨hread, hno⟩
    rw [hother hno hread.shallow]
    refine ⟨fun key => ?_, rfl⟩
    rw [get?_reread]
    exact rel_of_members hread key

theorem undone_own (hforced : ForcedChoice ir.sampling.toolChoice own) (hquiet : Quiet before)
    (hown : v.get? "tool_choice" = some own) :
    (SameBody (restored float ir (swap (asAuto own) v) (before ++ downgrade :: after)).1 v ∧
        (restored float ir (swap (asAuto own) v) (before ++ downgrade :: after)).2 = before ++ after) ↔
      ReadsBack float (swap (asAuto own) v) := by
  have hchoice : HasChoice v := hasChoice_of_own hown
  have hself : (swap (asAuto own) v).get? "tool_choice" = some (asAuto own) := get?_swap_self hchoice _
  have hreread : (reread float (swap (asAuto own) v)).get? "tool_choice" = some (asAuto own) := by
    rw [get?_reread, hself, Option.map_some, hforced.reread]
  obtain ⟨back, hback, hsameBack⟩ := hforced.back
  have hput : putBackForcedToolChoice ir.sampling.toolChoice (reread float (swap (asAuto own) v)) =
      some (swap back (reread float (swap (asAuto own) v))) := by
    rw [putBack_auto hreread (asAuto_type hforced.object), hback]
    rfl
  have hread : HasChoice (reread float (swap (asAuto own) v)) := hasChoice_of_own hreread
  constructor
  · rintro ⟨hsame, hreport⟩
    have hdepth := shallow_of_report hquiet hreport
    rw [restored_read hquiet hdepth hput] at hsame
    refine ⟨hdepth, fun key x hx => ?_⟩
    by_cases hkey : key = "tool_choice"
    · rw [hkey, hself] at hx
      obtain rfl := Option.some.inj hx
      exact .inl (hforced.reread float)
    · refine members_of_same hsame ?_ (get?_swap_of_ne hkey _ _).symm hx
      rw [get?_swap_of_ne hkey]
      exact get?_reread float _ key
  · intro hreads
    rw [restored_read hquiet hreads.shallow hput]
    refine ⟨fun key => ?_, rfl⟩
    by_cases hkey : key = "tool_choice"
    · rw [hkey, get?_swap_self hread, hown]
      exact .some hsameBack
    · have hrel := rel_of_members hreads key
      rw [get?_swap_of_ne hkey, get?_reread]
      rwa [get?_swap_of_ne hkey (asAuto own) v] at hrel ⊢

theorem kept_exists (h : encode sj cc decimal ir profile = .ok sent) :
    ∃ kept, encodeWith sj cc decimal keepForced ir profile = .ok kept := by
  cases hrelaxes : relaxes ir with
  | false => exact ⟨sent, encode_same sj cc decimal profile hrelaxes ▸ h⟩
  | true =>
    have hforced : isForced ir.sampling.toolChoice = true :=
      (Bool.and_eq_true_iff.mp (Bool.and_eq_true_iff.mp hrelaxes).2).1
    obtain ⟨own, hown, hchoice⟩ := forcedChoice_exists hforced ir.sampling.parallelToolCalls
    obtain ⟨kept, hkept, -⟩ := encode_relaxed hrelaxes hown hchoice h
    exact ⟨kept, hkept⟩

theorem undone_kept (hkept : encodeWith sj cc decimal keepForced ir profile = .ok kept) :
    Undone sj cc decimal float ir profile body report ↔
      SameBody (restored float ir body report).1 kept.1 ∧ (restored float ir body report).2 = kept.2 := by
  constructor
  · rintro ⟨other, hother, hsame⟩
    rw [hkept] at hother
    rwa [Except.ok.inj hother]
  · intro hsame
    exact ⟨kept, hkept, hsame⟩

/-- Everything but the step on the model holds of what is restored, once that is undone. -/
theorem holds_of_undone {encoded : Value} (hwrote : Wrote ir.sampling encoded)
    (hsent : SentBody profile encoded kept.1)
    (hkept : encodeWith sj cc decimal keepForced ir profile = .ok kept)
    (hundone : Undone sj cc decimal float ir profile body report) :
    RestoreHolds sj cc decimal float ir profile body report ↔
      ¬ (sentThinkingOn ir profile = true ∧ sentForced ir profile = true) := by
  obtain ⟨hsame, -⟩ := (undone_kept hkept).mp hundone
  have hthinking : thinkingOn (restored float ir body report).1 = sentThinkingOn ir profile :=
    (sameBody_thinking hsame).trans (sent_thinking hwrote hsent)
  have hforced : forcedKind (restored float ir body report).1 = sentForced ir profile :=
    (sameBody_forced hsame).trans (sent_forced hwrote hsent)
  constructor
  · intro hholds
    rw [← hthinking, ← hforced]
    exact hholds.thinking
  · intro hfits
    refine ⟨hundone, ?_, ?_, ?_, ?_⟩
    · intro field hfield hfree
      have hrel := hsame field.1
      have hlookup : (extraOf profile).lookup field.1 = some field.2 := by
        cases hprint : profile.fingerprint with
        | none =>
          rw [extraOf, hprint] at hfield
          cases hfield
        | some fp =>
          rw [extraOf, hprint] at hfield ⊢
          exact lookup_of_mem fp.extraOnce hfield
      rwa [hsent.kept _ hfree, hlookup, Option.some_or] at hrel
    · intro key hmem
      have hrel := hsame key
      rw [hsent.forbidden key hmem] at hrel
      generalize (restored float ir body report).1.get? key = found at hrel ⊢
      cases hrel
      rfl
    · rw [hthinking, hforced]
      exact hfits
    · intro source target hother
      exact if_pos hother

/-- Where the body reads back and the profile sent no `auto` of its own, and only there, the
step on the model is undone. -/
theorem undone_iff (float : ℚ → ℚ) (h : encode sj cc decimal ir profile = .ok (body, report))
    (hkept : encodeWith sj cc decimal keepForced ir profile = .ok kept) {encoded : Value}
    (hsent : SentBody profile encoded kept.1) (hquiet : Quiet kept.2) :
    Undone sj cc decimal float ir profile body report ↔
      (relaxes ir = true → ReadsBack float body ∧ profileAuto profile = false) := by
  rw [undone_kept hkept]
  cases hrelaxes : relaxes ir with
  | false =>
    have hsameRun := encode_same sj cc decimal profile hrelaxes
    rw [h, hkept] at hsameRun
    obtain rfl := Except.ok.inj hsameRun
    rw [restored_quiet hquiet]
    exact iff_of_true ⟨sameBody_refl _, rfl⟩ fun hno => absurd hno Bool.false_ne_true
  | true =>
    have hforced : isForced ir.sampling.toolChoice = true :=
      (Bool.and_eq_true_iff.mp (Bool.and_eq_true_iff.mp hrelaxes).2).1
    obtain ⟨own, hown, hchoice⟩ := forcedChoice_exists hforced ir.sampling.parallelToolCalls
    obtain ⟨other, hother, hrelaxed⟩ := encode_relaxed hrelaxes hown hchoice h
    rw [hkept] at hother
    obtain rfl := Except.ok.inj hother
    obtain ⟨before, after, hbefore, hkeptReport, hreport⟩ := hrelaxed.report
    dsimp only at hreport
    rw [hreport, hkeptReport, forall_prop_of_true rfl]
    by_cases hreplaced : Replaced profile
    · have hbody : body = kept.1 := hrelaxed.replaced hreplaced
      rw [hbody]
      exact undone_replaced hforced hbefore (profileAuto_iff hsent hreplaced)
    · obtain ⟨hkeptOwn, hbody⟩ := hrelaxed.own hreplaced
      dsimp only at hbody
      rw [hbody, profileAuto_own hreplaced, undone_own hchoice hbefore hkeptOwn]
      exact (and_iff_left rfl).symm

/-- Restoring undoes the step on the model and nothing else exactly where the body reads
back, the profile writes no `auto` and its thinking and tool choice go together. -/
theorem restore_holds_iff (sj : SerdeJson) (cc : CharCase) (decimal float : ℚ → ℚ) (ir : IrRequest)
    (profile : ResolvedProfile) (body : Value) (report : LossReport)
    (h : encode sj cc decimal ir profile = .ok (body, report)) :
    RestoreHolds sj cc decimal float ir profile body report ↔ Fits float ir profile body := by
  obtain ⟨kept, hkept⟩ := kept_exists h
  obtain ⟨encoded, hwrote, hsent, hquiet⟩ := kept_run hkept
  have hundone := undone_iff float h hkept hsent hquiet
  constructor
  · intro hholds
    have hcondition := hundone.mp hholds.undone
    exact ⟨fun hrelaxes => (hcondition hrelaxes).1, fun hrelaxes => (hcondition hrelaxes).2,
      (holds_of_undone hwrote hsent hkept hholds.undone).mp hholds⟩
  · rintro ⟨hreadable, hauto, hthinking⟩
    have hdone := hundone.mpr fun hrelaxes => ⟨hreadable hrelaxes, hauto hrelaxes⟩
    exact (holds_of_undone hwrote hsent hkept hdone).mpr hthinking

/-- A client that forces a tool on a model that rejects it. -/
def forcedRequest : IrRequest where
  model := "claude-opus-5-5"
  items := [.user [.text "hi"]]
  sampling := { toolChoice := .named "get_weather", parallelToolCalls := some false }

theorem restore_holds_iff_forced : ∃ body report,
    encode flatJson ToolNames.asciiCase id forcedRequest {} = .ok (body, report) ∧
      RestoreHolds flatJson ToolNames.asciiCase id id forcedRequest {} body report := by
  obtain ⟨encoded, h, hdepth⟩ : ∃ encoded, encode flatJson ToolNames.asciiCase id forcedRequest {} =
    .ok encoded ∧ depth encoded.1 ≤ maxDepth := ⟨_, rfl, by decide⟩
  refine ⟨encoded.1, encoded.2, h, ?_⟩
  refine (restore_holds_iff flatJson ToolNames.asciiCase id id forcedRequest {} _ _ h).mpr ?_
  refine ⟨fun _ => ⟨hdepth, fun key v _ => .inl (reread_id v)⟩, fun _ => rfl, ?_⟩
  rintro ⟨hthinking, -⟩
  cases hthinking

def autoProfile : ResolvedProfile where
  fingerprint := some { extraBody := [("tool_choice", .object [("type", "auto")])] }

/-- The restore takes the choice of the profile for a relaxed one. -/
theorem profile_auto_lost : ¬ ∀ (sj : SerdeJson) (cc : CharCase) (decimal float : ℚ → ℚ)
    (ir : IrRequest) (profile : ResolvedProfile) (body : Value) (report : LossReport),
      encode sj cc decimal ir profile = .ok (body, report) →
        RestoreHolds sj cc decimal float ir profile body report := by
  intro hall
  obtain ⟨encoded, h⟩ : ∃ encoded, encode flatJson ToolNames.asciiCase id forcedRequest autoProfile =
    .ok encoded := ⟨_, rfl⟩
  have hholds := hall flatJson ToolNames.asciiCase id id forcedRequest autoProfile _ _ h
  obtain ⟨kept, hkept⟩ := kept_exists h
  obtain ⟨written, -, hsent, hquiet⟩ := kept_run hkept
  have hrelaxes : relaxes forcedRequest = true := by decide
  have hauto := ((undone_iff id h hkept hsent hquiet).mp hholds.undone hrelaxes).2
  revert hauto
  decide

end Wiremux.RestoredRequests
