import Wiremux.ChoiceLosses

set_option autoImplicit false

/-!
# Another tool choice in the same body

A body with another tool choice is carried through every later step of the encoder: the
settings, the cache and the profile write and take away the same members in both.
-/
namespace Wiremux.ChoiceSwap
open JsonValue Losses Completion MessagesCache MessagesSampling MessagesThinking MessagesMarkers
open MessagesRequests ChoiceLosses

def swap (choice body : Value) : Value := body.insert "tool_choice" choice

def HasChoice (body : Value) : Prop := (body.get? "tool_choice").isSome = true

variable {choice body x y : Value} {key other : String} {fields : List (String × Value)}

theorem hasChoice_of_own {own : Value} (h : body.get? "tool_choice" = some own) : HasChoice body := by
  rw [HasChoice, h]
  rfl

theorem insertField_comm (h : (fields.lookup key).isSome = true) (hne : other ≠ key) (x y : Value) :
    Value.insertField other y (Value.insertField key x fields) =
      Value.insertField key x (Value.insertField other y fields) := by
  induction fields with
  | nil => cases h
  | cons field rest ih =>
    obtain ⟨k, v⟩ := field
    by_cases hk : k = key
    · subst hk
      simp only [Value.insertField, if_pos, if_neg hne.symm]
    · rw [List.lookup_cons, beq_false_of_ne (Ne.symm hk)] at h
      by_cases ho : k = other
      · subst ho
        simp only [Value.insertField, if_neg hk, if_pos]
      · simp only [Value.insertField, if_neg hk, if_neg ho, ih h]

theorem filter_insert_of_ne (hne : other ≠ key) (x : Value) (fields : List (String × Value)) :
    (Value.insertField key x fields).filter (fun f => f.1 ≠ other) =
      Value.insertField key x (fields.filter fun f => f.1 ≠ other) := by
  induction fields with
  | nil => simp [Value.insertField, hne.symm]
  | cons field rest ih =>
    obtain ⟨k, v⟩ := field
    by_cases hk : k = key
    · subst hk
      simp [Value.insertField, hne.symm]
    · by_cases ho : k = other
      · subst ho
        simpa [Value.insertField, hk] using ih
      · simpa [Value.insertField, hk, ho] using ih

theorem strip_insertField (hkey : key ≠ cacheControlKey) (x : Value) (fields : List (String × Value)) :
    stripFields (Value.insertField key x fields) =
      Value.insertField key (stripAllCacheControl x) (stripFields fields) := by
  induction fields with
  | nil => simp [Value.insertField, stripFields, hkey]
  | cons field rest ih =>
    obtain ⟨k, v⟩ := field
    by_cases hk : k = key
    · subst hk
      simp [Value.insertField, stripFields, hkey]
    · by_cases hc : k = cacheControlKey
      · simpa [Value.insertField, stripFields, hk, hc, hkey.symm] using ih
      · simpa [Value.insertField, stripFields, hk, hc] using ih

section
variable (h : HasChoice body)
include h

theorem hasChoice_insert (key : String) (x : Value) : HasChoice (body.insert key x) := by
  by_cases hk : "tool_choice" = key
  · subst hk
    cases body with
    | object fields =>
      rw [HasChoice, Value.get?_insert_self _ _ rfl]
      rfl
    | _ => exact h
  · rw [HasChoice, Value.get?_insert_of_ne _ _ hk]
    exact h

theorem insert_swap (hne : other ≠ "tool_choice") (choice y : Value) :
    (swap choice body).insert other y = swap choice (body.insert other y) := by
  cases body with
  | object fields => exact congrArg Value.object (insertField_comm h hne choice y)
  | _ => cases h

theorem insertSome_swap (hne : other ≠ "tool_choice") (choice : Value) (y : Option Value) :
    (swap choice body).insertSome other y = swap choice (body.insertSome other y) := by
  cases y with
  | none => rfl
  | some y => exact insert_swap h hne choice y

end

theorem get?_swap_of_ne (hne : other ≠ "tool_choice") (choice body : Value) :
    (swap choice body).get? other = body.get? other := Value.get?_insert_of_ne _ _ hne

theorem get?_swap_self (h : HasChoice body) (choice : Value) :
    (swap choice body).get? "tool_choice" = some choice := by
  cases body with
  | object fields => exact Value.get?_insert_self _ _ rfl
  | _ => cases h

theorem isSome_swap (h : HasChoice body) (choice : Value) (key : String) :
    ((swap choice body).get? key).isSome = (body.get? key).isSome := by
  by_cases hk : key = "tool_choice"
  · subst hk
    rw [get?_swap_self h choice]
    exact Eq.symm h
  · rw [get?_swap_of_ne hk]

theorem remove_swap_of_ne (hne : other ≠ "tool_choice") (choice body : Value) :
    (swap choice body).remove other = swap choice (body.remove other) := by
  cases body with
  | object fields => exact congrArg Value.object (filter_insert_of_ne hne choice fields)
  | _ => rfl

theorem remove_swap_self (choice body : Value) :
    (swap choice body).remove "tool_choice" = body.remove "tool_choice" := by
  cases body with
  | object fields => exact congrArg Value.object (filter_insertField "tool_choice" choice fields)
  | _ => rfl

theorem hasChoice_remove (h : HasChoice body) (hne : other ≠ "tool_choice") :
    HasChoice (body.remove other) := by
  rw [HasChoice, CredentialWriteback.get?_remove_of_ne _ hne.symm]
  exact h

theorem late_swap (h : HasChoice body) (s : IrSampling) (choice : Value) :
    lateSettings s (swap choice body) = swap choice (lateSettings s body) := by
  have hconfig : ∀ v, HasChoice v → encodeOutputConfig s (swap choice v) =
      swap choice (encodeOutputConfig s v) ∧ HasChoice (encodeOutputConfig s v) := by
    intro v hv
    unfold encodeOutputConfig
    split
    · exact ⟨rfl, hv⟩
    · exact ⟨insert_swap hv (by decide) choice _, hasChoice_insert hv _ _⟩
  unfold lateSettings
  dsimp only
  rw [get?_swap_of_ne (by decide)]
  split
  · have hmax := hasChoice_insert h "max_tokens" (.number (.posInt defaultCompletionTokens))
    rw [insert_swap h (by decide), (hconfig _ hmax).1]
    exact insertSome_swap (hconfig _ hmax).2 (by decide) _ _
  · rw [(hconfig _ h).1]
    exact insertSome_swap (hconfig _ h).2 (by decide) _ _

theorem lateLosses_swap (s : IrSampling) (o : OtherSettings) (choice body : Value) :
    lateLosses s o (swap choice body) = lateLosses s o body := by
  rw [lateLosses, get?_swap_of_ne (by decide)]
  rfl

section Cache
variable {ttl : Option String}

theorem strip_swap (choice body : Value) : stripAllCacheControl (swap choice body) =
    swap (stripAllCacheControl choice) (stripAllCacheControl body) := by
  cases body with
  | object fields =>
    simp only [swap, Value.insert, stripAllCacheControl]
    exact congrArg Value.object (strip_insertField (by decide) choice fields)
  | _ => simp only [swap, Value.insert, stripAllCacheControl]

theorem tagLastTool_swap (h : HasChoice body) (choice : Value) (ttl : Option String) :
    tagLastTool (swap choice body) ttl = swap choice (tagLastTool body ttl) := by
  unfold tagLastTool
  rw [get?_swap_of_ne (by decide)]
  split
  · exact insert_swap h (by decide) choice _
  · rfl

theorem tagSystemSlot_swap (h : HasChoice body) (choice : Value) (ttl : Option String) (first : Bool) :
    tagSystemSlot (swap choice body) ttl first =
      ((tagSystemSlot body ttl first).1, swap choice (tagSystemSlot body ttl first).2) := by
  unfold tagSystemSlot
  rw [get?_swap_of_ne (by decide)]
  split
  · rfl
  · rw [insert_swap h (by decide)]
  · rw [insert_swap h (by decide)]
  · rw [insert_swap h (by decide)]
  · rfl

theorem tagFirstUserText_swap (h : HasChoice body) (choice : Value) (ttl : Option String) :
    tagFirstUserText (swap choice body) ttl = swap choice (tagFirstUserText body ttl) := by
  unfold tagFirstUserText
  rw [get?_swap_of_ne (by decide)]
  split
  · exact insert_swap h (by decide) choice _
  · rfl

theorem hasChoice_tools (h : HasChoice body) (ttl : Option String) :
    HasChoice (tagLastTool body ttl) := by
  rw [HasChoice, get?_tagLastTool _ (by decide)]
  exact h

theorem hasChoice_system (h : HasChoice body) (ttl : Option String) (first : Bool) :
    HasChoice (tagSystemSlot body ttl first).2 := by
  rw [HasChoice, get?_tagSystemSlot _ _ (by decide)]
  exact h

theorem preferred_swap (h : HasChoice body) (choice : Value) (ttl : Option String) :
    applyPreferredCacheBreakpoints (swap choice body) ttl =
      swap choice (applyPreferredCacheBreakpoints body ttl) := by
  have htools : hasTools (swap choice body) = hasTools body := by
    rw [hasTools, get?_swap_of_ne (by decide)]
    rfl
  unfold applyPreferredCacheBreakpoints
  rw [htools]
  split
  · split
    · rw [tagLastTool_swap h, tagSystemSlot_swap (hasChoice_tools h ttl)]
      dsimp only
      split
      · rfl
      · exact tagFirstUserText_swap (hasChoice_system (hasChoice_tools h ttl) ttl true) choice ttl
    · rw [tagSystemSlot_swap h]
      exact tagFirstUserText_swap (hasChoice_system h ttl true) choice ttl
  · rw [tagSystemSlot_swap h]
    dsimp only
    split
    · exact tagFirstUserText_swap (hasChoice_system h ttl false) choice ttl
    · rw [tagSystemSlot_swap (hasChoice_system h ttl false)]
      exact tagFirstUserText_swap (hasChoice_system (hasChoice_system h ttl false) ttl true) choice ttl

structure Unmarked (choice : Value) : Prop where
  count : countCacheControl choice = 0
  strip : stripAllCacheControl choice = choice

theorem count_swap {own : Value} (hown : body.get? "tool_choice" = some own) (hu : Unmarked own)
    (hchoice : Unmarked choice) : countCacheControl (swap choice body) = countCacheControl body := by
  have hkey : "tool_choice" ≠ cacheControlKey := by decide
  have hcount := count_insert choice hkey hown
  rw [hu.count, hchoice.count] at hcount
  exact hcount

theorem strip_own {own : Value} (hu : Unmarked own) (hown : body.get? "tool_choice" = some own) :
    (stripAllCacheControl body).get? "tool_choice" = some own := by
  rw [get?_strip _ _ (by decide), hown, Option.map_some, hu.strip]

theorem preferred_own {own : Value} (hown : body.get? "tool_choice" = some own) (ttl : Option String) :
    (applyPreferredCacheBreakpoints body ttl).get? "tool_choice" = some own :=
  (get?_applyPreferred _ (by decide)).trans hown

theorem limit_swap {own : Value} (hu : Unmarked own) (hchoice : Unmarked choice)
    (hown : body.get? "tool_choice" = some own) (ttl : Option String) :
    enforceCacheControlLimit (swap choice body) ttl = swap choice (enforceCacheControlLimit body ttl) ∧
      (enforceCacheControlLimit body ttl).get? "tool_choice" = some own := by
  have hstrip := strip_own hu hown
  unfold enforceCacheControlLimit
  rw [count_swap hown hu hchoice]
  split
  · exact ⟨rfl, hown⟩
  · rw [strip_swap, hchoice.strip]
    exact ⟨preferred_swap (hasChoice_of_own hstrip) choice ttl, preferred_own hstrip ttl⟩

/-- What the cache makes of a body, and what it notes, is the same with another choice. -/
structure CachedAs (cache : IrCache) (estimated : ℕ) (own choice body cached : Value)
    (events : LossReport) : Prop where
  own : cached.get? "tool_choice" = some own
  plain : ∀ report, applyCacheBreakpoints body cache estimated report = (cached, report ++ events)
  swapped : ∀ report,
    applyCacheBreakpoints (swap choice body) cache estimated report = (swap choice cached, report ++ events)

theorem cachedAs_exists {own : Value} (hown : body.get? "tool_choice" = some own) (hu : Unmarked own)
    (hchoice : Unmarked choice) (cache : IrCache) (estimated : ℕ) :
    ∃ cached events, CachedAs cache estimated own choice body cached events := by
  by_cases hgate : (!cache.enabled || cache.retention == some "none") = true
  · refine ⟨body, [], hown, ?_, ?_⟩ <;>
    · intro report
      rw [applyCacheBreakpoints, if_pos hgate, List.append_nil]
  by_cases hfloor : belowFloor cache estimated = true
  · refine ⟨body, [⟨"sampling.cache", .drop, "below min_cacheable_tokens floor " ++
      toString (cache.minCacheableTokens.getD 0)⟩], hown, ?_, ?_⟩ <;>
    · intro report
      rw [applyCacheBreakpoints, if_neg hgate, if_pos hfloor]
      rfl
  have hstrip := strip_own hu hown
  obtain ⟨hswap, hafter⟩ := limit_swap hu hchoice (preferred_own hstrip (ttlOf cache.retention))
    (ttlOf cache.retention)
  rw [← preferred_swap (hasChoice_of_own hstrip), ← hchoice.strip, ← strip_swap, hchoice.strip] at hswap
  have hcount := count_swap hafter hu hchoice
  rw [← hswap] at hcount
  by_cases hzero : countCacheControl (enforceCacheControlLimit (applyPreferredCacheBreakpoints
      (stripAllCacheControl body) (ttlOf cache.retention)) (ttlOf cache.retention)) = 0
  · refine ⟨_, [⟨"sampling.cache", .drop, "no cacheable block"⟩], hafter, ?_, ?_⟩ <;> intro report
    · rw [applyCacheBreakpoints, if_neg hgate, if_neg hfloor]
      dsimp only
      rw [if_pos hzero]
      rfl
    · rw [applyCacheBreakpoints, if_neg hgate, if_neg hfloor]
      dsimp only
      rw [hcount, if_pos hzero, hswap]
      rfl
  · refine ⟨_, [⟨"sampling.cache", .preserve, "messages cache"⟩], hafter, ?_, ?_⟩ <;> intro report
    · rw [applyCacheBreakpoints, if_neg hgate, if_neg hfloor]
      dsimp only
      rw [if_neg hzero]
      rfl
    · rw [applyCacheBreakpoints, if_neg hgate, if_neg hfloor]
      dsimp only
      rw [hcount, if_neg hzero, hswap]
      rfl

end Cache

theorem merge_swap (h : HasChoice body) (extra : List (String × Value)) (choice : Value) :
    mergeExtraBody extra (swap choice body) =
        (if "tool_choice" ∈ extra.map Prod.fst then mergeExtraBody extra body
        else swap choice (mergeExtraBody extra body)) ∧
      HasChoice (mergeExtraBody extra body) := by
  induction extra generalizing body with
  | nil => exact ⟨rfl, h⟩
  | cons field rest ih =>
    obtain ⟨key, x⟩ := field
    rw [mergeExtraBody, List.foldl_cons, List.map_cons, mergeExtraBody, List.foldl_cons]
    refine ⟨?_, (ih (hasChoice_insert h key x)).2⟩
    by_cases hk : key = "tool_choice"
    · subst hk
      rw [if_pos List.mem_cons_self]
      dsimp only
      rw [swap, insert_insert]
    · dsimp only
      rw [insert_swap h hk]
      refine (ih (hasChoice_insert h key x)).1.trans ?_
      simp only [List.mem_cons, Ne.symm hk, false_or]
      rfl

theorem foldl_remove_swap (keys : List String) (choice body : Value) :
    keys.foldl Value.remove (swap choice body) =
      if "tool_choice" ∈ keys then keys.foldl Value.remove body
      else swap choice (keys.foldl Value.remove body) := by
  induction keys generalizing body with
  | nil => rfl
  | cons key rest ih =>
    rw [List.foldl_cons, List.foldl_cons]
    by_cases hk : key = "tool_choice"
    · subst hk
      rw [remove_swap_self, if_pos List.mem_cons_self]
    · rw [remove_swap_of_ne hk, ih]
      simp only [List.mem_cons, Ne.symm hk, false_or]

theorem stripLosses_swap (h : HasChoice body) (keys : List String) (choice : Value) :
    stripLosses keys (swap choice body) = stripLosses keys body := by
  induction keys generalizing body with
  | nil => rfl
  | cons key rest ih =>
    rw [stripLosses, stripLosses, isSome_swap h]
    by_cases hk : key = "tool_choice"
    · subst hk
      rw [remove_swap_self]
    · rw [remove_swap_of_ne hk, ih (hasChoice_remove h hk)]

theorem forbidden_swap (h : HasChoice body) (fp : MessagesSampling.Fingerprint) (choice : Value) :
    applyForbiddenFields fp (swap choice body) = (applyForbiddenFields fp body).map fun sent =>
      if "tool_choice" ∈ fp.forbiddenBodyFields then sent else swap choice sent := by
  unfold applyForbiddenFields
  cases fp.forbiddenFieldPolicy with
  | hardError =>
    have hfind : (fp.forbiddenBodyFields.find? fun key => ((swap choice body).get? key).isSome) =
        fp.forbiddenBodyFields.find? fun key => (body.get? key).isSome := by
      congr 1
      funext key
      exact isSome_swap h choice key
    dsimp only
    rw [hfind]
    cases hfound : fp.forbiddenBodyFields.find? fun key => (body.get? key).isSome with
    | some key => rfl
    | none =>
      -- the choice is there, so it is not forbidden
      have hfree : "tool_choice" ∉ fp.forbiddenBodyFields := fun hmem =>
        List.find?_eq_none.mp hfound _ hmem h
      simp only [Except.map, if_neg hfree]
  | strip =>
    simp only [Except.map]
    exact congrArg Except.ok (foldl_remove_swap _ choice body)

end Wiremux.ChoiceSwap
