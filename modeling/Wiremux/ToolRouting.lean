import Wiremux.EncoderState

set_option autoImplicit false

/-!
# Which slot a fragment goes to

`Known t i e` says that the IR index `i` was given the encoded index `e`.
Allocation makes its own slot known and forgets at most older ones; routing
picks a known slot and makes nothing new known.
-/
namespace Wiremux.ToolRouting
open JsonValue StreamEvents EncoderState

def Known (t : ToolSlots) (i e : ℕ) : Prop := e ∈ t.slots i ∨ t.last i = some e

theorem not_known_new (i e : ℕ) : ¬ Known {} i e := by
  rintro (h | h)
  · cases h
  · cases h

theorem known_assign {t : ToolSlots} {i j enc e : ℕ} (h : Known (t.assign i enc) j e) :
    (j = i ∧ e = enc) ∨ Known t j e := by
  by_cases hj : j = i
  · subst hj
    rcases h with h | h
    · simp only [ToolSlots.assign, Function.update_self, List.mem_append,
        List.mem_singleton] at h
      rcases h with h | h
      · split at h
        · cases h
        · exact Or.inr (Or.inl h)
      · exact Or.inl ⟨rfl, h⟩
    · simp only [ToolSlots.assign, Function.update_self, Option.some.injEq] at h
      exact Or.inl ⟨rfl, h.symm⟩
  · right
    simpa [Known, ToolSlots.assign, hj] using h

theorem assign_last (t : ToolSlots) (i enc : ℕ) : (t.assign i enc).last i = some enc := by
  simp [ToolSlots.assign]

theorem assign_last_of_ne (t : ToolSlots) {i j : ℕ} (enc : ℕ) (h : j ≠ i) :
    (t.assign i enc).last j = t.last j := by
  simp [ToolSlots.assign, h]

theorem assign_slots_of_ne (t : ToolSlots) {i j : ℕ} (enc : ℕ) (h : j ≠ i) :
    (t.assign i enc).slots j = t.slots j := by
  simp [ToolSlots.assign, h]

theorem assign_slots_of_nil {t : ToolSlots} {i : ℕ} (enc : ℕ) (h : t.slots i = []) :
    (t.assign i enc).slots i = [enc] := by
  simp [ToolSlots.assign, h]

theorem assign_used (t : ToolSlots) (i enc : ℕ) : (t.assign i enc).used = insert enc t.used := rfl

theorem allocTool_block {s : StreamEncoder} (i : ℕ) (h : s.wire ≠ .chatCompletions) :
    allocTool i s = (s.nextBlock, { s with
      nextBlock := satAdd s.nextBlock 1
      tools := s.tools.assign i s.nextBlock }) := by
  simp only [allocTool, if_neg h]

theorem toolEnc_fst_congr {s t : StreamEncoder} {i : ℕ} (hwire : t.wire = s.wire)
    (htools : t.tools = s.tools) (hnext : t.nextBlock = s.nextBlock) :
    (toolEnc i t).1 = (toolEnc i s).1 := by
  unfold toolEnc
  rw [htools]
  split
  · rfl
  · split
    · rfl
    · simp only [allocTool, hwire, htools, hnext]
      split <;> rfl

theorem toolEnc_route {s : StreamEncoder} (i : ℕ) (h : s.wire ≠ .chatCompletions) :
    (∃ tools, (toolEnc i s).2 = { s with tools := tools }) ∨ (toolEnc i s).1 = s.nextBlock := by
  unfold toolEnc
  split
  · exact Or.inl ⟨_, rfl⟩
  · split
    · exact Or.inl ⟨_, rfl⟩
    · right
      rw [allocTool_block i h]

theorem toolEnc_known {s : StreamEncoder} {i : ℕ} (h : (s.tools.last i).isSome) :
    ∃ enc tools, toolEnc i s = (enc, { s with tools := tools }) ∧ Known s.tools i enc ∧
      (∀ j e, Known tools j e → Known s.tools j e) ∧ tools.last = s.tools.last ∧
      tools.used = s.tools.used := by
  unfold toolEnc
  split
  · rename_i front rest hslots
    refine ⟨_, _, rfl, Or.inl (by simp [hslots]), ?_, rfl, rfl⟩
    rintro j e (hmem | hlast)
    · by_cases hj : j = i
      · subst hj
        left
        simp only [Function.update_self] at hmem
        rw [hslots]
        split at hmem
        · exact List.mem_cons.mpr (Or.inl (List.mem_singleton.mp hmem))
        · exact List.mem_cons_of_mem _ hmem
      · left
        simpa [hj] using hmem
    · exact Or.inr hlast
  · rename_i hslots
    obtain ⟨enc, hlast⟩ := Option.isSome_iff_exists.mp h
    rw [hlast]
    exact ⟨_, _, rfl, Or.inr hlast, fun j e hk => hk, rfl, rfl⟩

theorem toolEnc_single {s : StreamEncoder} {i enc : ℕ} (h : s.tools.slots i = [enc]) :
    ∃ tools, toolEnc i s = (enc, { s with tools := tools }) ∧ tools.slots = s.tools.slots ∧
      tools.last = s.tools.last ∧ tools.used = s.tools.used ∧ tools.next = s.tools.next := by
  unfold toolEnc
  split
  · rename_i front rest hslots
    rw [h] at hslots
    obtain ⟨rfl, rfl⟩ := List.cons.inj hslots
    refine ⟨_, rfl, ?_, rfl, rfl, rfl⟩
    funext j
    by_cases hj : j = i
    · subst hj
      simp [h]
    · simp [hj]
  · rename_i hslots
    rw [h] at hslots
    cases hslots

/-- Each of the indexes has one slot of its own, and no other index has any. -/
structure Slotted (indexes : List ℕ) (t : ToolSlots) : Prop where
  slot : ∀ i ∈ indexes, ∃ enc, t.slots i = [enc] ∧ t.last i = some enc ∧ enc ∈ t.used
  apart : ∀ i ∈ indexes, ∀ j ∈ indexes, t.last i = t.last j → i = j
  vacant : ∀ i, i ∉ indexes → t.slots i = [] ∧ t.last i = none

theorem Slotted.new : Slotted [] {} where
  slot := fun i hi => by cases hi
  apart := fun i hi => by cases hi
  vacant := fun _ _ => ⟨rfl, rfl⟩

theorem Slotted.assign {indexes : List ℕ} {t : ToolSlots} (h : Slotted indexes t) {i enc : ℕ}
    (hi : i ∉ indexes) (henc : enc ∉ t.used) : Slotted (indexes ++ [i]) (t.assign i enc) := by
  have hne : ∀ j ∈ indexes, j ≠ i := fun j hj heq => hi (heq ▸ hj)
  have hmem : ∀ j ∈ indexes ++ [i], j ∈ indexes ∨ j = i := by
    intro j hj
    simpa using hj
  have hfresh : ∀ j ∈ indexes, t.last j ≠ some enc := by
    intro j hj heq
    obtain ⟨e, _, hlast, hused⟩ := h.slot j hj
    rw [hlast] at heq
    exact henc (Option.some.inj heq ▸ hused)
  exact
    { slot := fun j hj => by
        rw [assign_used]
        rcases hmem j hj with hj | rfl
        · obtain ⟨e, hslots, hlast, hused⟩ := h.slot j hj
          rw [assign_slots_of_ne _ _ (hne j hj), assign_last_of_ne _ _ (hne j hj)]
          exact ⟨e, hslots, hlast, Finset.mem_insert_of_mem hused⟩
        · exact ⟨enc, assign_slots_of_nil _ (h.vacant j hi).1, assign_last _ _ _,
            Finset.mem_insert_self _ _⟩
      apart := fun j hj k hk heq => by
        rcases hmem j hj with hj' | hji <;> rcases hmem k hk with hk' | hki
        · rw [assign_last_of_ne _ _ (hne j hj'), assign_last_of_ne _ _ (hne k hk')] at heq
          exact h.apart j hj' k hk' heq
        · rw [assign_last_of_ne _ _ (hne j hj'), hki, assign_last] at heq
          exact absurd heq (hfresh j hj')
        · rw [assign_last_of_ne _ _ (hne k hk'), hji, assign_last] at heq
          exact absurd heq.symm (hfresh k hk')
        · exact hji.trans hki.symm
      vacant := fun j hj => by
        rw [List.mem_append, List.mem_singleton, not_or] at hj
        rw [assign_slots_of_ne _ _ hj.2, assign_last_of_ne _ _ hj.2]
        exact h.vacant j hj.1 }

theorem Slotted.congr {indexes : List ℕ} {t u : ToolSlots} (h : Slotted indexes t)
    (hslots : u.slots = t.slots) (hlast : u.last = t.last) (hused : u.used = t.used) :
    Slotted indexes u where
  slot := by rw [hslots, hlast, hused]; exact h.slot
  apart := by rw [hlast]; exact h.apart
  vacant := by rw [hslots, hlast]; exact h.vacant

theorem Slotted.route {indexes : List ℕ} {s : StreamEncoder} (h : Slotted indexes s.tools)
    {i enc : ℕ} (hi : i ∈ indexes) (hlast : s.tools.last i = some enc) :
    ∃ tools, toolEnc i s = (enc, { s with tools := tools }) ∧ Slotted indexes tools ∧
      tools.last = s.tools.last ∧ tools.used = s.tools.used ∧ tools.next = s.tools.next := by
  obtain ⟨e, hslots, he, _⟩ := h.slot i hi
  obtain rfl : e = enc := Option.some.inj (he.symm.trans hlast)
  obtain ⟨tools, hroute, hkeep, hkeepLast, hused, hnext⟩ := toolEnc_single hslots
  exact ⟨tools, hroute, h.congr hkeep hkeepLast hused, hkeepLast, hused, hnext⟩

end Wiremux.ToolRouting
