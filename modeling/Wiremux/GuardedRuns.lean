import Mathlib.Data.List.Basic

set_option autoImplicit false

/-!
# Runs whose steps meet a condition

A partial step function, a condition on each step, and the states that runs of
steps meeting it reach. What holds at the start and is kept by each such step
holds in every state reached.
-/
namespace Wiremux.GuardedRuns

variable {σ α : Type*}

/-- The states reached from `start` by steps that meet the condition. -/
inductive Reached (step : σ → α → Option σ) (meets : σ → α → Prop) (start : σ) : σ → Prop
  | start : Reached step meets start start
  | next {s s' : σ} {a : α} (before : Reached step meets start s) (met : meets s a)
      (stepped : step s a = some s') : Reached step meets start s'

variable {step : σ → α → Option σ} {meets : σ → α → Prop} {start : σ}

theorem Reached.keeps {P : σ → Prop} (hstart : P start)
    (hstep : ∀ s a s', P s → meets s a → step s a = some s' → P s') {s : σ}
    (h : Reached step meets start s) : P s := by
  induction h with
  | start => exact hstart
  | next before met stepped ih => exact hstep _ _ _ ih met stepped

/-- One action after the other. -/
def run (step : σ → α → Option σ) (s : σ) : List α → Option σ
  | [] => some s
  | a :: rest => (step s a).bind fun s' => run step s' rest

def AllMeet (step : σ → α → Option σ) (meets : σ → α → Prop) (s : σ) : List α → Prop
  | [] => True
  | a :: rest => meets s a ∧ ∀ s', step s a = some s' → AllMeet step meets s' rest

theorem AllMeet.cons {s s' : σ} {a : α} {rest : List α} (h : AllMeet step meets s' rest) (met : meets s a)
    (stepped : step s a = some s') : AllMeet step meets s (a :: rest) :=
  ⟨met, fun _ hs => Option.some.inj (stepped.symm.trans hs) ▸ h⟩

instance decidableAllMeet [∀ s a, Decidable (meets s a)] :
    (s : σ) → (actions : List α) → Decidable (AllMeet step meets s actions)
  | _, [] => .isTrue trivial
  | s, a :: rest =>
    match hs : step s a with
    | none => decidable_of_iff (meets s a) ⟨fun h => ⟨h, fun _ h' => nomatch hs.symm.trans h'⟩, And.left⟩
    | some s' =>
      have := decidableAllMeet s' rest
      decidable_of_iff (meets s a ∧ AllMeet step meets s' rest)
        ⟨fun h => h.2.cons h.1 hs, fun h => ⟨h.1, h.2 s' hs⟩⟩

theorem Reached.run {s last : σ} {actions : List α} (h : Reached step meets start s)
    (hrun : run step s actions = some last) (hmeet : AllMeet step meets s actions) :
    Reached step meets start last := by
  induction actions generalizing s with
  | nil =>
    cases hrun
    exact h
  | cons a rest ih =>
    obtain ⟨mid, hmid, hrest⟩ := Option.bind_eq_some_iff.mp hrun
    exact ih (h.next hmeet.1 hmid) hrest (hmeet.2 mid hmid)

end Wiremux.GuardedRuns
