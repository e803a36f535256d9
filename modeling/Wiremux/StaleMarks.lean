import Mathlib.Data.List.Basic
import Mathlib.Tactic.Common

set_option autoImplicit false

/-!
# A record of stale marks and deliveries

What a cache held at each mark, and each delivery of a token with the number of
marks made before it. A token is stale for a reader that starts after `n` marks
where one of these marks was put on it and nothing delivered it again since.
-/
namespace Wiremux.StaleMarks

variable {κ : Type*}

/-- The cached token at each mark, and each token delivered with the marks made before. -/
structure Ledger (κ : Type*) where
  marked : List (Option κ) := []
  delivered : List (κ × ℕ) := []

namespace Ledger

def marks (L : Ledger κ) : ℕ := L.marked.length

def mark (L : Ledger κ) (cached : Option κ) : Ledger κ :=
  { L with marked := L.marked ++ [cached] }

def deliver (L : Ledger κ) (token : κ) : Ledger κ :=
  { L with delivered := (token, L.marks) :: L.delivered }

/-- Some mark before the `n`-th was put on the token, and no delivery came after it. -/
def Stale (L : Ledger κ) (n : ℕ) (token : κ) : Prop :=
  ∃ m < n, L.marked[m]? = some (some token) ∧ ∀ e, (token, e) ∈ L.delivered → e ≤ m

variable {L : Ledger κ} {n k : ℕ} {token other : κ}

@[simp] theorem marks_mark (x : Option κ) : (L.mark x).marks = L.marks + 1 := by
  simp [marks, mark]

@[simp] theorem marks_deliver : (L.deliver token).marks = L.marks := rfl

theorem Stale.mono (h : L.Stale n token) (hn : n ≤ k) : L.Stale k token := by
  obtain ⟨m, hm, hrest⟩ := h
  exact ⟨m, Nat.lt_of_lt_of_le hm hn, hrest⟩

theorem stale_mark {x : Option κ} (hn : n ≤ L.marks) : (L.mark x).Stale n token ↔ L.Stale n token := by
  have hsame : ∀ m < n, (L.mark x).marked[m]? = L.marked[m]? :=
    fun m hm => List.getElem?_append_left (Nat.lt_of_lt_of_le hm hn)
  constructor
  · rintro ⟨m, hm, hmarked, hrest⟩
    exact ⟨m, hm, hsame m hm ▸ hmarked, hrest⟩
  · rintro ⟨m, hm, hmarked, hrest⟩
    exact ⟨m, hm, (hsame m hm).trans hmarked, hrest⟩

theorem Stale.of_deliver (h : (L.deliver other).Stale n token) : L.Stale n token := by
  obtain ⟨m, hm, hmarked, hrest⟩ := h
  exact ⟨m, hm, hmarked, fun e he => hrest e (List.mem_cons_of_mem _ he)⟩

theorem not_stale_deliver (hn : n ≤ L.marks) : ¬ (L.deliver token).Stale n token := by
  rintro ⟨m, hm, -, hrest⟩
  have := hrest L.marks List.mem_cons_self
  omega

theorem not_stale_zero : ¬ L.Stale 0 token := by
  rintro ⟨m, hm, -⟩
  omega

end Ledger
end Wiremux.StaleMarks
