import Mathlib.Data.List.Basic

set_option autoImplicit false

/-!
# Serial updates of one document

A history of committed changes, each computed from the document the one before it
left. Where nothing that was committed touches a key, the value under it stands.
-/
namespace Wiremux.SerialUpdates

variable {ι D K V : Type*}

/-- Who committed, the document before it and the document it left. -/
structure Commit (ι D : Type*) where
  who : ι
  before : D
  after : D

/-- Each change is applied to the document that the last one left. -/
inductive Serial (change : ι → D → Option D) : D → List (Commit ι D) → D → Prop
  | start (d : D) : Serial change d [] d
  | commit {d mid after : D} {history : List (Commit ι D)} {i : ι}
      (before : Serial change d history mid) (changed : change i mid = some after) :
      Serial change d (history ++ [⟨i, mid, after⟩]) after

variable {change : ι → D → Option D} {get : D → K → V} {touches : ι → D → K → Prop}

/-- A change keeps the value under a key it does not touch. -/
def Frames (change : ι → D → Option D) (get : D → K → V) (touches : ι → D → K → Prop) : Prop :=
  ∀ i before after k, change i before = some after → ¬ touches i before k → get after k = get before k

theorem Serial.untouched (hframes : Frames change get touches) {d last : D}
    {history : List (Commit ι D)} (h : Serial change d history last) {k : K}
    (hk : ∀ c ∈ history, ¬ touches c.who c.before k) : get last k = get d k := by
  induction h with
  | start => rfl
  | commit before changed ih =>
    rename_i mid after front i
    have hlast := hframes i mid after k changed
      (hk ⟨i, mid, after⟩ (List.mem_append_right _ List.mem_cons_self))
    exact hlast.trans (ih fun c hc => hk c (List.mem_append_left _ hc))

/-- A history is its first part, a commit, and what follows from the document left there. -/
theorem Serial.split {d last : D} {history : List (Commit ι D)} (h : Serial change d history last)
    {front back : List (Commit ι D)} {c : Commit ι D} (hsplit : history = front ++ c :: back) :
    Serial change d front c.before ∧ change c.who c.before = some c.after ∧
      Serial change c.after back last := by
  induction h generalizing back with
  | start => simp at hsplit
  | commit before changed ih =>
    rename_i mid after front' i
    rcases List.eq_nil_or_concat back with rfl | ⟨back', final, rfl⟩
    · obtain ⟨rfl, hc⟩ := List.append_inj' hsplit rfl
      obtain rfl := (List.cons.inj hc).1
      exact ⟨before, changed, .start after⟩
    · rw [List.concat_eq_append, ← List.cons_append, ← List.append_assoc] at hsplit
      obtain ⟨hfront, hfinal⟩ := List.append_inj' hsplit rfl
      obtain rfl := (List.cons.inj hfinal).1
      obtain ⟨hfirst, hchange, hback⟩ := ih hfront
      rw [List.concat_eq_append]
      exact ⟨hfirst, hchange, hback.commit changed⟩

theorem Serial.eq_of_nil {d last : D} {history : List (Commit ι D)} (h : Serial change d history last)
    (hnil : history = []) : last = d := by
  cases h with
  | start => rfl
  | commit before changed => simp at hnil

theorem Serial.last_touching (hframes : Frames change get touches) {d last : D}
    {history front back : List (Commit ι D)} {c : Commit ι D} (h : Serial change d history last)
    (hsplit : history = front ++ c :: back) {k : K}
    (hk : ∀ later ∈ back, ¬ touches later.who later.before k) : get last k = get c.after k :=
  (h.split hsplit).2.2.untouched hframes hk

end Wiremux.SerialUpdates
