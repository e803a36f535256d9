import Mathlib.Data.List.Basic

set_option autoImplicit false

/-!
# Machines that emit while they read

A step reads one event and returns the outputs it emits with the next state,
or fails. The rules below turn a statement about one step into one about the
outputs of a whole run; `StepsMeet` says that every step of a run is taken in
a state that meets a condition.
-/
namespace Wiremux.EmittingRuns

variable {σ ε φ err α : Type*}

/-- Run over a list from left to right; the first failure ends the run. -/
def runAll (step : σ → ε → Except err (List φ × σ)) :
    σ → List ε → Except err (List φ × σ)
  | s, [] => .ok ([], s)
  | s, ev :: evs =>
    match step s ev with
    | .error e => .error e
    | .ok (out, t) =>
      match runAll step t evs with
      | .error e => .error e
      | .ok (rest, u) => .ok (out ++ rest, u)

/-- Every step of the run over the list is taken where the condition holds. -/
def StepsMeet (step : σ → ε → Except err (List φ × σ)) (G : σ → ε → Prop) :
    σ → List ε → Prop
  | _, [] => True
  | s, ev :: evs => G s ev ∧ ∀ out t, step s ev = .ok (out, t) → StepsMeet step G t evs

theorem StepsMeet.of_forall (step : σ → ε → Except err (List φ × σ)) {G : σ → ε → Prop}
    (s : σ) (evs : List ε) (h : ∀ s, ∀ ev ∈ evs, G s ev) : StepsMeet step G s evs := by
  induction evs generalizing s with
  | nil => trivial
  | cons ev evs ih =>
    refine ⟨h s ev (by simp), fun out t _ => ih t ?_⟩
    intro u e he
    exact h u e (by simp [he])

def allSteps (step : σ → ε → Except err (List φ × σ)) (G : σ → ε → Prop)
    [∀ s ev, Decidable (G s ev)] : σ → List ε → Bool
  | _, [] => true
  | s, ev :: evs =>
    decide (G s ev) &&
      match step s ev with
      | .ok (_, t) => allSteps step G t evs
      | .error _ => true

theorem StepsMeet.of_allSteps {step : σ → ε → Except err (List φ × σ)} {G : σ → ε → Prop}
    [∀ s ev, Decidable (G s ev)] {s : σ} {evs : List ε} (h : allSteps step G s evs = true) :
    StepsMeet step G s evs := by
  induction evs generalizing s with
  | nil => trivial
  | cons ev evs ih =>
    simp only [allSteps, Bool.and_eq_true, decide_eq_true_eq] at h
    refine ⟨h.1, fun out t ht => ih ?_⟩
    simpa only [ht] using h.2

theorem map_eq_ok {f : α → σ} {x : Except err α} {b : σ} (h : x.map f = .ok b) :
    ∃ a, x = .ok a ∧ f a = b := by
  cases x with
  | error e => cases h
  | ok a => exact ⟨a, rfl, Except.ok.inj h⟩

theorem runAll_ok_cons {step : σ → ε → Except err (List φ × σ)} {s t u : σ} {ev : ε}
    {evs : List ε} {out rest : List φ} (h : step s ev = .ok (out, t))
    (hr : runAll step t evs = .ok (rest, u)) :
    runAll step s (ev :: evs) = .ok (out ++ rest, u) := by
  simp only [runAll, h, hr]

/-- A run over two lists is a run over the first, then one over the second. -/
theorem runAll_append_inv {step : σ → ε → Except err (List φ × σ)} {s u : σ} {xs ys : List ε}
    {all : List φ} (h : runAll step s (xs ++ ys) = .ok (all, u)) :
    ∃ out t rest, runAll step s xs = .ok (out, t) ∧ runAll step t ys = .ok (rest, u) ∧
      all = out ++ rest := by
  induction xs generalizing s all with
  | nil => exact ⟨[], s, all, rfl, h, rfl⟩
  | cons ev xs ih =>
    simp only [List.cons_append, runAll] at h
    split at h
    · cases h
    · rename_i first v hstep
      split at h
      · cases h
      · rename_i later w hrun
        simp only [Except.ok.injEq, Prod.mk.injEq] at h
        obtain ⟨rfl, rfl⟩ := h
        obtain ⟨out, t, rest, hxs, hys, rfl⟩ := ih hrun
        exact ⟨first ++ out, t, rest, runAll_ok_cons hstep hxs, hys, (List.append_assoc ..).symm⟩

theorem runAll_ok_invariant {step : σ → ε → Except err (List φ × σ)}
    (I : List ε → List φ → σ → Prop) {s t : σ} {evs : List ε} {out : List φ}
    (h : runAll step s evs = .ok (out, t)) (h0 : I [] [] s)
    (hstep : ∀ before ev out s more t, ev ∈ evs → I before out s → step s ev = .ok (more, t) →
      I (before ++ [ev]) (out ++ more) t) : I evs out t := by
  have main : ∀ before seen s rest, (∀ ev ∈ rest, ev ∈ evs) → I before seen s →
      ∀ {more t}, runAll step s rest = .ok (more, t) → I (before ++ rest) (seen ++ more) t := by
    intro before seen s rest
    induction rest generalizing before seen s with
    | nil =>
      intro _ hI more t hrun
      simp only [runAll, Except.ok.injEq, Prod.mk.injEq] at hrun
      obtain ⟨rfl, rfl⟩ := hrun
      simpa using hI
    | cons ev rest ih =>
      intro hmem hI more t hrun
      simp only [runAll] at hrun
      split at hrun
      · cases hrun
      · rename_i first v hfirst
        split at hrun
        · cases hrun
        · rename_i later w hlater
          simp only [Except.ok.injEq, Prod.mk.injEq] at hrun
          obtain ⟨rfl, rfl⟩ := hrun
          have hnext := hstep before ev seen s first v (hmem ev (by simp)) hI hfirst
          have hend := ih (before ++ [ev]) (seen ++ first) v
            (fun e he => hmem e (by simp [he])) hnext hlater
          simpa using hend
  simpa using main [] [] s evs (fun _ h => h) h0 h

theorem runAll_meets_invariant {step : σ → ε → Except err (List φ × σ)} {G : σ → ε → Prop}
    (I : List ε → List φ → σ → Prop) {s t : σ} {evs : List ε} {out : List φ}
    (h : runAll step s evs = .ok (out, t)) (hG : StepsMeet step G s evs) (h0 : I [] [] s)
    (hstep : ∀ before ev out s more t, I before out s → G s ev → step s ev = .ok (more, t) →
      I (before ++ [ev]) (out ++ more) t) : I evs out t := by
  have main : ∀ rest before seen s, StepsMeet step G s rest → I before seen s →
      ∀ {more t}, runAll step s rest = .ok (more, t) → I (before ++ rest) (seen ++ more) t := by
    intro rest
    induction rest with
    | nil =>
      intro before seen s _ hI more t hrun
      simp only [runAll, Except.ok.injEq, Prod.mk.injEq] at hrun
      obtain ⟨rfl, rfl⟩ := hrun
      simpa using hI
    | cons ev rest ih =>
      intro before seen s hmeet hI more t hrun
      simp only [runAll] at hrun
      split at hrun
      · cases hrun
      · rename_i first u hfirst
        split at hrun
        · cases hrun
        · rename_i later v hlater
          simp only [Except.ok.injEq, Prod.mk.injEq] at hrun
          obtain ⟨rfl, rfl⟩ := hrun
          have hnext := ih (before ++ [ev]) (seen ++ first) u (hmeet.2 first u hfirst)
            (hstep before ev seen s first u hI hmeet.1 hfirst) hlater
          simpa using hnext
  simpa using main evs [] [] s hG h0 h

/-- The run rule. `I before out s` relates the events read, the outputs
emitted and the state; a step taken where `G` holds succeeds and keeps it. -/
theorem runAll_invariant {step : σ → ε → Except err (List φ × σ)} {G : σ → ε → Prop}
    (I : List ε → List φ → σ → Prop) {s : σ} {evs : List ε}
    (hG : StepsMeet step G s evs) (h0 : I [] [] s)
    (hstep : ∀ before ev after out t, evs = before ++ ev :: after → I before out t → G t ev →
      ∃ more u, step t ev = .ok (more, u) ∧ I (before ++ [ev]) (out ++ more) u) :
    ∃ out t, runAll step s evs = .ok (out, t) ∧ I evs out t := by
  have main : ∀ before after out t, evs = before ++ after → StepsMeet step G t after →
      I before out t → ∃ rest u, runAll step t after = .ok (rest, u) ∧ I evs (out ++ rest) u := by
    intro before after
    induction after generalizing before with
    | nil =>
      intro out t he _ hI
      refine ⟨[], t, rfl, ?_⟩
      simpa [he] using hI
    | cons ev after ih =>
      intro out t he hmeet hI
      obtain ⟨more, u, hs, hI'⟩ := hstep before ev after out t he hI hmeet.1
      obtain ⟨rest, v, hr, hend⟩ := ih (before ++ [ev]) (out ++ more) u (by simp [he])
        (hmeet.2 more u hs) hI'
      exact ⟨more ++ rest, v, runAll_ok_cons hs hr, by simpa using hend⟩
  simpa using main [] evs [] s rfl hG h0

def emitEach (f : α → σ → List φ × σ) : List α → σ → List φ × σ
  | [], s => ([], s)
  | a :: as, s =>
    let first := f a s
    let rest := emitEach f as first.2
    (first.1 ++ rest.1, rest.2)

@[simp] theorem emitEach_nil (f : α → σ → List φ × σ) (s : σ) : emitEach f [] s = ([], s) := rfl

theorem emitEach_cons (f : α → σ → List φ × σ) (a : α) (as : List α) (s : σ) :
    emitEach f (a :: as) s =
      ((f a s).1 ++ (emitEach f as (f a s).2).1, (emitEach f as (f a s).2).2) := rfl

theorem emitEach_invariant (f : α → σ → List φ × σ) (I : List α → List φ → σ → Prop)
    (hstep : ∀ a as out s, I (a :: as) out s → I as (out ++ (f a s).1) (f a s).2)
    (as : List α) (out : List φ) (s : σ) (h : I as out s) :
    I [] (out ++ (emitEach f as s).1) (emitEach f as s).2 := by
  induction as generalizing out s with
  | nil => simpa using h
  | cons a as ih =>
    have h' := ih _ _ (hstep a as out s h)
    simpa [emitEach_cons] using h'

end Wiremux.EmittingRuns
