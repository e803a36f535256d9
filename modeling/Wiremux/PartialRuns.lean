import Mathlib.Data.List.Basic

set_option autoImplicit false

/-!
# Runs that keep what they sent

A step sends some outputs and goes on or fails. A failure ends the run, but
what was sent before it stays sent. Two stages of which the second reads what
the first sends run as one machine.
-/
namespace Wiremux.PartialRuns

variable {σ τ ε φ ψ err α : Type*}

/-- Run over a list from left to right. -/
def runUntil (step : σ → ε → List φ × Except err σ) : σ → List ε → List φ × Except err σ
  | s, [] => ([], .ok s)
  | s, ev :: evs =>
    match step s ev with
    | (out, .error e) => (out, .error e)
    | (out, .ok t) => (out ++ (runUntil step t evs).1, (runUntil step t evs).2)

/-- Go on with another run, unless this one failed. -/
def thenRun (r : List φ × Except err σ) (next : σ → List φ × Except err τ) :
    List φ × Except err τ :=
  match r with
  | (out, .error e) => (out, .error e)
  | (out, .ok s) => (out ++ (next s).1, (next s).2)

theorem runUntil_cons (step : σ → ε → List φ × Except err σ) (s : σ) (ev : ε) (evs : List ε) :
    runUntil step s (ev :: evs) = thenRun (step s ev) fun t => runUntil step t evs := by
  rw [runUntil]
  rcases step s ev with ⟨out, e | t⟩ <;> rfl

theorem runUntil_singleton (step : σ → ε → List φ × Except err σ) (s : σ) (ev : ε) :
    runUntil step s [ev] = step s ev := by
  rw [runUntil]
  rcases step s ev with ⟨out, e | t⟩ <;> simp [runUntil]

theorem thenRun_assoc {υ : Type*} (r : List φ × Except err σ) (f : σ → List φ × Except err τ)
    (g : τ → List φ × Except err υ) :
    thenRun (thenRun r f) g = thenRun r fun s => thenRun (f s) g := by
  rcases r with ⟨out, e | s⟩
  · rfl
  · rcases hf : f s with ⟨more, e | t⟩ <;> simp [thenRun, hf, List.append_assoc]

theorem runUntil_append (step : σ → ε → List φ × Except err σ) (s : σ) (xs ys : List ε) :
    runUntil step s (xs ++ ys) = thenRun (runUntil step s xs) fun t => runUntil step t ys := by
  induction xs generalizing s with
  | nil => rfl
  | cons x xs ih =>
    rw [List.cons_append, runUntil_cons, runUntil_cons, thenRun_assoc]
    congr 1
    funext t
    exact ih t

def both (second : Except err τ) (first : Except err σ) : Except err (σ × τ) :=
  match second, first with
  | .error e, _ => .error e
  | .ok _, .error e => .error e
  | .ok t, .ok s => .ok (s, t)

theorem both_ok {second : Except err τ} {first : Except err σ} {s : σ} {t : τ}
    (h : both second first = .ok (s, t)) : second = .ok t ∧ first = .ok s := by
  unfold both at h
  split at h
  · cases h
  · cases h
  · cases h
    exact ⟨rfl, rfl⟩

def pipe (f : σ → ε → List φ × Except err σ) (g : τ → φ → List ψ × Except err τ)
    (s : σ × τ) (ev : ε) : List ψ × Except err (σ × τ) :=
  let a := f s.1 ev
  let b := runUntil g s.2 a.1
  (b.1, both b.2 a.2)

/-- Two stages step by step are the second one over all the first one sends. -/
theorem runUntil_pipe (f : σ → ε → List φ × Except err σ) (g : τ → φ → List ψ × Except err τ)
    (s : σ) (t : τ) (evs : List ε) :
    runUntil (pipe f g) (s, t) evs =
      ((runUntil g t (runUntil f s evs).1).1,
        both (runUntil g t (runUntil f s evs).1).2 (runUntil f s evs).2) := by
  induction evs generalizing s t with
  | nil => rfl
  | cons ev evs ih =>
    rw [runUntil, runUntil_cons f]
    rcases hf : f s ev with ⟨out, e | s'⟩
    · rcases hg : runUntil g t out with ⟨sent, e' | t'⟩ <;> simp [pipe, hf, hg, both, thenRun]
    · rcases hg : runUntil g t out with ⟨sent, e' | t'⟩
      · simp [pipe, hf, hg, both, thenRun, runUntil_append]
      · simp [pipe, hf, hg, both, thenRun, runUntil_append, ih]

theorem runUntil_view {step : σ → ε → List φ × Except err σ} {step' : τ → ε → List φ × Except err τ}
    (view : σ → τ) (h : ∀ s ev, step' (view s) ev = ((step s ev).1, (step s ev).2.map view))
    (s : σ) (evs : List ε) :
    runUntil step' (view s) evs = ((runUntil step s evs).1, (runUntil step s evs).2.map view) := by
  induction evs generalizing s with
  | nil => rfl
  | cons ev evs ih =>
    rw [runUntil, runUntil, h]
    rcases hstep : step s ev with ⟨out, e | t⟩
    · rfl
    · simp only [Except.map, ih]

/-- What holds of the inputs read holds, with the state, of all that is sent. -/
theorem runUntil_invariant {step : σ → ε → List φ × Except err σ} (I : σ → Prop) (P : φ → Prop)
    {evs : List ε} (hstep : ∀ s, ∀ ev ∈ evs, I s →
      (∀ f ∈ (step s ev).1, P f) ∧ ∀ t, (step s ev).2 = .ok t → I t)
    {s : σ} (hs : I s) :
    (∀ f ∈ (runUntil step s evs).1, P f) ∧ ∀ t, (runUntil step s evs).2 = .ok t → I t := by
  induction evs generalizing s with
  | nil =>
    refine ⟨List.forall_mem_nil _, fun t ht => ?_⟩
    cases ht
    exact hs
  | cons ev evs ih =>
    obtain ⟨hsent, hnext⟩ := hstep s ev List.mem_cons_self hs
    rw [runUntil]
    rcases hev : step s ev with ⟨out, e | t⟩
    · rw [hev] at hsent
      exact ⟨hsent, fun t ht => by cases ht⟩
    · rw [hev] at hsent hnext
      obtain ⟨hrest, hlast⟩ := ih (fun s ev hmem => hstep s ev (List.mem_cons_of_mem _ hmem))
        (hnext t rfl)
      refine ⟨fun f hf => ?_, hlast⟩
      rcases List.mem_append.mp hf with hf | hf
      · exact hsent f hf
      · exact hrest f hf

def beforeError (step : σ → ε → List φ × Except err σ) : σ → List ε → List ε
  | _, [] => []
  | s, ev :: evs =>
    match (step s ev).2 with
    | .error _ => []
    | .ok t => ev :: beforeError step t evs

theorem beforeError_starts (step : σ → ε → List φ × Except err σ) (s : σ) (evs : List ε) :
    beforeError step s evs <+: evs := by
  induction evs generalizing s with
  | nil => exact List.nil_prefix
  | cons ev evs ih =>
    rw [beforeError]
    split
    · exact List.nil_prefix
    · exact List.cons_prefix_cons.mpr ⟨rfl, ih _⟩

theorem beforeError_ok {step : σ → ε → List φ × Except err σ} {s t : σ} {evs : List ε}
    (h : (runUntil step s evs).2 = .ok t) : beforeError step s evs = evs := by
  induction evs generalizing s with
  | nil => rfl
  | cons ev evs ih =>
    rw [runUntil] at h
    rw [beforeError]
    rcases hev : step s ev with ⟨out, e | next⟩
    · rw [hev] at h
      cases h
    · rw [hev] at h
      exact congrArg (ev :: ·) (ih h)

/-- A machine that sends nothing where it fails sends what it makes of these inputs. -/
theorem runUntil_beforeError (step : σ → ε → List φ × Except err σ)
    (hsilent : ∀ s ev e, (step s ev).2 = .error e → (step s ev).1 = []) (s : σ) (evs : List ε) :
    ∃ t, runUntil step s (beforeError step s evs) = ((runUntil step s evs).1, .ok t) := by
  induction evs generalizing s with
  | nil => exact ⟨s, rfl⟩
  | cons ev evs ih =>
    rw [beforeError, runUntil]
    rcases hev : step s ev with ⟨out, e | next⟩
    · refine ⟨s, Prod.ext ?_ rfl⟩
      have hnone := hsilent s ev e (by rw [hev])
      rw [hev] at hnone
      exact hnone.symm
    · obtain ⟨t, ht⟩ := ih next
      refine ⟨t, ?_⟩
      simp only [runUntil, hev, ht]

end Wiremux.PartialRuns
