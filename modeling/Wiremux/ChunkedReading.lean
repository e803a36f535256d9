import Mathlib.Data.List.Basic

set_option autoImplicit false

/-!
# Readers that are fed in chunks

A reading gives the frames it completes and then the state it stops in, or the
error that ended it. A reader is incremental when reading two pieces one after
the other is reading them joined; then the cuts do not matter. A reader that
throws away the frames of the chunk an error is in is incremental up to these.
-/
namespace Wiremux.ChunkedReading

variable {σ τ β φ err : Type*}

abbrev Reading (φ err σ : Type*) := List φ × Except err σ

def andThen (r : Reading φ err σ) (next : σ → Reading φ err τ) : Reading φ err τ :=
  match r.2 with
  | .ok s => (r.1 ++ (next s).1, (next s).2)
  | .error e => (r.1, .error e)

@[simp] theorem andThen_ok (fs : List φ) (s : σ) (next : σ → Reading φ err τ) :
    andThen (fs, .ok s) next = (fs ++ (next s).1, (next s).2) := rfl

@[simp] theorem andThen_error (fs : List φ) (e : err) (next : σ → Reading φ err τ) :
    andThen (fs, .error e) next = (fs, .error e) := rfl

theorem andThen_assoc {ρ : Type*} (r : Reading φ err σ) (f : σ → Reading φ err τ)
    (g : τ → Reading φ err ρ) : andThen (andThen r f) g = andThen r fun s => andThen (f s) g := by
  obtain ⟨fs, e | s⟩ := r
  · rfl
  · simp only [andThen_ok]
    cases hf : f s with
    | mk gs next =>
      cases next with
      | error e => rfl
      | ok t => simp [List.append_assoc]

/-- Feed the chunks in order, up to the first error. -/
def feedAll (feed : σ → List β → Reading φ err σ) : σ → List (List β) → Reading φ err σ
  | s, [] => ([], .ok s)
  | s, c :: cs => andThen (feed s c) fun t => feedAll feed t cs

theorem feedAll_singleton (feed : σ → List β → Reading φ err σ) (s : σ) (c : List β) :
    feedAll feed s [c] = feed s c := by
  rw [feedAll]
  cases feed s c with
  | mk fs next => cases next <;> simp [feedAll]

/-- Reading is reading on, from a state that meets `Valid`. -/
structure Incremental (read : σ → List β → Reading φ err σ) (Valid : σ → Prop) : Prop where
  nil : ∀ s, Valid s → read s [] = ([], .ok s)
  append : ∀ s xs ys, Valid s → read s (xs ++ ys) = andThen (read s xs) fun t => read t ys
  valid : ∀ s xs fs t, Valid s → read s xs = (fs, .ok t) → Valid t

/-- The frames of a chunk that ends in an error of a lost kind are thrown away. -/
def dropLost (lost : err → Bool) : Reading φ err σ → Reading φ err σ
  | (fs, .error e) => (if lost e then [] else fs, .error e)
  | (fs, .ok s) => (fs, .ok s)

def dropping (lost : err → Bool) (read : σ → List β → Reading φ err σ) (s : σ) (xs : List β) :
    Reading φ err σ := dropLost lost (read s xs)

/-- An error throws away frames that were read. -/
def losesFrames (lost : err → Bool) (r : Reading φ err σ) : Prop :=
  r.1 ≠ [] ∧ ∃ e, r.2 = .error e ∧ lost e = true

theorem dropLost_eq {lost : err → Bool} {r : Reading φ err σ} (h : ¬ losesFrames lost r) :
    dropLost lost r = r := by
  obtain ⟨fs, e | s⟩ := r
  · simp only [dropLost]
    split
    · rename_i hlost
      have hnil : fs = [] := by
        by_contra hne
        exact h ⟨hne, e, rfl, hlost⟩
      rw [hnil]
    · rfl
  · rfl

theorem dropLost_lost {lost : err → Bool} {r : Reading φ err σ} (h : losesFrames lost r) :
    (dropLost lost r).1 = [] := by
  obtain ⟨fs, s⟩ := r
  obtain ⟨_, e, heq, hlost⟩ := h
  simp only at heq
  subst heq
  simp [dropLost, hlost]

theorem feedAll_congr {f g : σ → List β → Reading φ err σ} {Valid : σ → Prop}
    (heq : ∀ s xs, Valid s → f s xs = g s xs)
    (hvalid : ∀ s xs fs t, Valid s → g s xs = (fs, .ok t) → Valid t) {s : σ} (hs : Valid s)
    (chunks : List (List β)) : feedAll f s chunks = feedAll g s chunks := by
  induction chunks generalizing s with
  | nil => rfl
  | cons c cs ih =>
    rw [feedAll, feedAll, heq s c hs]
    cases hr : g s c with
    | mk fs next =>
      cases next with
      | error e => rfl
      | ok t => simp only [andThen_ok, ih (hvalid s c fs t hs hr)]

theorem dropping_ok {lost : err → Bool} {read : σ → List β → Reading φ err σ} {s t : σ}
    {xs : List β} {fs : List φ} (h : dropping lost read s xs = (fs, .ok t)) :
    read s xs = (fs, .ok t) := by
  unfold dropping at h
  cases hr : read s xs with
  | mk gs next =>
    rw [hr] at h
    cases next with
    | error e => simp [dropLost] at h
    | ok u => exact h

section
variable {read : σ → List β → Reading φ err σ} {Valid : σ → Prop} {lost : err → Bool}

theorem feedAll_dropLost (h : Incremental read Valid) {s : σ} (hs : Valid s)
    (chunks : List (List β)) (hkept : ¬ losesFrames lost (read s chunks.flatten)) :
    feedAll (dropping lost read) s chunks = read s chunks.flatten := by
  induction chunks generalizing s with
  | nil => exact (h.nil s hs).symm
  | cons c cs ih =>
    rw [List.flatten_cons, h.append s c _ hs] at hkept ⊢
    cases hr : read s c with
    | mk fs next =>
      rw [hr] at hkept
      cases next with
      | error e =>
        have hkeep : ¬ losesFrames lost ((fs, .error e) : Reading φ err σ) := hkept
        rw [feedAll, dropping, hr, dropLost_eq hkeep]
        rfl
      | ok t =>
        have ht := h.valid s c fs t hs hr
        have hrest : ¬ losesFrames lost (read t cs.flatten) := by
          rintro ⟨hne, e, he, hlost⟩
          refine hkept ⟨?_, e, he, hlost⟩
          simp [hne]
        rw [feedAll, dropping, hr]
        simp only [dropLost, andThen_ok, ih ht hrest]

end

end Wiremux.ChunkedReading
