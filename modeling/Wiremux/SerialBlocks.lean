import Mathlib.Data.List.Basic
import Mathlib.Data.List.Nodup

set_option autoImplicit false

/-!
# Serial blocks

A trace of marks that opens and closes blocks one at a time. `Serial R ms live`
is the trace so far with the block that is open; each new block must be
`R`-related to every block started before it. `WellFormed` states what a
finished trace promises, in terms of the trace alone.
-/
namespace Wiremux.SerialBlocks

variable {ι : Type*}

inductive Mark (ι : Type*) where
  | head
  | start (i : ι)
  | delta (i : ι)
  | stop (i : ι)
  | tail (k : ℕ)
  | silent

namespace Mark

def startOf? : Mark ι → Option ι
  | start i => some i
  | _ => none

def stopOf? : Mark ι → Option ι
  | stop i => some i
  | _ => none

def isHead : Mark ι → Bool
  | head => true
  | _ => false

def isTail : Mark ι → Bool
  | tail _ => true
  | _ => false

end Mark

def starts (ms : List (Mark ι)) : List ι := ms.filterMap Mark.startOf?

def stops (ms : List (Mark ι)) : List ι := ms.filterMap Mark.stopOf?

@[simp] theorem starts_append (as bs : List (Mark ι)) :
    starts (as ++ bs) = starts as ++ starts bs := List.filterMap_append

@[simp] theorem stops_append (as bs : List (Mark ι)) :
    stops (as ++ bs) = stops as ++ stops bs := List.filterMap_append

@[simp] theorem starts_nil : starts ([] : List (Mark ι)) = [] := rfl
@[simp] theorem stops_nil : stops ([] : List (Mark ι)) = [] := rfl

@[simp] theorem starts_head (ms : List (Mark ι)) : starts (.head :: ms) = starts ms := rfl
@[simp] theorem starts_start (i : ι) (ms : List (Mark ι)) :
    starts (.start i :: ms) = i :: starts ms := rfl
@[simp] theorem starts_delta (i : ι) (ms : List (Mark ι)) :
    starts (.delta i :: ms) = starts ms := rfl
@[simp] theorem starts_stop (i : ι) (ms : List (Mark ι)) :
    starts (.stop i :: ms) = starts ms := rfl
@[simp] theorem starts_tail (k : ℕ) (ms : List (Mark ι)) :
    starts (.tail k :: ms) = starts ms := rfl
@[simp] theorem starts_silent (ms : List (Mark ι)) : starts (.silent :: ms) = starts ms := rfl

@[simp] theorem stops_head (ms : List (Mark ι)) : stops (.head :: ms) = stops ms := rfl
@[simp] theorem stops_start (i : ι) (ms : List (Mark ι)) : stops (.start i :: ms) = stops ms := rfl
@[simp] theorem stops_delta (i : ι) (ms : List (Mark ι)) : stops (.delta i :: ms) = stops ms := rfl
@[simp] theorem stops_stop (i : ι) (ms : List (Mark ι)) :
    stops (.stop i :: ms) = i :: stops ms := rfl
@[simp] theorem stops_tail (k : ℕ) (ms : List (Mark ι)) : stops (.tail k :: ms) = stops ms := rfl
@[simp] theorem stops_silent (ms : List (Mark ι)) : stops (.silent :: ms) = stops ms := rfl

def tails (ι : Type*) (n : ℕ) : List (Mark ι) := (List.range n).map .tail

theorem startOf?_of_mem_tails {n : ℕ} {m : Mark ι} (h : m ∈ tails ι n) :
    m.startOf? = none ∧ m.stopOf? = none := by
  obtain ⟨k, _, rfl⟩ := List.mem_map.mp h
  exact ⟨rfl, rfl⟩

@[simp] theorem starts_tails (n : ℕ) : starts (tails ι n) = [] :=
  List.filterMap_eq_nil_iff.mpr fun _ hm => (startOf?_of_mem_tails hm).1

@[simp] theorem stops_tails (n : ℕ) : stops (tails ι n) = [] :=
  List.filterMap_eq_nil_iff.mpr fun _ hm => (startOf?_of_mem_tails hm).2

/-- What a finished trace promises. -/
structure WellFormed (R : ι → ι → Prop) (n : ℕ) (ms : List (Mark ι)) : Prop where
  /-- The head is first and there is no other. -/
  head_first : ∃ rest, ms = .head :: rest ∧ ∀ m ∈ rest, m.isHead = false
  /-- The closing marks stand once each, at the end. -/
  tails_last : ∃ body, ms = body ++ tails ι n ∧ ∀ m ∈ body, m.isTail = false
  started_once : (starts ms).Pairwise R
  /-- A block is started only when every earlier one is stopped. -/
  no_overlap : ∀ a i b, ms = a ++ .start i :: b → starts a = stops a
  /-- A delta names the one block that is started and not stopped. -/
  delta_open : ∀ a i b, ms = a ++ .delta i :: b → starts a = stops a ++ [i]
  stop_open : ∀ a i b, ms = a ++ .stop i :: b → starts a = stops a ++ [i]
  all_stopped : stops ms = starts ms

def InPlace (a : List (Mark ι)) : Mark ι → Prop
  | .start _ => starts a = stops a
  | .delta i => starts a = stops a ++ [i]
  | .stop i => starts a = stops a ++ [i]
  | _ => True

inductive Serial (R : ι → ι → Prop) : List (Mark ι) → Option ι → Prop
  | head : Serial R [.head] none
  | start {ms : List (Mark ι)} {i : ι} : Serial R ms none → (∀ j ∈ starts ms, R j i) →
      Serial R (ms ++ [.start i]) (some i)
  | delta {ms : List (Mark ι)} {i : ι} : Serial R ms (some i) →
      Serial R (ms ++ [.delta i]) (some i)
  | stop {ms : List (Mark ι)} {i : ι} : Serial R ms (some i) → Serial R (ms ++ [.stop i]) none
  | silent {ms : List (Mark ι)} {live : Option ι} : Serial R ms live →
      Serial R (ms ++ [.silent]) live

theorem append_singleton_eq {α : Type*} {xs as bs : List α} {x y : α}
    (h : xs ++ [x] = as ++ y :: bs) :
    (bs = [] ∧ xs = as ∧ x = y) ∨ ∃ bs', bs = bs' ++ [x] ∧ xs = as ++ y :: bs' := by
  rcases List.eq_nil_or_concat bs with rfl | ⟨bs', z, rfl⟩
  · obtain ⟨h1, h2⟩ := List.append_inj' h rfl
    exact Or.inl ⟨rfl, h1, by simpa using h2⟩
  · have h' : xs ++ [x] = (as ++ y :: bs') ++ [z] := by simpa using h
    obtain ⟨h1, h2⟩ := List.append_inj' h' rfl
    obtain rfl : x = z := by simpa using h2
    exact Or.inr ⟨bs', by simp, h1⟩

namespace Serial

variable {R : ι → ι → Prop} {n : ℕ} {ms : List (Mark ι)} {live : Option ι}

theorem starts_of_deltas {i : ι} {ds : List (Mark ι)} (hds : ∀ m ∈ ds, m = .delta i) :
    starts ds = [] :=
  List.filterMap_eq_nil_iff.mpr fun m hm => by rw [hds m hm]; rfl

theorem starts_eq (h : Serial R ms live) : starts ms = stops ms ++ live.toList := by
  induction h with
  | head => rfl
  | start _ _ ih => simpa using ih
  | delta _ ih => simpa using ih
  | stop _ ih => simpa using ih
  | silent _ ih => simpa using ih

theorem started_once (h : Serial R ms live) : (starts ms).Pairwise R := by
  induction h with
  | head => exact List.Pairwise.nil
  | start _ hfresh ih =>
    rw [starts_append, List.pairwise_append]
    refine ⟨ih, List.pairwise_singleton _ _, ?_⟩
    intro j hj k hk
    obtain rfl : k = _ := by simpa using hk
    exact hfresh j hj
  | delta _ ih => simpa using ih
  | stop _ ih => simpa using ih
  | silent _ ih => simpa using ih

theorem head_first (h : Serial R ms live) :
    ∃ rest, ms = .head :: rest ∧ ∀ m ∈ rest, m.isHead = false ∧ m.isTail = false := by
  have extend : ∀ {xs : List (Mark ι)} {m : Mark ι}, m.isHead = false → m.isTail = false →
      (∃ rest, xs = .head :: rest ∧ ∀ m ∈ rest, m.isHead = false ∧ m.isTail = false) →
      ∃ rest, xs ++ [m] = .head :: rest ∧ ∀ m ∈ rest, m.isHead = false ∧ m.isTail = false := by
    rintro xs m hh ht ⟨rest, rfl, hrest⟩
    refine ⟨rest ++ [m], rfl, fun x hx => ?_⟩
    rcases List.mem_append.mp hx with hx | hx
    · exact hrest x hx
    · obtain rfl : x = m := by simpa using hx
      exact ⟨hh, ht⟩
  induction h with
  | head => exact ⟨[], rfl, by simp⟩
  | start _ _ ih => exact extend rfl rfl ih
  | delta _ ih => exact extend rfl rfl ih
  | stop _ ih => exact extend rfl rfl ih
  | silent _ ih => exact extend rfl rfl ih

theorem inPlace (h : Serial R ms live) {a b : List (Mark ι)} {m : Mark ι}
    (hm : ms = a ++ m :: b) : InPlace a m := by
  induction h generalizing b with
  | head =>
    have hlen := congrArg List.length hm
    obtain ⟨rfl, rfl⟩ : a = [] ∧ b = [] := by
      simp only [List.length_append, List.length_cons, List.length_nil] at hlen
      exact ⟨List.length_eq_zero_iff.mp (by omega), List.length_eq_zero_iff.mp (by omega)⟩
    obtain rfl : Mark.head = m := by simpa using hm
    trivial
  | start hms _ ih =>
    rcases append_singleton_eq hm with ⟨_, rfl, rfl⟩ | ⟨b', _, hb⟩
    · simpa [InPlace] using hms.starts_eq
    · exact ih hb
  | delta hms ih =>
    rcases append_singleton_eq hm with ⟨_, rfl, rfl⟩ | ⟨b', _, hb⟩
    · simpa [InPlace] using hms.starts_eq
    · exact ih hb
  | stop hms ih =>
    rcases append_singleton_eq hm with ⟨_, rfl, rfl⟩ | ⟨b', _, hb⟩
    · simpa [InPlace] using hms.starts_eq
    · exact ih hb
  | silent hms ih =>
    rcases append_singleton_eq hm with ⟨_, rfl, rfl⟩ | ⟨b', _, hb⟩
    · trivial
    · exact ih hb

theorem deltas {i : ι} (ds : List (Mark ι)) (hds : ∀ m ∈ ds, m = .delta i)
    (h : Serial R ms (some i)) : Serial R (ms ++ ds) (some i) := by
  induction ds generalizing ms with
  | nil => simpa using h
  | cons m ds ih =>
    obtain rfl : m = .delta i := hds m (by simp)
    have := ih (fun m hm => hds m (by simp [hm])) h.delta
    simpa using this

theorem block {i : ι} (h : Serial R ms none) (hfresh : ∀ j ∈ starts ms, R j i)
    {ds : List (Mark ι)} (hds : ∀ m ∈ ds, m = .delta i) :
    Serial R (ms ++ .start i :: (ds ++ [.stop i])) none := by
  have := ((h.start hfresh).deltas ds hds).stop
  simpa using this

theorem wellFormed (h : Serial R ms none) (n : ℕ) : WellFormed R n (ms ++ tails ι n) := by
  obtain ⟨rest, hrest, hmarks⟩ := h.head_first
  have split : ∀ {a b : List (Mark ι)} {m : Mark ι}, m.isTail = false →
      ms ++ tails ι n = a ++ m :: b → ∃ b', ms = a ++ m :: b' := by
    intro a b m hm heq
    rcases List.append_eq_append_iff.mp heq with ⟨c, rfl, hc⟩ | ⟨c, rfl, hc⟩
    · have hmem : m ∈ tails ι n := by rw [hc]; simp
      obtain ⟨k, _, rfl⟩ := List.mem_map.mp hmem
      simp [Mark.isTail] at hm
    · cases c with
      | nil =>
        have hmem : m ∈ tails ι n := by rw [← List.nil_append (tails ι n), ← hc]; simp
        obtain ⟨k, _, rfl⟩ := List.mem_map.mp hmem
        simp [Mark.isTail] at hm
      | cons x c =>
        obtain ⟨rfl, _⟩ := List.cons.inj hc
        exact ⟨c, rfl⟩
  exact
    { head_first := by
        refine ⟨rest ++ tails ι n, by simp [hrest], fun m hm => ?_⟩
        rcases List.mem_append.mp hm with hm | hm
        · exact (hmarks m hm).1
        · obtain ⟨k, _, rfl⟩ := List.mem_map.mp hm
          rfl
      tails_last := by
        refine ⟨ms, rfl, fun m hm => ?_⟩
        rw [hrest] at hm
        rcases List.mem_cons.mp hm with rfl | hm
        · rfl
        · exact (hmarks m hm).2
      started_once := by simpa using h.started_once
      no_overlap := fun a i b heq => by
        obtain ⟨b', hb⟩ := split rfl heq
        exact h.inPlace hb
      delta_open := fun a i b heq => by
        obtain ⟨b', hb⟩ := split rfl heq
        exact h.inPlace hb
      stop_open := fun a i b heq => by
        obtain ⟨b', hb⟩ := split rfl heq
        exact h.inPlace hb
      all_stopped := by simpa using h.starts_eq.symm }

end Serial

end Wiremux.SerialBlocks
