import Mathlib.Data.List.Induction
import Mathlib.Data.Nat.Notation
import Mathlib.Logic.Function.Basic

set_option autoImplicit false

/-!
# A cache of values with a lifetime

A read is served from the cache while the entry of its key is fresh, that is, until
four fifths of its lifetime have passed. Else it asks for a new value, which the rules
of the cache admit or not.
-/
namespace Wiremux.TimedCache

structure Entry (α : Type) where
  value : α
  acquired : ℕ
  /-- `none` is for ever. -/
  lifetime : Option ℕ

/-- What a cache makes of a value that arrives, and what it asks of one it holds. -/
structure Rules (α : Type) where
  admits : ℕ → α → Option (Option ℕ)
  valid : ℕ → α → Bool

/-- A read, with the answer that a request would have now. -/
structure Read (α : Type) where
  key : String
  now : ℕ
  /-- The owner has marked what is held as stale. -/
  marked : Bool
  arrived : ℕ
  answer : Option α

inductive Outcome (α : Type)
  | cached (entry : Entry α)
  | fetched (value : α)
  | failed

abbrev Store (α : Type) := String → Option (Entry α)

section
variable {α : Type} (rules : Rules α)

def Entry.fresh (entry : Entry α) (now : ℕ) : Bool :=
  rules.valid now entry.value &&
    match entry.lifetime with
    | none => true
    | some life => decide (5 * (now - entry.acquired) < 4 * life)

def held (store : Store α) (r : Read α) : Option (Entry α) :=
  if r.marked then none else (store r.key).filter fun entry => entry.fresh rules r.now

def put (store : Store α) (r : Read α) (value : α) : Store α :=
  match rules.admits r.arrived value with
  | none => store
  | some life => Function.update store r.key (some ⟨value, r.arrived, life⟩)

def step (store : Store α) (r : Read α) : Store α × Outcome α :=
  match held rules store r with
  | some entry => (store, .cached entry)
  | none =>
    match r.answer with
    | none => (store, .failed)
    | some value => (put rules store r value, .fetched value)

/-- The store after some reads, empty at first. -/
def after (reads : List (Read α)) : Store α :=
  reads.foldl (fun store r => (step rules store r).1) fun _ => none

def FromReads (reads : List (Read α)) (entry : Entry α) : Prop :=
  ∃ r ∈ reads, r.answer = some entry.value ∧ r.arrived = entry.acquired ∧
    rules.admits entry.acquired entry.value = some entry.lifetime

end

variable {α : Type} {rules : Rules α} {store : Store α} {r : Read α} {entry : Entry α}

theorem step_cached (h : (step rules store r).2 = .cached entry) :
    store r.key = some entry ∧ entry.fresh rules r.now = true := by
  unfold step at h
  split at h
  · rename_i found hheld
    cases h
    unfold held at hheld
    split at hheld
    · cases hheld
    · exact Option.filter_eq_some_iff.mp hheld
  · split at h <;> cases h

theorem step_store (store : Store α) (r : Read α) :
    (step rules store r).1 = store ∨ ∃ value life, r.answer = some value ∧
      rules.admits r.arrived value = some life ∧
      (step rules store r).1 = Function.update store r.key (some ⟨value, r.arrived, life⟩) := by
  unfold step
  split
  · exact .inl rfl
  · split
    · exact .inl rfl
    · rename_i value hanswer
      unfold put
      cases hadmits : rules.admits r.arrived value with
      | none => exact .inl rfl
      | some life => exact .inr ⟨value, life, hanswer, hadmits, rfl⟩

theorem FromReads.mono {reads more : List (Read α)} (h : FromReads rules reads entry) :
    FromReads rules (reads ++ more) entry := by
  obtain ⟨q, hq, hrest⟩ := h
  exact ⟨q, List.mem_append_left _ hq, hrest⟩

/-- A read that finds nothing fresh keeps what it is answered with, where the rules admit it. -/
theorem after_single {value : α} {life : Option ℕ} (hanswer : r.answer = some value)
    (hadmits : rules.admits r.arrived value = some life) :
    after rules [r] r.key = some ⟨value, r.arrived, life⟩ := by
  have hheld : held rules (fun _ => none) r = none := by
    unfold held
    split <;> rfl
  unfold after
  rw [List.foldl_cons, List.foldl_nil, step, hheld, hanswer]
  dsimp only
  rw [put, hadmits]
  exact Function.update_self ..

theorem step_fresh (hmarked : r.marked = false) (hentry : store r.key = some entry)
    (hfresh : entry.fresh rules r.now = true) : (step rules store r).2 = .cached entry := by
  have hheld : held rules store r = some entry := by
    unfold held
    rw [hmarked, if_neg Bool.false_ne_true, hentry]
    exact Option.filter_eq_some_iff.mpr ⟨rfl, hfresh⟩
  rw [step, hheld]

theorem step_fromReads {reads : List (Read α)}
    (h : ∀ key entry, store key = some entry → FromReads rules reads entry) (key : String)
    (hentry : (step rules store r).1 key = some entry) : FromReads rules (reads ++ [r]) entry := by
  rcases step_store store r with hsame | ⟨value, life, hanswer, hadmits, hput⟩
  · rw [hsame] at hentry
    exact (h key entry hentry).mono
  · rw [hput, Function.update_apply] at hentry
    split at hentry
    · cases hentry
      exact ⟨r, List.mem_append_right _ List.mem_cons_self, hanswer, rfl, hadmits⟩
    · exact (h key entry hentry).mono

theorem after_fromReads (reads : List (Read α)) (key : String)
    (h : after rules reads key = some entry) : FromReads rules reads entry := by
  induction reads using List.reverseRecOn generalizing key entry with
  | nil => cases h
  | append_singleton reads r ih =>
    unfold after at h
    rw [List.foldl_append, List.foldl_cons, List.foldl_nil] at h
    exact step_fromReads (fun key entry hkey => ih key hkey) key h

end Wiremux.TimedCache
