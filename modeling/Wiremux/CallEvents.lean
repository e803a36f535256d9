import Mathlib.Data.List.Nodup
import Wiremux.StreamEvents

set_option autoImplicit false

/-!
# The calls of an event list

What the input says: which calls start, in which order, and what text their
fragments add up to. Fragments belong to a call by its index.
-/
namespace Wiremux.CallEvents
open StreamEvents

def joined (texts : List String) : String := texts.foldr (· ++ ·) ""

@[simp] theorem joined_nil : joined [] = "" := rfl

@[simp] theorem joined_cons (t : String) (ts : List String) : joined (t :: ts) = t ++ joined ts :=
  rfl

@[simp] theorem joined_append (ts us : List String) : joined (ts ++ us) = joined ts ++ joined us := by
  induction ts with
  | nil => simp
  | cons t ts ih => simp [ih, String.append_assoc]

theorem joined_eq_empty {ts : List String} (h : joined ts = "") : ∀ t ∈ ts, t = "" := by
  induction ts with
  | nil => simp
  | cons t ts ih =>
    obtain ⟨ht, hts⟩ := String.append_eq_empty_iff.mp h
    intro u hu
    rcases List.mem_cons.mp hu with rfl | hu
    · exact ht
    · exact ih hts u hu

structure CallStart where
  id : String
  name : String
  index : ℕ
  custom : Bool
deriving DecidableEq

structure Fragment where
  index : ℕ
  custom : Bool
  text : String
deriving DecidableEq

def startOf? : IrStreamEvent → Option CallStart
  | .toolCallStart id name _ index => some ⟨id, name, index, false⟩
  | .customToolCallStart id name index => some ⟨id, name, index, true⟩
  | _ => none

def fragmentOf? : IrStreamEvent → Option Fragment
  | .toolCallArgDelta delta index => some ⟨index, false, delta⟩
  | .customToolCallInputDelta delta index => some ⟨index, true, delta⟩
  | _ => none

/-- The calls, in the order they start. -/
def startsOf (evs : List IrStreamEvent) : List CallStart := evs.filterMap startOf?

def fragmentsAt (index : ℕ) (evs : List IrStreamEvent) : String :=
  joined (((evs.filterMap fragmentOf?).filter (fun f => f.index = index)).map Fragment.text)

@[simp] theorem startsOf_nil : startsOf [] = [] := rfl

@[simp] theorem startsOf_append (as bs : List IrStreamEvent) :
    startsOf (as ++ bs) = startsOf as ++ startsOf bs := List.filterMap_append

theorem startsOf_single (ev : IrStreamEvent) : startsOf [ev] = (startOf? ev).toList := by
  cases h : startOf? ev <;> simp [startsOf, h]

@[simp] theorem fragmentsAt_nil (index : ℕ) : fragmentsAt index [] = "" := rfl

@[simp] theorem fragmentsAt_append (index : ℕ) (as bs : List IrStreamEvent) :
    fragmentsAt index (as ++ bs) = fragmentsAt index as ++ fragmentsAt index bs := by
  simp [fragmentsAt]

theorem fragmentsAt_single_none {ev : IrStreamEvent} (index : ℕ) (h : fragmentOf? ev = none) :
    fragmentsAt index [ev] = "" := by
  simp [fragmentsAt, h]

theorem fragmentsAt_single {ev : IrStreamEvent} {f : Fragment} (index : ℕ)
    (h : fragmentOf? ev = some f) :
    fragmentsAt index [ev] = if f.index = index then f.text else "" := by
  by_cases hi : f.index = index <;> simp [fragmentsAt, h, hi]

def isDone : IrStreamEvent → Bool
  | .done => true
  | _ => false

def live (evs : List IrStreamEvent) : List IrStreamEvent := evs.takeWhile fun ev => !isDone ev

def late (evs : List IrStreamEvent) : List IrStreamEvent := evs.dropWhile fun ev => !isDone ev

theorem live_append_late (evs : List IrStreamEvent) : live evs ++ late evs = evs :=
  List.takeWhile_append_dropWhile

theorem live_snoc (evs : List IrStreamEvent) (ev : IrStreamEvent) : live (evs ++ [ev]) =
    if evs.any isDone = true then live evs else if isDone ev = true then evs else evs ++ [ev] := by
  induction evs with
  | nil => cases hev : isDone ev <;> simp [live, hev]
  | cons e evs ih =>
    cases he : isDone e with
    | true => simp [live, he]
    | false =>
      have hcons : ∀ xs, live (e :: xs) = e :: live xs := by
        intro xs
        simp [live, he]
      simp only [List.cons_append, hcons, ih, List.any_cons, he, Bool.false_or]
      split
      · rfl
      · split <;> rfl

/-- An event that starts no call and adds no text. -/
def isQuiet (ev : IrStreamEvent) : Prop :=
  startOf? ev = none ∧ ∀ f ∈ fragmentOf? ev, f.text = ""

instance (ev : IrStreamEvent) : Decidable (isQuiet ev) :=
  inferInstanceAs (Decidable (_ ∧ ∀ f ∈ fragmentOf? ev, _))

theorem isQuiet_of_none {ev : IrStreamEvent} (hstart : startOf? ev = none)
    (hfragment : fragmentOf? ev = none) : isQuiet ev :=
  ⟨hstart, fun f hf => by rw [hfragment] at hf; cases hf⟩

theorem startsOf_quiet (evs : List IrStreamEvent) {ev : IrStreamEvent} (h : isQuiet ev) :
    startsOf (evs ++ [ev]) = startsOf evs := by
  rw [startsOf_append, startsOf_single, h.1]
  simp

theorem fragmentsAt_quiet (index : ℕ) (evs : List IrStreamEvent) {ev : IrStreamEvent}
    (h : isQuiet ev) : fragmentsAt index (evs ++ [ev]) = fragmentsAt index evs := by
  rw [fragmentsAt_append]
  cases hf : fragmentOf? ev with
  | none => rw [fragmentsAt_single_none index hf, String.append_empty]
  | some f =>
    rw [fragmentsAt_single index hf, h.2 f hf]
    simp

theorem startsOf_start (evs : List IrStreamEvent) {ev : IrStreamEvent} {c : CallStart}
    (h : startOf? ev = some c) : startsOf (evs ++ [ev]) = startsOf evs ++ [c] := by
  rw [startsOf_append, startsOf_single, h]
  rfl

theorem fragmentsAt_start (index : ℕ) (evs : List IrStreamEvent) {ev : IrStreamEvent}
    {c : CallStart} (h : startOf? ev = some c) :
    fragmentsAt index (evs ++ [ev]) = fragmentsAt index evs := by
  have hnone : fragmentOf? ev = none := by cases ev <;> first | rfl | cases h
  rw [fragmentsAt_append, fragmentsAt_single_none index hnone, String.append_empty]

theorem startsOf_fragment (evs : List IrStreamEvent) {ev : IrStreamEvent} {f : Fragment}
    (h : fragmentOf? ev = some f) : startsOf (evs ++ [ev]) = startsOf evs := by
  have hnone : startOf? ev = none := by cases ev <;> first | rfl | cases h
  rw [startsOf_append, startsOf_single, hnone]
  simp

theorem fragmentsAt_fragment (index : ℕ) (evs : List IrStreamEvent) {ev : IrStreamEvent}
    {f : Fragment} (h : fragmentOf? ev = some f) : fragmentsAt index (evs ++ [ev]) =
      fragmentsAt index evs ++ if f.index = index then f.text else "" := by
  rw [fragmentsAt_append, fragmentsAt_single index h]

/-- Every fragment follows a start of its kind at its index. -/
def FragmentsFollow : List CallStart → List IrStreamEvent → Prop
  | _, [] => True
  | seen, ev :: evs =>
    (∀ f ∈ fragmentOf? ev, ∃ c ∈ seen, c.index = f.index ∧ c.custom = f.custom) ∧
      FragmentsFollow (seen ++ (startOf? ev).toList) evs

instance decidableFragmentsFollow (seen : List CallStart) (evs : List IrStreamEvent) :
    Decidable (FragmentsFollow seen evs) :=
  match evs with
  | [] => inferInstanceAs (Decidable True)
  | ev :: evs =>
    have := decidableFragmentsFollow (seen ++ (startOf? ev).toList) evs
    inferInstanceAs (Decidable (_ ∧ _))

theorem FragmentsFollow.found {seen : List CallStart} {before after : List IrStreamEvent}
    {ev : IrStreamEvent} (h : FragmentsFollow seen (before ++ ev :: after)) {f : Fragment}
    (hf : fragmentOf? ev = some f) :
    ∃ c ∈ seen ++ startsOf before, c.index = f.index ∧ c.custom = f.custom := by
  induction before generalizing seen with
  | nil => simpa using h.1 f hf
  | cons e before ih =>
    have := ih h.2
    rw [List.append_assoc, ← startsOf_single, ← startsOf_append] at this
    simpa using this

/-- Each call has one start, at an index of its own, and its fragments come
after it. -/
structure CallsOrdered (evs : List IrStreamEvent) : Prop where
  indexes : ((startsOf evs).map CallStart.index).Nodup
  follow : FragmentsFollow [] evs

/-- Ordered calls with distinct non-empty ids. -/
structure CallsWellFormed (evs : List IrStreamEvent) : Prop extends CallsOrdered evs where
  ids : ((startsOf evs).map CallStart.id).Nodup
  named : ∀ c ∈ startsOf evs, c.id ≠ ""

instance (evs : List IrStreamEvent) : Decidable (CallsOrdered evs) :=
  decidable_of_iff (((startsOf evs).map CallStart.index).Nodup ∧ FragmentsFollow [] evs)
    ⟨fun ⟨h1, h2⟩ => ⟨h1, h2⟩, fun h => ⟨h.indexes, h.follow⟩⟩

instance (evs : List IrStreamEvent) : Decidable (CallsWellFormed evs) :=
  decidable_of_iff
    (CallsOrdered evs ∧ ((startsOf evs).map CallStart.id).Nodup ∧ ∀ c ∈ startsOf evs, c.id ≠ "")
    ⟨fun ⟨h1, h2, h3⟩ => ⟨h1, h2, h3⟩, fun h => ⟨h.toCallsOrdered, h.ids, h.named⟩⟩

section
variable {evs before after : List IrStreamEvent} {ev : IrStreamEvent}

theorem CallsOrdered.found (h : CallsOrdered evs) (hevs : evs = before ++ ev :: after)
    {f : Fragment} (hf : fragmentOf? ev = some f) :
    ∃ c ∈ startsOf before, c.index = f.index ∧ c.custom = f.custom := by
  subst hevs
  simpa using h.follow.found hf

theorem CallsOrdered.fresh (h : CallsOrdered evs) (hevs : evs = before ++ ev :: after)
    {c : CallStart} (hc : startOf? ev = some c) : ∀ d ∈ startsOf before, d.index ≠ c.index := by
  subst hevs
  have hnodup := h.indexes
  rw [startsOf_append, List.map_append, List.nodup_append] at hnodup
  intro d hd
  refine hnodup.2.2 d.index (List.mem_map_of_mem hd) c.index ?_
  simp [startsOf, hc]

theorem mem_startsOf_of_split {as bs : List IrStreamEvent} {c : CallStart} (h : c ∈ startsOf as) :
    c ∈ startsOf (as ++ bs) := by
  rw [startsOf_append]
  exact List.mem_append_left _ h

theorem CallsOrdered.early_fragments (h : CallsOrdered evs)
    (hevs : evs = before ++ ev :: after) {c : CallStart} (hc : startOf? ev = some c) :
    (before.filterMap fragmentOf?).filter (fun f => f.index = c.index) = [] := by
  have hfresh := h.fresh hevs hc
  rw [List.filter_eq_nil_iff]
  intro f hf hindex
  obtain ⟨e, he, hfe⟩ := List.mem_filterMap.mp hf
  obtain ⟨b₁, b₂, rfl⟩ := List.append_of_mem he
  have hsplit : evs = b₁ ++ e :: (b₂ ++ ev :: after) := by simp [hevs]
  obtain ⟨d, hd, hdi, _⟩ := h.found hsplit hfe
  refine hfresh d (mem_startsOf_of_split hd) ?_
  rw [hdi]
  simpa using hindex

theorem CallsOrdered.no_early_fragment (h : CallsOrdered evs)
    (hevs : evs = before ++ ev :: after) {c : CallStart} (hc : startOf? ev = some c) :
    fragmentsAt c.index before = "" := by
  simp [fragmentsAt, h.early_fragments hevs hc]

theorem CallsOrdered.indexes_before (h : CallsOrdered evs) (hevs : evs = before ++ after) :
    ((startsOf before).map CallStart.index).Nodup := by
  have := h.indexes
  rw [hevs, startsOf_append, List.map_append] at this
  exact this.of_append_left

theorem CallsOrdered.index_inj (h : CallsOrdered evs) (hevs : evs = before ++ after)
    {c d : CallStart} (hc : c ∈ startsOf before) (hd : d ∈ startsOf before)
    (heq : c.index = d.index) : c = d := by
  subst hevs
  have hnodup := h.indexes
  rw [startsOf_append, List.map_append, List.nodup_append] at hnodup
  exact List.inj_on_of_nodup_map hnodup.1 hc hd heq

end

end Wiremux.CallEvents
