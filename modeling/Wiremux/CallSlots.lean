import Wiremux.CompleteTools
import Wiremux.OrderedMap

set_option autoImplicit false

/-!
# Calls that keep their slots

The calls of a complete body go through one slot per index. They come out one for one
exactly when no call falls into the slot of another; then those whose index comes
again are first, as they are replaced, and the others follow by index.
-/
namespace Wiremux.CallSlots
open Std.TreeMap (mem_toList_iff_getElem?_eq_some)
open JsonValue CompleteTools OrderedMap

/-- A call of the list: its index (0 where it has none), its id, name and arguments. -/
structure CallEntry where
  index : ℕ
  id : String
  name : String
  args : Option String

def CallEntry.argText (e : CallEntry) : String := e.args.getD ""

def CallEntry.tool (e : CallEntry) : IndexedTool := { id := e.id, name := e.name, args := e.argText }

def addEntry (t : IndexedTools) (e : CallEntry) : IndexedTools :=
  let t := indexedToolStart e.index e.id e.name false none t
  match e.args with
  | none => t
  | some delta => indexedToolDelta e.index delta t

def addEntries (entries : List CallEntry) : IndexedTools := entries.foldl addEntry {}

def holder (seen : List CallEntry) (index : ℕ) : Option CallEntry :=
  seen.find? fun e => e.index = index

/-- A call replaces the one at its index: both have ids, and these differ. -/
def replaces (seen : List CallEntry) (e : CallEntry) : Prop :=
  ∀ p, holder seen e.index = some p → e.id ≠ "" ∧ p.id ≠ "" ∧ p.id ≠ e.id

def apartFrom (seen : List CallEntry) : List CallEntry → Prop
  | [] => True
  | e :: rest => replaces seen e ∧ apartFrom (e :: seen) rest

/-- No call falls into the slot of another. -/
def ApartCalls (entries : List CallEntry) : Prop := apartFrom [] entries

/-- The calls whose index comes again, in the order in which it does. -/
def replacedFrom (seen : List CallEntry) : List CallEntry → List CallEntry
  | [] => []
  | e :: rest => (holder seen e.index).toList ++ replacedFrom (e :: seen) rest

/-- Insert by index, over a call that has it. -/
def place (e : CallEntry) : List CallEntry → List CallEntry
  | [] => [e]
  | p :: rest =>
    if e.index < p.index then e :: p :: rest
    else if e.index = p.index then e :: rest
    else p :: place e rest

/-- The last call of each index, by index. -/
def standing (entries : List CallEntry) : List CallEntry :=
  entries.foldl (fun placed e => place e placed) []

/-- The calls in the order in which their slots come out. -/
def arranged (entries : List CallEntry) : List CallEntry := replacedFrom [] entries ++ standing entries

theorem mem_place {e x : CallEntry} {l : List CallEntry} (h : StrictBy CallEntry.index l) :
    x ∈ place e l ↔ x = e ∨ (x ∈ l ∧ x.index ≠ e.index) := by
  induction l with
  | nil => simp [place]
  | cons p rest ih =>
    obtain ⟨hp, hrest⟩ := List.pairwise_cons.mp h
    unfold place
    split
    · rename_i hlt
      have hall : ∀ y ∈ p :: rest, y.index ≠ e.index := by
        intro y hy
        rcases List.mem_cons.mp hy with rfl | hy
        · omega
        · have := hp y hy
          omega
      rw [List.mem_cons]
      exact or_congr_right ⟨fun hx => ⟨hx, hall x hx⟩, fun hx => hx.1⟩
    · split
      · rename_i heq
        have hall : ∀ y ∈ rest, y.index ≠ e.index := by
          intro y hy
          have := hp y hy
          omega
        rw [List.mem_cons, List.mem_cons]
        refine or_congr_right ⟨fun hx => ⟨.inr hx, hall x hx⟩, ?_⟩
        rintro ⟨rfl | hx, hne⟩
        · exact absurd heq.symm hne
        · exact hx
      · rename_i hle hne
        rw [List.mem_cons, ih hrest, List.mem_cons]
        constructor
        · rintro (rfl | rfl | hx)
          · exact .inr ⟨.inl rfl, fun heq => hne heq.symm⟩
          · exact .inl rfl
          · exact .inr ⟨.inr hx.1, hx.2⟩
        · rintro (rfl | ⟨rfl | hx, hx'⟩)
          · exact .inr (.inl rfl)
          · exact .inl rfl
          · exact .inr (.inr ⟨hx, hx'⟩)

theorem strictBy_place {e : CallEntry} {l : List CallEntry} (h : StrictBy CallEntry.index l) :
    StrictBy CallEntry.index (place e l) := by
  induction l with
  | nil => exact List.pairwise_singleton _ _
  | cons p rest ih =>
    obtain ⟨hp, hrest⟩ := List.pairwise_cons.mp h
    unfold place
    split
    · rename_i hlt
      refine List.pairwise_cons.mpr ⟨fun y hy => ?_, h⟩
      rcases List.mem_cons.mp hy with rfl | hy
      · exact hlt
      · exact hlt.trans (hp y hy)
    · split
      · rename_i heq
        refine List.pairwise_cons.mpr ⟨fun y hy => ?_, hrest⟩
        rw [heq]
        exact hp y hy
      · rename_i hle hne
        refine List.pairwise_cons.mpr ⟨fun y hy => ?_, ih hrest⟩
        rcases (mem_place hrest).mp hy with rfl | ⟨hy, _⟩
        · omega
        · exact hp y hy

theorem strictBy_foldl_place (entries placed : List CallEntry) (h : StrictBy CallEntry.index placed) :
    StrictBy CallEntry.index (entries.foldl (fun placed e => place e placed) placed) := by
  induction entries generalizing placed with
  | nil => exact h
  | cons e rest ih => exact ih (place e placed) (strictBy_place h)

def commitsFor (existing : IndexedTool) (id : String) : Prop :=
  id ≠ "" ∧ existing.id ≠ "" ∧ existing.id ≠ id

theorem commitOther_none {t : IndexedTools} {i : ℕ} {id : String} (h : t.opened[i]? = none) :
    commitOther i id t = t := by
  rw [commitOther, h]

theorem commitOther_some {t : IndexedTools} {i : ℕ} {id : String} {existing : IndexedTool}
    (h : t.opened[i]? = some existing) (hcommits : commitsFor existing id) :
    commitOther i id t = ⟨t.opened.erase i, t.done ++ [(i, existing)]⟩ := by
  obtain ⟨hid, hexisting, hne⟩ := hcommits
  rw [commitOther, h]
  simp [hid, hexisting, hne]

theorem commitOther_kept {t : IndexedTools} {i : ℕ} {id : String} {existing : IndexedTool}
    (h : t.opened[i]? = some existing) (hkept : ¬ commitsFor existing id) :
    commitOther i id t = t := by
  rw [commitOther, h]
  refine if_neg fun hcond => hkept ?_
  simpa [commitsFor, and_assoc] using hcond

theorem fill_blank (e : CallEntry) :
    fillSlot e.id e.name false none blankIndexedTool = { e.tool with args := "" } := rfl

theorem addEntry_done (t : IndexedTools) (e : CallEntry) :
    (addEntry t e).done = (commitOther e.index e.id t).done := by
  unfold addEntry
  simp only
  split <;> rfl

theorem addEntry_opened {t : IndexedTools} {e : CallEntry}
    (hfree : (commitOther e.index e.id t).opened[e.index]? = none) (k : ℕ) :
    (addEntry t e).opened[k]? =
      if e.index = k then some e.tool else (commitOther e.index e.id t).opened[k]? := by
  unfold addEntry
  simp only
  split
  · rename_i hargs
    rw [indexedToolStart]
    simp only
    rw [hfree, Option.getD_none, fill_blank, getElem?_insert]
    simp only [CallEntry.tool, CallEntry.argText, hargs, Option.getD_none]
  · rename_i delta hargs
    rw [indexedToolDelta]
    simp only
    rw [indexedToolStart]
    simp only
    rw [hfree, Option.getD_none, fill_blank, getElem?_insert]
    by_cases hk : e.index = k
    · rw [if_pos hk, if_pos hk, getElem?_insert, if_pos rfl, Option.getD_some, String.empty_append]
      simp only [CallEntry.tool, CallEntry.argText, hargs, Option.getD_some]
    · rw [if_neg hk, if_neg hk, getElem?_insert, if_neg hk]

def count (t : IndexedTools) : ℕ := t.done.length + t.opened.size

theorem size_insert_some {m : Std.TreeMap ℕ IndexedTool} {k : ℕ} {old new : IndexedTool}
    (h : m[k]? = some old) : (m.insert k new).size = m.size := by
  have hcontains : m.contains k = true := by
    rw [Std.TreeMap.contains_eq_isSome_getElem?, h]
    rfl
  rw [Std.TreeMap.size_insert, if_pos hcontains]

theorem size_insert_none {m : Std.TreeMap ℕ IndexedTool} {k : ℕ} {new : IndexedTool}
    (h : m[k]? = none) : (m.insert k new).size = m.size + 1 := by
  have hcontains : ¬ m.contains k = true := by
    rw [Std.TreeMap.contains_eq_isSome_getElem?, h]
    exact Bool.false_ne_true
  rw [Std.TreeMap.size_insert, if_neg hcontains]

theorem addEntry_size (t : IndexedTools) (e : CallEntry) : ∃ slot,
    (addEntry t e).opened.size = ((commitOther e.index e.id t).opened.insert e.index slot).size := by
  unfold addEntry
  simp only
  split
  · exact ⟨_, rfl⟩
  · exact ⟨_, size_insert_some (Std.TreeMap.getElem?_insert_self)⟩

theorem count_addEntry (t : IndexedTools) (e : CallEntry) : count (addEntry t e) ≤ count t + 1 ∧
    ∀ existing, t.opened[e.index]? = some existing → ¬ commitsFor existing e.id →
      count (addEntry t e) = count t := by
  obtain ⟨slot, hsize⟩ := addEntry_size t e
  unfold count
  rw [addEntry_done, hsize]
  cases hopen : t.opened[e.index]? with
  | none =>
    rw [commitOther_none hopen, size_insert_none hopen]
    exact ⟨by omega, fun existing hsome => by cases hsome⟩
  | some existing =>
    by_cases hcommits : commitsFor existing e.id
    · have herased : (t.opened.erase e.index)[e.index]? = none := Std.TreeMap.getElem?_erase_self
      have hcontains : t.opened.contains e.index = true := by
        rw [Std.TreeMap.contains_eq_isSome_getElem?, hopen]
        rfl
      have hpos := List.length_pos_of_mem (mem_toList_iff_getElem?_eq_some.mpr hopen)
      rw [Std.TreeMap.length_toList] at hpos
      rw [commitOther_some hopen hcommits]
      simp only [size_insert_none herased, Std.TreeMap.size_erase, if_pos hcontains, List.length_append,
        List.length_singleton]
      refine ⟨?_, fun other hother hkept => ?_⟩
      · omega
      · rw [Option.some.inj hother] at hcommits
        exact absurd hcommits hkept
    · rw [commitOther_kept hopen hcommits, size_insert_some hopen]
      exact ⟨by omega, fun _ _ _ => rfl⟩

/-- What the slots hold after the calls `seen`, the latest first. -/
structure Slots (seen replaced : List CallEntry) (t : IndexedTools) : Prop where
  opened : ∀ k, t.opened[k]? = (holder seen k).map CallEntry.tool
  done : t.done = replaced.map fun e => (e.index, e.tool)

theorem holder_index {seen : List CallEntry} {k : ℕ} {p : CallEntry} (h : holder seen k = some p) :
    p.index = k := by
  simpa using List.find?_some h

theorem Slots.commits {seen replaced : List CallEntry} {t : IndexedTools} (h : Slots seen replaced t)
    {e : CallEntry} (hreplaces : replaces seen e) :
    (commitOther e.index e.id t).done =
        (replaced ++ (holder seen e.index).toList).map (fun e => (e.index, e.tool)) ∧
      ∀ k, (commitOther e.index e.id t).opened[k]? =
        if e.index = k then none else (holder seen k).map CallEntry.tool := by
  have hopen := h.opened e.index
  cases hholder : holder seen e.index with
  | none =>
    rw [hholder] at hopen
    rw [commitOther_none hopen]
    refine ⟨by rw [h.done, Option.toList_none, List.append_nil], fun k => ?_⟩
    split
    · rename_i hk
      exact hk ▸ hopen
    · exact h.opened k
  | some p =>
    rw [hholder] at hopen
    obtain ⟨hid, hp, hne⟩ := hreplaces p hholder
    rw [commitOther_some hopen ⟨hid, hp, hne⟩]
    refine ⟨?_, fun k => ?_⟩
    · rw [h.done, Option.toList_some, List.map_append, List.map_singleton, holder_index hholder]
    · change (t.opened.erase e.index)[k]? = _
      rw [Std.TreeMap.getElem?_erase, h.opened k]
      simp only [Nat.compare_eq_eq]

theorem Slots.add {seen replaced : List CallEntry} {t : IndexedTools} (h : Slots seen replaced t)
    {e : CallEntry} (hreplaces : replaces seen e) :
    Slots (e :: seen) (replaced ++ (holder seen e.index).toList) (addEntry t e) := by
  obtain ⟨hdone, hopened⟩ := h.commits hreplaces
  refine ⟨fun k => ?_, (addEntry_done t e).trans hdone⟩
  rw [addEntry_opened (by rw [hopened, if_pos rfl]), hopened]
  by_cases hk : e.index = k
  · simp [hk, holder]
  · simp [hk, holder]

theorem slots_foldl {entries seen replaced : List CallEntry} {t : IndexedTools}
    (h : Slots seen replaced t) (hapart : apartFrom seen entries) :
    Slots (entries.reverse ++ seen) (replaced ++ replacedFrom seen entries)
      (entries.foldl addEntry t) := by
  induction entries generalizing seen replaced t with
  | nil => simpa [replacedFrom] using h
  | cons e rest ih =>
    have hnext := ih (h.add hapart.1) hapart.2
    rw [List.append_assoc] at hnext
    rw [List.reverse_cons, List.append_assoc]
    exact hnext

theorem slots_start : Slots [] [] {} := ⟨fun _ => Std.TreeMap.getElem?_emptyc, rfl⟩

theorem count_foldl_le (entries : List CallEntry) (t : IndexedTools) :
    count (entries.foldl addEntry t) ≤ count t + entries.length := by
  induction entries generalizing t with
  | nil => exact Nat.le_refl _
  | cons e rest ih =>
    have hrest := ih (addEntry t e)
    have hone := (count_addEntry t e).1
    rw [List.foldl_cons, List.length_cons]
    omega

theorem count_lt_of_not_apart {entries seen replaced : List CallEntry} {t : IndexedTools}
    (h : Slots seen replaced t) (hapart : ¬ apartFrom seen entries) :
    count (entries.foldl addEntry t) < count t + entries.length := by
  induction entries generalizing seen replaced t with
  | nil => exact absurd trivial hapart
  | cons e rest ih =>
    rw [List.foldl_cons, List.length_cons]
    by_cases hreplaces : replaces seen e
    · have hrest := ih (h.add hreplaces) fun hrest => hapart ⟨hreplaces, hrest⟩
      have hone := (count_addEntry t e).1
      omega
    · unfold replaces at hreplaces
      push Not at hreplaces
      obtain ⟨p, hholder, hp⟩ := hreplaces
      have hopen : t.opened[e.index]? = some p.tool := by
        rw [h.opened, hholder]
        rfl
      have hsame := (count_addEntry t e).2 p.tool hopen fun hcommits =>
        hcommits.2.2 (hp hcommits.1 hcommits.2.1)
      have hrest := count_foldl_le rest (addEntry t e)
      omega

theorem mem_standing {entries placed seen : List CallEntry} (hstrict : StrictBy CallEntry.index placed)
    (hplaced : ∀ x, x ∈ placed ↔ holder seen x.index = some x) {x : CallEntry} :
    x ∈ entries.foldl (fun placed e => place e placed) placed ↔
      holder (entries.reverse ++ seen) x.index = some x := by
  induction entries generalizing placed seen with
  | nil => exact hplaced x
  | cons e rest ih =>
    rw [List.foldl_cons, List.reverse_cons, List.append_assoc, List.singleton_append]
    refine ih (strictBy_place hstrict) fun y => ?_
    rw [mem_place hstrict, hplaced]
    by_cases hy : e.index = y.index
    · simp [holder, hy, eq_comm]
    · have hne : y ≠ e := fun heq => hy (heq ▸ rfl)
      have hne' : y.index ≠ e.index := fun heq => hy heq.symm
      simp [holder, hy, hne, hne']

theorem toList_standing {entries : List CallEntry} {t : IndexedTools}
    (hopened : ∀ k, t.opened[k]? = (holder entries.reverse k).map CallEntry.tool) :
    t.opened.toList = (standing entries).map fun e => (e.index, e.tool) := by
  have hstanding : ∀ x, x ∈ standing entries ↔ holder entries.reverse x.index = some x := by
    intro x
    have hmem := @mem_standing entries [] [] List.Pairwise.nil (fun y => by simp [holder]) x
    rwa [List.append_nil] at hmem
  have hstrict : StrictBy CallEntry.index (standing entries) :=
    strictBy_foldl_place entries [] List.Pairwise.nil
  refine (strictBy_toList t.opened).ext (List.pairwise_map.mpr hstrict) ?_
  rintro ⟨k, tool⟩
  rw [mem_toList_iff_getElem?_eq_some, hopened, List.mem_map]
  constructor
  · intro htool
    obtain ⟨e, he, rfl⟩ := Option.map_eq_some_iff.mp htool
    have hk := holder_index he
    subst hk
    exact ⟨e, (hstanding e).mpr he, rfl⟩
  · rintro ⟨e, he, hpair⟩
    obtain ⟨rfl, rfl⟩ := Prod.mk.inj hpair
    rw [(hstanding e).mp he]
    rfl

theorem finish_of_apart {entries : List CallEntry} (h : ApartCalls entries) :
    (indexedToolFinish (addEntries entries)).map Prod.snd = (arranged entries).map CallEntry.tool := by
  have hslots := slots_foldl slots_start h
  rw [List.append_nil, List.nil_append] at hslots
  have htools : indexedToolFinish (addEntries entries) =
      (arranged entries).map fun e => (e.index, e.tool) := by
    rw [indexedToolFinish, addEntries, hslots.done, toList_standing hslots.opened, arranged,
      List.map_append]
  rw [htools, List.map_map]
  rfl

theorem finish_length_le (entries : List CallEntry) :
    (indexedToolFinish (addEntries entries)).length ≤ entries.length := by
  have hcount := count_foldl_le entries {}
  rw [indexedToolFinish, List.length_append, Std.TreeMap.length_toList]
  have hzero : count {} = 0 := rfl
  unfold count addEntries at *
  omega

theorem apart_of_length {entries : List CallEntry}
    (h : entries.length ≤ (indexedToolFinish (addEntries entries)).length) : ApartCalls entries := by
  by_contra hapart
  have hlt := count_lt_of_not_apart slots_start hapart
  rw [indexedToolFinish, List.length_append, Std.TreeMap.length_toList] at h
  have hzero : count {} = 0 := rfl
  unfold count addEntries at *
  omega

end Wiremux.CallSlots
