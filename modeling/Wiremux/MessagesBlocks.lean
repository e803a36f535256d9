import Wiremux.MessagesFrames
import Wiremux.OrderedMap
import Wiremux.ToolRouting

set_option autoImplicit false

/-!
# Closing Messages blocks

Closed forms of the operations that end a block: what they emit and what is
left of the state. A close ends the open block and every held call behind it.
-/
namespace Wiremux.MessagesBlocks
open Std.TreeMap (mem_toList_iff_getElem?_eq_some)
open JsonValue StreamEvents StreamEventFrames EmittingRuns EncoderState MessagesEncoder
open SerialBlocks MessagesFrames OrderedMap

def marks (frames : List RawSse) : List (Mark ℕ) := frames.map blockMark

@[simp] theorem marks_nil : marks [] = [] := rfl

@[simp] theorem marks_cons (f : RawSse) (fs : List RawSse) :
    marks (f :: fs) = blockMark f :: marks fs := rfl

@[simp] theorem marks_append (fs gs : List RawSse) : marks (fs ++ gs) = marks fs ++ marks gs :=
  List.map_append

section
variable (sj : SerdeJson)

def customInput (buffer : Option String) : List String :=
  ((buffer.filter (fun text => !text.isEmpty)).map (customInputText sj)).toList

/-- Input fragments of a held call: the custom object, else the arguments. -/
def heldInput (buffer : Option String) (args : String) : List String :=
  if (customInput sj buffer).isEmpty then (if args.isEmpty then [] else [args])
  else customInput sj buffer

theorem takeCustomJson_eq (enc : ℕ) (s : StreamEncoder) :
    (takeCustomJson sj enc s).1.toList = customInput sj (s.customArgs enc) ∧
      (takeCustomJson sj enc s).2 =
        { s with customArgs := Function.update s.customArgs enc none } := by
  unfold takeCustomJson customInput
  cases hargs : s.customArgs enc with
  | none =>
    refine ⟨rfl, ?_⟩
    have : Function.update s.customArgs enc none = s.customArgs := by
      rw [← hargs, Function.update_eq_self]
    simp [this]
  | some args =>
    refine ⟨?_, rfl⟩
    cases hempty : args.isEmpty <;> simp [Option.filter, hempty]

def heldBlock (custom : ℕ → Option String) (held : HeldTool) : List RawSse :=
  toolStartFrame held.enc held.id held.name ::
    ((heldInput sj (custom held.enc) held.args).map (toolArgFrame held.enc) ++
      [contentBlockStop held.enc])

theorem heldToolFrames_eq (held : HeldTool) (s : StreamEncoder) :
    heldToolFrames sj held s = (heldBlock sj s.customArgs held, { s with
      closedTools := insert held.enc s.closedTools
      customArgs := Function.update s.customArgs held.enc none }) := by
  obtain ⟨hfst, hsnd⟩ := takeCustomJson_eq sj held.enc
    { s with closedTools := insert held.enc s.closedTools }
  unfold heldToolFrames heldBlock heldInput
  simp only at hfst hsnd ⊢
  rw [hsnd, ← hfst]
  cases (takeCustomJson sj held.enc
    { s with closedTools := insert held.enc s.closedTools }).1 with
  | none => cases held.args.isEmpty <;> simp
  | some text => simp

def dropBuffers (encs : List ℕ) (custom : ℕ → Option String) (enc : ℕ) : Option String :=
  if enc ∈ encs then none else custom enc

theorem dropBuffers_cons (enc : ℕ) (encs : List ℕ) (custom : ℕ → Option String) :
    dropBuffers encs (Function.update custom enc none) = dropBuffers (enc :: encs) custom := by
  funext e
  by_cases he : e = enc
  · subst he
    simp [dropBuffers]
  · simp [dropBuffers, he]

theorem heldBlock_update {custom : ℕ → Option String} {enc : ℕ} {held : HeldTool}
    (h : held.enc ≠ enc) (value : Option String) :
    heldBlock sj (Function.update custom enc value) held = heldBlock sj custom held := by
  simp [heldBlock, h]

theorem heldRun_eq (held : List HeldTool) (s : StreamEncoder) (h : StrictBy HeldTool.enc held) :
    emitEach (heldToolFrames sj) held s = (held.flatMap (heldBlock sj s.customArgs), { s with
      closedTools := s.closedTools ∪ (held.map HeldTool.enc).toFinset
      customArgs := dropBuffers (held.map HeldTool.enc) s.customArgs }) := by
  induction held generalizing s with
  | nil =>
    have hdrop : dropBuffers [] s.customArgs = s.customArgs := by funext e; simp [dropBuffers]
    simp [hdrop]
  | cons x held ih =>
    obtain ⟨hx, hrest⟩ := List.pairwise_cons.mp h
    have hframes : held.flatMap (heldBlock sj (Function.update s.customArgs x.enc none)) =
        held.flatMap (heldBlock sj s.customArgs) := by
      refine List.flatMap_congr fun y hy => heldBlock_update sj ?_ none
      exact (Nat.ne_of_lt (hx y hy)).symm
    have hclosed : insert x.enc s.closedTools ∪ (held.map HeldTool.enc).toFinset =
        s.closedTools ∪ ((x :: held).map HeldTool.enc).toFinset := by
      ext e
      simp only [Finset.mem_union, Finset.mem_insert, List.mem_toFinset, List.map_cons,
        List.mem_cons]
      tauto
    rw [emitEach_cons, heldToolFrames_eq, ih _ hrest]
    simp only [hframes, hclosed, dropBuffers_cons, List.flatMap_cons, List.map_cons]

end

def heldInOrder (s : StreamEncoder) : List HeldTool :=
  sortByEnc (s.heldTools.toList.map Prod.snd)

def HeldApart (t : Std.TreeMap ℕ HeldTool) : Prop :=
  ∀ (i j : ℕ) (h h' : HeldTool), t[i]? = some h → t[j]? = some h' → h.enc = h'.enc → i = j

theorem mem_sortByEnc {t : Std.TreeMap ℕ HeldTool} {h : HeldTool} :
    h ∈ sortByEnc (t.toList.map Prod.snd) ↔ ∃ i : ℕ, t[i]? = some h := by
  unfold sortByEnc
  rw [List.mem_insertionSort, List.mem_map]
  constructor
  · rintro ⟨⟨i, _⟩, hmem, rfl⟩
    exact ⟨i, mem_toList_iff_getElem?_eq_some.mp hmem⟩
  · rintro ⟨i, hi⟩
    exact ⟨(i, h), mem_toList_iff_getElem?_eq_some.mpr hi, rfl⟩

theorem strictBy_sortByEnc {t : Std.TreeMap ℕ HeldTool} (h : HeldApart t) :
    StrictBy HeldTool.enc (sortByEnc (t.toList.map Prod.snd)) := by
  have happart : (t.toList.map Prod.snd).Pairwise fun a b => a.enc ≠ b.enc := by
    refine List.pairwise_map.mpr (List.Pairwise.imp_of_mem ?_ (strictBy_toList t))
    rintro ⟨i, a⟩ ⟨j, b⟩ ha hb hlt heq
    have hij := h i j a b (mem_toList_iff_getElem?_eq_some.mp ha) (mem_toList_iff_getElem?_eq_some.mp hb) heq
    exact Nat.ne_of_lt hlt hij
  have hsorted : (sortByEnc (t.toList.map Prod.snd)).Pairwise fun a b => a.enc ≠ b.enc :=
    (List.perm_insertionSort _ _).symm.pairwise happart fun hne => hne.symm
  have hle : (sortByEnc (t.toList.map Prod.snd)).Pairwise fun a b => a.enc ≤ b.enc :=
    List.pairwise_insertionSort (r := fun a b : HeldTool => a.enc ≤ b.enc) _
  exact (hle.and hsorted).imp fun ⟨h1, h2⟩ => Nat.lt_of_le_of_ne h1 h2

theorem mem_heldInOrder {s : StreamEncoder} {h : HeldTool} :
    h ∈ heldInOrder s ↔ ∃ i : ℕ, s.heldTools[i]? = some h := mem_sortByEnc

theorem sortByEnc_insert_last {t : Std.TreeMap ℕ HeldTool} {i : ℕ} {x : HeldTool}
    (happart : HeldApart t) (happart' : HeldApart (t.insert i x)) (hnone : t[i]? = none)
    (hgt : ∀ (k : ℕ) h, t[k]? = some h → h.enc < x.enc) :
    sortByEnc ((t.insert i x).toList.map Prod.snd) = sortByEnc (t.toList.map Prod.snd) ++ [x] := by
  refine (strictBy_sortByEnc happart').ext ((strictBy_sortByEnc happart).append_singleton ?_) ?_
  · intro h hh
    obtain ⟨k, hk⟩ := mem_sortByEnc.mp hh
    exact hgt k h hk
  · intro h
    rw [List.mem_append, mem_sortByEnc, mem_sortByEnc, List.mem_singleton]
    constructor
    · rintro ⟨k, hk⟩
      rw [getElem?_insert] at hk
      split at hk
      · exact Or.inr (Option.some.inj hk).symm
      · exact Or.inl ⟨k, hk⟩
    · rintro (⟨k, hk⟩ | rfl)
      · refine ⟨k, ?_⟩
        rw [getElem?_insert, if_neg, hk]
        rintro rfl
        rw [hnone] at hk
        cases hk
      · exact ⟨i, by simp⟩

theorem sortByEnc_insert_present {t : Std.TreeMap ℕ HeldTool} {i : ℕ} {old new : HeldTool}
    (happart : HeldApart t) (hold : t[i]? = some old) (henc : new.enc = old.enc) :
    sortByEnc ((t.insert i new).toList.map Prod.snd) =
      (sortByEnc (t.toList.map Prod.snd)).map fun h => if h.enc = old.enc then new else h := by
  have hback : ∀ (k : ℕ) h, (t.insert i new)[k]? = some h →
      ∃ h', t[k]? = some h' ∧ h'.enc = h.enc := by
    intro k h hk
    rw [getElem?_insert] at hk
    split at hk
    · rename_i heq
      subst heq
      obtain rfl := Option.some.inj hk
      exact ⟨old, hold, henc.symm⟩
    · exact ⟨h, hk, rfl⟩
  have happart' : HeldApart (t.insert i new) := by
    intro k l h h' hk hl heq
    obtain ⟨g, hg, hge⟩ := hback k h hk
    obtain ⟨g', hg', hge'⟩ := hback l h' hl
    exact happart k l g g' hg hg' (by omega)
  have hkeys : ∀ h ∈ sortByEnc (t.toList.map Prod.snd),
      (if h.enc = old.enc then new else h).enc = h.enc := by
    intro h _
    split
    · omega
    · rfl
  refine (strictBy_sortByEnc happart').ext ((strictBy_sortByEnc happart).map hkeys) ?_
  intro h
  rw [mem_sortByEnc, List.mem_map]
  constructor
  · rintro ⟨k, hk⟩
    rw [getElem?_insert] at hk
    split at hk
    · obtain rfl := Option.some.inj hk
      exact ⟨old, mem_sortByEnc.mpr ⟨i, hold⟩, if_pos rfl⟩
    · rename_i hne
      refine ⟨h, mem_sortByEnc.mpr ⟨k, hk⟩, if_neg fun heq => hne ?_⟩
      exact happart i k old h hold hk heq.symm
  · rintro ⟨g, hg, rfl⟩
    obtain ⟨k, hk⟩ := mem_sortByEnc.mp hg
    split
    · exact ⟨i, by simp⟩
    · rename_i hne
      refine ⟨k, ?_⟩
      rw [getElem?_insert, if_neg, hk]
      rintro rfl
      rw [hold] at hk
      exact hne (by rw [Option.some.inj hk])

section
variable (sj : SerdeJson)

def openFrames (s : StreamEncoder) : List RawSse :=
  match s.openBlock with
  | none => []
  | some (index, kind) =>
    (if kind = .tool then customInput sj (s.customArgs index) else []).map (toolArgFrame index) ++
      [contentBlockStop index]

def closingEncs (s : StreamEncoder) : List ℕ :=
  s.openBlock.toList.map Prod.fst ++ (heldInOrder s).map HeldTool.enc

def closedState (s : StreamEncoder) : StreamEncoder :=
  { s with
    openBlock := none
    heldTools := ∅
    closedTools := s.closedTools ∪ (closingEncs s).toFinset
    customArgs := dropBuffers ((openToolEnc s).toList ++ (heldInOrder s).map HeldTool.enc)
      s.customArgs }

theorem flushHeldTools_eq (s : StreamEncoder) (hheld : HeldApart s.heldTools) :
    flushHeldTools sj s = ((heldInOrder s).flatMap (heldBlock sj s.customArgs), { s with
      heldTools := ∅
      closedTools := s.closedTools ∪ ((heldInOrder s).map HeldTool.enc).toFinset
      customArgs := dropBuffers ((heldInOrder s).map HeldTool.enc) s.customArgs }) := by
  change emitEach (heldToolFrames sj) (heldInOrder s) { s with heldTools := ∅ } = _
  have hstrict : StrictBy HeldTool.enc (heldInOrder s) := strictBy_sortByEnc hheld
  rw [heldRun_eq sj _ _ hstrict]

theorem closeOpen_eq (s : StreamEncoder) (hheld : HeldApart s.heldTools)
    (hopen : ∀ b, s.openBlock = some b → ∀ h ∈ heldInOrder s, h.enc ≠ b.1) :
    closeOpen sj s = (openFrames sj s ++ (heldInOrder s).flatMap (heldBlock sj s.customArgs),
      closedState s) := by
  unfold closeOpen openFrames closedState closingEncs openToolEnc
  cases hblock : s.openBlock with
  | none =>
    simp only [flushHeldTools_eq sj s hheld]
    simp [hblock]
  | some b =>
    obtain ⟨index, kind⟩ := b
    have hclosed : insert index s.closedTools ∪ ((heldInOrder s).map HeldTool.enc).toFinset =
        s.closedTools ∪ (index :: (heldInOrder s).map HeldTool.enc).toFinset := by
      simp
    by_cases hkind : kind = .tool
    · subst hkind
      let taken := { s with openBlock := none, closedTools := insert index s.closedTools }
      obtain ⟨hfst, hsnd⟩ := takeCustomJson_eq sj index taken
      have hframes : (heldInOrder s).flatMap
          (heldBlock sj (Function.update s.customArgs index none)) =
          (heldInOrder s).flatMap (heldBlock sj s.customArgs) := by
        refine List.flatMap_congr fun h hh => heldBlock_update sj ?_ none
        exact hopen _ hblock h hh
      have hflush := flushHeldTools_eq sj (takeCustomJson sj index taken).2
        (by rw [hsnd]; exact hheld)
      rw [hsnd] at hflush
      change _ = ((heldInOrder s).flatMap (heldBlock sj (Function.update s.customArgs index none)),
        { taken with
          heldTools := ∅
          closedTools := insert index s.closedTools ∪
            ((heldInOrder s).map HeldTool.enc).toFinset
          customArgs := dropBuffers ((heldInOrder s).map HeldTool.enc)
            (Function.update s.customArgs index none) }) at hflush
      rw [hframes, hclosed, dropBuffers_cons] at hflush
      simp only [if_true]
      rw [show takeCustomJson sj index _ = takeCustomJson sj index taken from rfl, hsnd, hflush]
      rw [Option.toList_map, hfst]
      simp [Option.filter, taken]
    · have hflush := flushHeldTools_eq sj
        { s with openBlock := none, closedTools := insert index s.closedTools } hheld
      simp only [if_neg hkind]
      rw [hflush]
      change (_ ++ contentBlockStop index :: (heldInOrder s).flatMap _, { s with
        openBlock := none
        heldTools := ∅
        closedTools := insert index s.closedTools ∪ ((heldInOrder s).map HeldTool.enc).toFinset
        customArgs := dropBuffers ((heldInOrder s).map HeldTool.enc) s.customArgs }) = _
      rw [hclosed]
      simp [Option.filter, hkind]

end

end Wiremux.MessagesBlocks
