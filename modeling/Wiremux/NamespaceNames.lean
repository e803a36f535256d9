import Wiremux.RequestParts
import Wiremux.SplitText
import Wiremux.ToolNames

set_option autoImplicit false

/-!
# The dotted names of a namespace

A namespace is flattened to functions with dotted names. `split_namespace_name`
cuts such a name at its first dot, and `qualify_call_name` puts the namespace in
front of the name of an earlier call, unless it is there already.
-/
namespace Wiremux.NamespaceNames
open JsonValue StreamEvents ChatDecoding ToolPreparation ToolNames SplitText RequestParts

/-- The name under which `flatten_namespace` advertises a child. -/
def dotted (ns leaf : String) : String := ns ++ "." ++ leaf

def qualifyCallName (item : Value) : String :=
  let name := (item.strAt? "name").getD ""
  match item.strAt? "namespace" with
  | some ns => if ns ≠ "" ∧ startsWith (ns ++ ".") name = false then ns ++ "." ++ name else name
  | none => name

/-- A namespace and a leaf are read back from their name, which no other pair has, and
a call that names both has the name that was advertised. -/
structure Reversible (ns leaf : String) : Prop where
  split : splitNamespaceName (dotted ns leaf) = some (ns, leaf)
  apart : ∀ other child, dotted other child = dotted ns leaf → other = ns ∧ child = leaf
  qualified : ∀ item : Value, item.strAt? "namespace" = some ns → item.strAt? "name" = some leaf →
    qualifyCallName item = dotted ns leaf

variable {ns leaf : String}

theorem dotted_toList (ns leaf : String) :
    (dotted ns leaf).toList = ns.toList ++ '.' :: leaf.toList := by
  rw [dotted, String.toList_append, String.toList_append, List.append_assoc]
  rfl

theorem dotted_ofList (front back : List Char) :
    dotted (String.ofList front) (String.ofList back) = String.ofList (front ++ '.' :: back) := by
  rw [← String.toList_inj, dotted_toList]
  simp only [String.toList_ofList]

theorem splitOnce_dotted (ns leaf : String) (h : '.' ∉ ns.toList) :
    splitOnce ".".toList (dotted ns leaf).toList = some (ns.toList, leaf.toList) := by
  rw [dotted_toList]
  exact splitOnce_at h leaf.toList

theorem splitOnce_head {text head tail : List Char} (h : splitOnce ['.'] text = some (head, tail)) :
    '.' ∉ head := by
  induction text generalizing head with
  | nil => cases h
  | cons c rest ih =>
    rw [splitOnce_cons] at h
    split at h
    · cases h
      exact List.not_mem_nil
    · rename_i hhere
      obtain ⟨halves, hrest, hhalves⟩ := Option.map_eq_some_iff.mp h
      cases hhalves
      intro hmem
      rcases List.mem_cons.mp hmem with rfl | hmem
      · exact hhere rfl
      · exact ih hrest hmem

theorem split_iff : splitNamespaceName (dotted ns leaf) = some (ns, leaf) ↔
    ns ≠ "" ∧ leaf ≠ "" ∧ '.' ∉ ns.toList := by
  constructor
  · intro h
    unfold splitNamespaceName at h
    split at h
    · rename_i front back hsplit
      split at h
      · cases h
      · rename_i hfull
        obtain ⟨rfl, rfl⟩ := Prod.mk.inj (Option.some.inj h)
        simp only [Bool.or_eq_true, List.isEmpty_iff, not_or] at hfull
        refine ⟨?_, ?_, ?_⟩
        · exact fun hempty => hfull.1 (by simpa using congrArg String.toList hempty)
        · exact fun hempty => hfull.2 (by simpa using congrArg String.toList hempty)
        · rw [String.toList_ofList]
          exact splitOnce_head hsplit
    · cases h
  · rintro ⟨hns, hleaf, hdot⟩
    have hnsNil : ns.toList ≠ [] := fun h => hns (by simpa using congrArg String.ofList h)
    have hleafNil : leaf.toList ≠ [] := fun h => hleaf (by simpa using congrArg String.ofList h)
    rw [splitNamespaceName, splitOnce_dotted ns leaf hdot]
    simp [hnsNil, hleafNil]

theorem apart_iff : (∀ other child, dotted other child = dotted ns leaf → other = ns ∧ child = leaf) ↔
    '.' ∉ ns.toList ∧ '.' ∉ leaf.toList := by
  constructor
  · intro h
    constructor
    · intro hmem
      obtain ⟨front, back, hsplit⟩ := List.append_of_mem hmem
      have hother := (h (String.ofList front) (String.ofList (back ++ '.' :: leaf.toList)) (by
        rw [dotted_ofList, ← String.toList_inj, dotted_toList, hsplit]
        simp)).1
      have hlength := congrArg (fun s => s.toList.length) hother
      simp only [String.toList_ofList, hsplit, List.length_append, List.length_cons] at hlength
      omega
    · intro hmem
      obtain ⟨front, back, hsplit⟩ := List.append_of_mem hmem
      have hother := (h (String.ofList (ns.toList ++ '.' :: front)) (String.ofList back) (by
        rw [dotted_ofList, ← String.toList_inj, dotted_toList, hsplit]
        simp)).1
      have hlength := congrArg (fun s => s.toList.length) hother
      simp only [String.toList_ofList, List.length_append, List.length_cons] at hlength
      omega
  · rintro ⟨hns, hleaf⟩ other child heq
    have hlists : other.toList ++ '.' :: child.toList = ns.toList ++ '.' :: leaf.toList := by
      rw [← dotted_toList, ← dotted_toList, heq]
    have hcount : (other.toList ++ '.' :: child.toList).count '.' = 1 := by
      rw [hlists, List.count_append, List.count_cons_self, List.count_eq_zero_of_not_mem hns,
        List.count_eq_zero_of_not_mem hleaf]
    rw [List.count_append, List.count_cons_self] at hcount
    have hother : '.' ∉ other.toList := List.count_eq_zero.mp (by omega)
    have hfirst := splitOnce_dotted other child hother
    rw [heq, splitOnce_dotted ns leaf hns] at hfirst
    obtain ⟨hfront, hback⟩ := Prod.mk.inj (Option.some.inj hfirst)
    exact ⟨String.toList_inj.mp hfront.symm, String.toList_inj.mp hback.symm⟩

theorem qualifyCallName_eq {item : Value} (hns : item.strAt? "namespace" = some ns)
    (hname : item.strAt? "name" = some leaf) :
    qualifyCallName item =
      if ns ≠ "" ∧ startsWith (ns ++ ".") leaf = false then dotted ns leaf else leaf := by
  rw [qualifyCallName, hns, hname]
  rfl

theorem dotted_ne (ns leaf : String) : dotted ns leaf ≠ leaf := by
  intro h
  have hlength := congrArg (fun s => s.toList.length) h
  simp only [dotted_toList, List.length_append, List.length_cons] at hlength
  omega

def historyCall (ns leaf : String) : Value := .object [("namespace", ns), ("name", leaf)]

theorem qualified_iff : (∀ item : Value, item.strAt? "namespace" = some ns →
      item.strAt? "name" = some leaf → qualifyCallName item = dotted ns leaf) ↔
    ns ≠ "" ∧ startsWith (ns ++ ".") leaf = false := by
  constructor
  · intro h
    have hcall := h (historyCall ns leaf) rfl rfl
    have hns : (historyCall ns leaf).strAt? "namespace" = some ns := rfl
    rw [qualifyCallName_eq hns rfl] at hcall
    by_contra hno
    rw [if_neg hno] at hcall
    exact dotted_ne ns leaf hcall.symm
  · intro h item hns hname
    rw [qualifyCallName_eq hns hname, if_pos h]

theorem not_startsWith_dot (h : '.' ∉ leaf.toList) : startsWith (ns ++ ".") leaf = false := by
  rw [startsWith, Bool.eq_false_iff]
  intro hprefix
  refine h ((List.isPrefixOf_iff_prefix.mp hprefix).subset ?_)
  rw [String.toList_append]
  exact List.mem_append_right _ List.mem_cons_self

/-- Exactly the pairs of which neither name is empty or has a dot are reversible. -/
theorem namespace_reversible_iff (ns leaf : String) : Reversible ns leaf ↔
    (ns ≠ "" ∧ '.' ∉ ns.toList) ∧ leaf ≠ "" ∧ '.' ∉ leaf.toList := by
  constructor
  · rintro ⟨hsplit, hapart, _⟩
    obtain ⟨hns, hleaf, hdot⟩ := split_iff.mp hsplit
    exact ⟨⟨hns, hdot⟩, hleaf, (apart_iff.mp hapart).2⟩
  · rintro ⟨⟨hns, hdot⟩, hleaf, hleafDot⟩
    exact ⟨split_iff.mpr ⟨hns, hleaf, hdot⟩, apart_iff.mpr ⟨hdot, hleafDot⟩,
      qualified_iff.mpr ⟨hns, not_startsWith_dot hleafDot⟩⟩

/-- The namespace `a.b` with the leaf `c`, and `a` with `b.c`: one name, read as the second. -/
theorem dotted_namespace_collides : ¬ ∀ ns leaf,
    splitNamespaceName (dotted ns leaf) = some (ns, leaf) ∧
      ∀ other child, dotted other child = dotted ns leaf → other = ns ∧ child = leaf := by
  intro h
  have hother := (h "a.b" "c").2 "a" "b.c" (by decide)
  exact absurd hother.1 (by decide)

end Wiremux.NamespaceNames
