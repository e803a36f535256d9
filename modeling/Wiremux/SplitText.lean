import Mathlib.Data.List.Infix
import Wiremux.ChatDecoding

set_option autoImplicit false

/-!
# The first occurrence of a separator

Where `splitOnce` cuts depends on the text up to the separator alone.
-/
namespace Wiremux.SplitText
open ChatDecoding (splitOnce)

variable {sep text head tail : List Char}

theorem splitOnce_cons (sep : List Char) (c : Char) (rest : List Char) :
    splitOnce sep (c :: rest) =
      if sep.isPrefixOf (c :: rest) then some ([], (c :: rest).drop sep.length)
      else (splitOnce sep rest).map fun halves => (c :: halves.1, halves.2) := rfl

theorem splitOnce_eq (h : splitOnce sep text = some (head, tail)) : text = head ++ (sep ++ tail) := by
  induction text generalizing head with
  | nil =>
    rw [splitOnce] at h
    split at h
    · rename_i hempty
      cases h
      rw [List.isEmpty_iff.mp hempty]
      rfl
    · cases h
  | cons c rest ih =>
    rw [splitOnce_cons] at h
    split at h
    · rename_i hhere
      cases h
      exact (List.prefix_iff_eq_append.mp (List.isPrefixOf_iff_prefix.mp hhere)).symm
    · obtain ⟨halves, hrest, hhalves⟩ := Option.map_eq_some_iff.mp h
      cases hhalves
      rw [ih hrest]
      rfl

theorem length_tail_lt (hsep : sep ≠ []) (h : splitOnce sep text = some (head, tail)) :
    tail.length < text.length := by
  have hpos := List.length_pos_of_ne_nil hsep
  rw [splitOnce_eq h]
  simp only [List.length_append]
  omega

theorem splitOnce_none {c : Char} (hsep : c ∈ sep) (htext : c ∉ text) : splitOnce sep text = none := by
  cases h : splitOnce sep text with
  | none => rfl
  | some halves =>
    rw [splitOnce_eq h] at htext
    exact absurd (List.mem_append_right _ (List.mem_append_left _ hsep)) htext

theorem isPrefixOf_append {front : List Char} (h : sep.length ≤ front.length) (more : List Char) :
    sep.isPrefixOf (front ++ more) = sep.isPrefixOf front := by
  rw [Bool.eq_iff_iff, List.isPrefixOf_iff_prefix, List.isPrefixOf_iff_prefix]
  constructor
  · intro hprefix
    exact List.prefix_of_prefix_length_le hprefix (List.prefix_append front more) h
  · intro hprefix
    exact hprefix.trans (List.prefix_append front more)

theorem splitOnce_append (h : splitOnce sep text = some (head, tail)) (more : List Char) :
    splitOnce sep (text ++ more) = some (head, tail ++ more) := by
  have hlength : sep.length ≤ text.length := by
    rw [splitOnce_eq h]
    simp only [List.length_append]
    omega
  induction text generalizing head with
  | nil =>
    rw [splitOnce] at h
    split at h
    · rename_i hempty
      cases h
      rw [List.isEmpty_iff.mp hempty]
      cases more <;> rfl
    · cases h
  | cons c rest ih =>
    rw [List.cons_append, splitOnce_cons, ← List.cons_append, isPrefixOf_append hlength]
    rw [splitOnce_cons] at h
    split at h
    · rename_i hhere
      cases h
      rw [if_pos hhere, List.drop_append_of_le_length hlength]
    · rename_i hlater
      obtain ⟨halves, hrest, hhalves⟩ := Option.map_eq_some_iff.mp h
      cases hhalves
      have hshort : sep.length ≤ rest.length := by
        rw [splitOnce_eq hrest]
        simp only [List.length_append]
        omega
      rw [if_neg hlater, ih hrest hshort]
      rfl

theorem splitOnce_front (h : splitOnce sep text = some (head, tail)) :
    splitOnce sep (head ++ sep) = some (head, []) := by
  induction text generalizing head with
  | nil =>
    rw [splitOnce] at h
    split at h
    · rename_i hempty
      cases h
      rw [List.isEmpty_iff.mp hempty]
      rfl
    · cases h
  | cons c rest ih =>
    rw [splitOnce_cons] at h
    split at h
    · cases h
      rw [List.nil_append]
      cases sep with
      | nil => rfl
      | cons s more =>
        rw [splitOnce_cons, if_pos (List.isPrefixOf_iff_prefix.mpr List.prefix_rfl), List.drop_length]
    · rename_i hlater
      obtain ⟨halves, hrest, hhalves⟩ := Option.map_eq_some_iff.mp h
      cases hhalves
      rw [List.cons_append, splitOnce_cons, if_neg, ih hrest]
      · rfl
      · intro hhere
        refine hlater ?_
        rw [splitOnce_eq hrest, ← List.append_assoc, ← List.cons_append, isPrefixOf_append (by
          simp only [List.length_cons, List.length_append]; omega)]
        exact hhere

theorem splitOnce_behind (h : splitOnce sep text = some (head, tail)) (more : List Char) :
    splitOnce sep (head ++ (sep ++ more)) = some (head, more) := by
  rw [← List.append_assoc]
  exact splitOnce_append (splitOnce_front h) more

theorem splitOnce_at {c : Char} {front : List Char} (h : c ∉ front) (more : List Char) :
    splitOnce (c :: sep) (front ++ (c :: sep ++ more)) = some (front, more) := by
  induction front with
  | nil =>
    rw [List.nil_append, List.cons_append, splitOnce_cons, if_pos]
    · rw [← List.cons_append, List.drop_left]
    · exact List.isPrefixOf_iff_prefix.mpr (List.prefix_append (c :: sep) more)
  | cons x front ih =>
    obtain ⟨hx, hfront⟩ := not_or.mp (mt List.mem_cons.mpr h)
    rw [List.cons_append, splitOnce_cons, if_neg, ih hfront]
    · rfl
    · rw [List.isPrefixOf_iff_prefix]
      exact fun hprefix => hx (List.cons_prefix_cons.mp hprefix).1

theorem splitOnce_char (c : Char) (text : List Char) : splitOnce [c] text =
    if text.dropWhile (· != c) = [] then none
    else some (text.takeWhile (· != c), (text.dropWhile (· != c)).drop 1) := by
  induction text with
  | nil => rfl
  | cons d rest ih =>
    rw [splitOnce_cons]
    by_cases hd : d = c
    · subst hd
      rw [if_pos (by simp), List.takeWhile_cons_of_neg (by simp), List.dropWhile_cons_of_neg (by simp),
        if_neg (List.cons_ne_nil _ _)]
      rfl
    · rw [if_neg (by simpa using fun h => hd h.symm), ih, List.takeWhile_cons_of_pos (by simpa using hd),
        List.dropWhile_cons_of_pos (by simpa using hd)]
      split <;> rfl

end Wiremux.SplitText
