import Mathlib
import Wiremux.SseWrittenFrames

set_option autoImplicit false

/-!
# Lines that are not complete

An ASCII byte is read by itself, whatever stands around it. So once a line has
a colon its field name is settled, and a carriage return at its end is a
character of the text.
-/
namespace Wiremux.SsePartialLines
open Utf8Lossy SseReader SseWriting PercentDecoding SseReadBack

variable {a : UInt8} {bytes more : List UInt8}

theorem not_continuation (h : a.toNat < 0x80) : isContinuation a = false := by
  rw [← Bool.not_eq_true, isContinuation_iff]
  omega

theorem not_led (h : a.toNat < 0x80) (b : UInt8) :
    isPair b a = false ∧ leadsThree b a = false ∧ leadsFour b a = false := by
  refine ⟨?_, ?_, ?_⟩
  · rw [← Bool.not_eq_true, isPair_iff]
    omega
  · rw [← Bool.not_eq_true, leadsThree_iff]
    omega
  · rw [← Bool.not_eq_true, leadsFour_iff]
    omega

theorem fromUtf8Lossy_around (h : a.toNat < 0x80) (front back : List UInt8) :
    fromUtf8Lossy (front ++ a :: back) =
      fromUtf8Lossy front ++ Char.ofNat a.toNat :: fromUtf8Lossy back := by
  have hcont := not_continuation h
  have hread := fromUtf8Lossy_ascii h back
  have hled := not_led h
  have hunfold : ∀ b c rest, fromUtf8Lossy (b :: c :: rest) = _ :=
    fun b c rest => fromUtf8Lossy.eq_def (b :: c :: rest)
  simp only at hunfold
  induction front using fromUtf8Lossy.induct with
  | case1 => exact hread
  | case2 b =>
    simp only [List.cons_append, List.nil_append, hunfold, hled, hread, fromUtf8Lossy]
    split <;> simp
  | case3 b c rest hb ih =>
    rw [List.cons_append, List.cons_append, hunfold, hunfold, if_pos hb, if_pos hb, ← List.cons_append,
      ih, List.cons_append]
  | case4 b c rest hb hpair ih =>
    rw [List.cons_append, List.cons_append, hunfold, hunfold, if_neg hb, if_neg hb, if_pos hpair,
      if_pos hpair, ih, List.cons_append]
  | case5 b c hb hpair hleads =>
    simp only [List.cons_append, List.nil_append, hunfold, if_neg hb, if_neg hpair, if_pos hleads,
      hcont, hread, Bool.not_false, if_true]
  | case6 b c hb hpair hleads d rest hd ih =>
    simp only [List.cons_append, hunfold b c, if_neg hb, if_neg hpair, if_pos hleads, if_pos hd]
    rw [← List.cons_append, ih]
  | case7 b c hb hpair hleads d rest hd hthree ih =>
    simp only [List.cons_append, hunfold b c, if_neg hb, if_neg hpair, if_pos hleads, if_neg hd,
      if_pos hthree, ih]
  | case8 b c hb hpair hleads d hd hthree =>
    simp only [List.cons_append, List.nil_append, hunfold b c, if_neg hb, if_neg hpair, if_pos hleads,
      if_neg hd, if_neg hthree, hcont, hread, Bool.false_eq_true, if_false]
  | case9 b c hb hpair hleads d hd hthree e rest he ih =>
    simp only [List.cons_append, hunfold b c, if_neg hb, if_neg hpair, if_pos hleads, if_neg hd,
      if_neg hthree, if_pos he, ih]
  | case10 b c hb hpair hleads d hd hthree e rest he ih =>
    simp only [List.cons_append, hunfold b c, if_neg hb, if_neg hpair, if_pos hleads, if_neg hd,
      if_neg hthree, if_neg he]
    rw [← List.cons_append, ih]
  | case11 b c rest hb hpair hleads ih =>
    simp only [List.cons_append, hunfold b c, if_neg hb, if_neg hpair, if_neg hleads]
    rw [← List.cons_append, ih]

theorem length_of_ascii (h : ∀ c ∈ fromUtf8Lossy bytes, c.toNat < 0x80) :
    bytes.length = (fromUtf8Lossy bytes).length := by
  induction bytes with
  | nil => rfl
  | cons b rest ih =>
    by_cases hb : b.toNat < 0x80
    · rw [fromUtf8Lossy_ascii hb] at h ⊢
      rw [List.length_cons, List.length_cons, ih fun c hc => h c (List.mem_cons_of_mem _ hc)]
    · obtain ⟨c, tail, hread, hwide, _⟩ := fromUtf8Lossy_wide (Nat.le_of_not_lt hb) rest
      rw [hread] at h
      exact absurd (h c List.mem_cons_self) (Nat.not_lt.mpr hwide)

def colon : UInt8 := 0x3A

def stripBlank (value : List Char) : List Char :=
  match value with
  | ' ' :: value => value
  | value => value

theorem splitField_colon {name : List Char} (h : ':' ∉ name) (value : List Char) :
    splitField (name ++ ':' :: value) = (String.ofList name, String.ofList (stripBlank value)) := by
  have hkeep : ∀ c ∈ name, (decide (c ≠ ':')) = true := by
    intro c hc
    exact decide_eq_true fun heq => h (heq ▸ hc)
  rw [splitField, List.dropWhile_append_of_pos hkeep, List.takeWhile_append_of_pos hkeep]
  simp only [List.dropWhile_cons, List.takeWhile_cons, ne_eq, not_true_eq_false, decide_false,
    Bool.false_eq_true, if_false, List.append_nil]
  rfl

theorem splitField_plain {line : List Char} (h : ':' ∉ line) :
    splitField line = (String.ofList line, "") := by
  have hkeep : ∀ c ∈ line, (decide (c ≠ ':')) = true := by
    intro c hc
    exact decide_eq_true fun heq => h (heq ▸ hc)
  rw [splitField, List.dropWhile_eq_nil_iff.mpr hkeep]

/-- The line has a name with a colon behind it: the name is settled. -/
def NamesField (line : List UInt8) (name : String) : Prop :=
  colon ∈ line ∧ (splitField (fromUtf8Lossy line)).1 = name

theorem colon_notMem_lossy (h : colon ∉ bytes) : ':' ∉ fromUtf8Lossy bytes :=
  fun hmem => h (mem_fromUtf8Lossy (by decide) hmem)

theorem dropReturn_cons (h : a ≠ carriageReturn) (front back : List UInt8) :
    dropReturn (front ++ a :: back) = front ++ a :: dropReturn back := by
  rcases List.eq_nil_or_concat back with rfl | ⟨back, b, rfl⟩
  · have hback : dropReturn [] = [] := rfl
    rw [hback, dropReturn, if_neg]
    rw [List.getLast?_concat]
    exact fun heq => h (Option.some.inj heq)
  · rw [List.concat_eq_append]
    by_cases hb : b = carriageReturn
    · rw [hb, dropReturn_concat, ← List.cons_append, ← List.append_assoc, dropReturn_concat]
    · have hlast : (back ++ [b]).getLast? ≠ some carriageReturn := by
        rw [List.getLast?_concat]
        exact fun heq => hb (Option.some.inj heq)
      have hlong : (front ++ a :: (back ++ [b])).getLast? ≠ some carriageReturn := by
        rw [← List.cons_append, ← List.append_assoc, List.getLast?_concat]
        exact fun heq => hb (Option.some.inj heq)
      rw [dropReturn, if_neg hlong, dropReturn, if_neg hlast]

/-- The text of a line that ends here. -/
def lineText (line : List UInt8) : List Char := fromUtf8Lossy (dropReturn line)

/-- Once there is a colon, the line is its name, the colon and a value. -/
theorem lineText_colon (h : colon ∈ bytes) : ∃ name value, ':' ∉ name ∧
    fromUtf8Lossy bytes = name ++ ':' :: value ∧
    ∀ more, ∃ rest, lineText (bytes ++ more) = name ++ ':' :: rest := by
  obtain ⟨front, back, rfl, hfront⟩ := List.eq_append_cons_of_mem h
  have hascii : colon.toNat < 0x80 := by decide
  refine ⟨fromUtf8Lossy front, fromUtf8Lossy back, colon_notMem_lossy hfront,
    fromUtf8Lossy_around hascii front back, ?_⟩
  intro more
  refine ⟨fromUtf8Lossy (dropReturn (back ++ more)), ?_⟩
  rw [lineText, List.append_assoc, List.cons_append, dropReturn_cons (by decide)]
  exact fromUtf8Lossy_around hascii front (dropReturn (back ++ more))

theorem namesField_line {name : String} (h : NamesField bytes name) (more : List UInt8) :
    (splitField (lineText (bytes ++ more))).1 = name ∧ lineText (bytes ++ more) ≠ [] ∧
      ((lineText (bytes ++ more)).head? = some ':' ↔ name = "") := by
  obtain ⟨hcolon, hname⟩ := h
  obtain ⟨front, value, hfront, hread, hlines⟩ := lineText_colon hcolon
  obtain ⟨rest, hline⟩ := hlines more
  rw [hread, splitField_colon hfront] at hname
  rw [hline, splitField_colon hfront]
  refine ⟨hname, by simp, ?_⟩
  rw [← hname]
  cases front with
  | nil => simp
  | cons c front =>
    have hc : c ≠ ':' := fun heq => hfront (heq ▸ List.mem_cons_self)
    simp [hc]

theorem lineText_plain (h : colon ∉ bytes) : ':' ∉ lineText bytes := by
  refine colon_notMem_lossy fun hmem => h ?_
  unfold dropReturn at hmem
  split at hmem
  · exact List.mem_of_mem_dropLast hmem
  · exact hmem

end Wiremux.SsePartialLines
