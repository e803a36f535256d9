import Mathlib.Data.List.Basic

set_option autoImplicit false

/-!
# `String::from_utf8_lossy`

Every maximal part of an ill-formed sequence becomes one U+FFFD.
-/
namespace Wiremux.Utf8Lossy

def replacement : Char := Char.ofNat 0xFFFD

def isContinuation (b : UInt8) : Bool := 0x80 ≤ b && b ≤ 0xBF

def isPair (a b : UInt8) : Bool := 0xC2 ≤ a && a ≤ 0xDF && isContinuation b

/-- The first two bytes of a three-byte character; no surrogates, no overlong forms. -/
def leadsThree (a b : UInt8) : Bool :=
  (a == 0xE0 && 0xA0 ≤ b && b ≤ 0xBF) || (0xE1 ≤ a && a ≤ 0xEC && isContinuation b) ||
    (a == 0xED && 0x80 ≤ b && b ≤ 0x9F) || (0xEE ≤ a && a ≤ 0xEF && isContinuation b)

def leadsFour (a b : UInt8) : Bool :=
  (a == 0xF0 && 0x90 ≤ b && b ≤ 0xBF) || (0xF1 ≤ a && a ≤ 0xF3 && isContinuation b) ||
    (a == 0xF4 && 0x80 ≤ b && b ≤ 0x8F)

def charOf (lead : ℕ) (continuation : List UInt8) : Char :=
  Char.ofNat (continuation.foldl (fun acc b => acc * 64 + b.toNat % 64) lead)

def fromUtf8Lossy : List UInt8 → List Char
  | [] => []
  | [a] => [if a < 0x80 then Char.ofNat a.toNat else replacement]
  | a :: b :: rest =>
    if a < 0x80 then Char.ofNat a.toNat :: fromUtf8Lossy (b :: rest)
    else if isPair a b then charOf (a.toNat % 32) [b] :: fromUtf8Lossy rest
    else if leadsThree a b || leadsFour a b then
      match rest with
      | [] => [replacement]
      | c :: rest =>
        if !isContinuation c then replacement :: fromUtf8Lossy (c :: rest)
        else if leadsThree a b then charOf (a.toNat % 16) [b, c] :: fromUtf8Lossy rest
        else
          match rest with
          | [] => [replacement]
          | d :: rest =>
            if isContinuation d then charOf (a.toNat % 8) [b, c, d] :: fromUtf8Lossy rest
            else replacement :: fromUtf8Lossy (d :: rest)
    else replacement :: fromUtf8Lossy (b :: rest)

example : fromUtf8Lossy [0x68, 0xE2, 0x82, 0xAC, 0xE2, 0x82, 0x21] = ['h', '€', replacement, '!'] := by
  decide

theorem toNat_ofNat_byte {n : ℕ} (h : n < 256) : (UInt8.ofNat n).toNat = n := by
  rw [UInt8.toNat_ofNat']
  exact Nat.mod_eq_of_lt h

theorem not_ascii {a : UInt8} (h : 0x80 ≤ a.toNat) : ¬ a < 0x80 :=
  fun hlt => Nat.not_lt.mpr h (UInt8.lt_iff_toNat_lt.mp hlt)

theorem fromUtf8Lossy_cons (a b : UInt8) (rest : List UInt8) :
    fromUtf8Lossy (a :: b :: rest) =
      if a < 0x80 then Char.ofNat a.toNat :: fromUtf8Lossy (b :: rest)
      else if isPair a b then charOf (a.toNat % 32) [b] :: fromUtf8Lossy rest
      else if leadsThree a b || leadsFour a b then
        match rest with
        | [] => [replacement]
        | c :: rest =>
          if !isContinuation c then replacement :: fromUtf8Lossy (c :: rest)
          else if leadsThree a b then charOf (a.toNat % 16) [b, c] :: fromUtf8Lossy rest
          else
            match rest with
            | [] => [replacement]
            | d :: rest =>
              if isContinuation d then charOf (a.toNat % 8) [b, c, d] :: fromUtf8Lossy rest
              else replacement :: fromUtf8Lossy (d :: rest)
      else replacement :: fromUtf8Lossy (b :: rest) := by
  rw [fromUtf8Lossy.eq_def]

theorem fromUtf8Lossy_ascii {a : UInt8} (h : a.toNat < 0x80) (rest : List UInt8) :
    fromUtf8Lossy (a :: rest) = Char.ofNat a.toNat :: fromUtf8Lossy rest := by
  have ha : a < 0x80 := UInt8.lt_iff_toNat_lt.mpr h
  cases rest with
  | nil =>
    change [if a < 0x80 then Char.ofNat a.toNat else replacement] = [Char.ofNat a.toNat]
    rw [if_pos ha]
  | cons b rest => rw [fromUtf8Lossy_cons, if_pos ha]

theorem fromUtf8Lossy_pair {a b : UInt8} (ha : 0x80 ≤ a.toNat) (hpair : isPair a b = true)
    (rest : List UInt8) :
    fromUtf8Lossy (a :: b :: rest) = charOf (a.toNat % 32) [b] :: fromUtf8Lossy rest := by
  rw [fromUtf8Lossy_cons]
  simp only [if_neg (not_ascii ha), if_pos hpair]

theorem fromUtf8Lossy_three {a b c : UInt8} (ha : 0x80 ≤ a.toNat) (hpair : isPair a b = false)
    (hthree : leadsThree a b = true) (hc : isContinuation c = true) (rest : List UInt8) :
    fromUtf8Lossy (a :: b :: c :: rest) =
      charOf (a.toNat % 16) [b, c] :: fromUtf8Lossy rest := by
  rw [fromUtf8Lossy_cons]
  simp [if_neg (not_ascii ha), hpair, hthree, hc]

theorem fromUtf8Lossy_four {a b c d : UInt8} (ha : 0x80 ≤ a.toNat) (hpair : isPair a b = false)
    (hthree : leadsThree a b = false) (hfour : leadsFour a b = true)
    (hc : isContinuation c = true) (hd : isContinuation d = true) (rest : List UInt8) :
    fromUtf8Lossy (a :: b :: c :: d :: rest) =
      charOf (a.toNat % 8) [b, c, d] :: fromUtf8Lossy rest := by
  rw [fromUtf8Lossy_cons]
  simp [if_neg (not_ascii ha), hpair, hthree, hfour, hc, hd]

theorem isContinuation_iff (b : UInt8) : isContinuation b = true ↔ 0x80 ≤ b.toNat ∧ b.toNat ≤ 0xBF := by
  simp [isContinuation, UInt8.le_iff_toNat_le]

theorem isPair_iff (a b : UInt8) : isPair a b = true ↔
    0xC2 ≤ a.toNat ∧ a.toNat ≤ 0xDF ∧ 0x80 ≤ b.toNat ∧ b.toNat ≤ 0xBF := by
  simp [isPair, isContinuation_iff, UInt8.le_iff_toNat_le, and_assoc]

theorem leadsThree_iff (a b : UInt8) : leadsThree a b = true ↔
    0x80 ≤ b.toNat ∧ b.toNat ≤ 0xBF ∧ 0xE0 ≤ a.toNat ∧ a.toNat ≤ 0xEF ∧
      (a.toNat = 0xE0 → 0xA0 ≤ b.toNat) ∧ (a.toNat = 0xED → b.toNat ≤ 0x9F) := by
  simp [leadsThree, isContinuation_iff, UInt8.le_iff_toNat_le, ← UInt8.toNat_inj]
  omega

theorem leadsFour_iff (a b : UInt8) : leadsFour a b = true ↔
    0x80 ≤ b.toNat ∧ b.toNat ≤ 0xBF ∧ 0xF0 ≤ a.toNat ∧ a.toNat ≤ 0xF4 ∧
      (a.toNat = 0xF0 → 0x90 ≤ b.toNat) ∧ (a.toNat = 0xF4 → b.toNat ≤ 0x8F) := by
  simp [leadsFour, isContinuation_iff, UInt8.le_iff_toNat_le, ← UInt8.toNat_inj]
  omega

theorem fromUtf8Lossy_char (c : Char) (rest : List UInt8) :
    fromUtf8Lossy (String.utf8EncodeChar c ++ rest) = c :: fromUtf8Lossy rest := by
  have hvalid : c.val.toNat < 0xD800 ∨ (0xDFFF < c.val.toNat ∧ c.val.toNat < 0x110000) := c.valid
  have hchar := Char.ofNat_toNat c
  unfold String.utf8EncodeChar
  change Char.ofNat c.val.toNat = c at hchar
  generalize c.val.toNat = v at hvalid hchar
  simp only
  split
  · rename_i hone
    rw [List.singleton_append, fromUtf8Lossy_ascii (by rw [toNat_ofNat_byte (by omega)]; omega),
      toNat_ofNat_byte (by omega), hchar]
  · rename_i hone
    have hlast := toNat_ofNat_byte (n := v % 64 + 128) (by omega)
    have hcont : isContinuation (UInt8.ofNat (v % 64 + 128)) = true := by
      rw [isContinuation_iff, hlast]
      omega
    split
    · have ha := toNat_ofNat_byte (n := v / 64 % 32 + 192) (by omega)
      rw [List.cons_append, List.singleton_append, fromUtf8Lossy_pair (by omega)
        (by rw [isPair_iff, ha, hlast]; omega), charOf]
      simp only [List.foldl, ha, hlast]
      rw [show (v / 64 % 32 + 192) % 32 * 64 + (v % 64 + 128) % 64 = v by omega, hchar]
    · rename_i htwo
      have hthird := toNat_ofNat_byte (n := v / 64 % 64 + 128) (by omega)
      split
      · have ha := toNat_ofNat_byte (n := v / 4096 % 16 + 224) (by omega)
        rw [List.cons_append, List.cons_append, List.singleton_append,
          fromUtf8Lossy_three (by omega)
            (by rw [← Bool.not_eq_true, isPair_iff, ha, hthird]; omega)
            (by rw [leadsThree_iff, ha, hthird]; omega) hcont, charOf]
        simp only [List.foldl, ha, hthird, hlast]
        rw [show ((v / 4096 % 16 + 224) % 16 * 64 + (v / 64 % 64 + 128) % 64) * 64 +
          (v % 64 + 128) % 64 = v by omega, hchar]
      · rename_i hthree
        have ha := toNat_ofNat_byte (n := v / 262144 % 8 + 240) (by omega)
        have hsecond := toNat_ofNat_byte (n := v / 4096 % 64 + 128) (by omega)
        rw [List.cons_append, List.cons_append, List.cons_append, List.singleton_append,
          fromUtf8Lossy_four (by omega)
            (by rw [← Bool.not_eq_true, isPair_iff, ha, hsecond]; omega)
            (by rw [← Bool.not_eq_true, leadsThree_iff, ha, hsecond]; omega)
            (by rw [leadsFour_iff, ha, hsecond]; omega)
            (by rw [isContinuation_iff, hthird]; omega) hcont, charOf]
        simp only [List.foldl, ha, hsecond, hthird, hlast]
        rw [show (((v / 262144 % 8 + 240) % 8 * 64 + (v / 4096 % 64 + 128) % 64) * 64 +
          (v / 64 % 64 + 128) % 64) * 64 + (v % 64 + 128) % 64 = v by omega, hchar]

theorem fromUtf8Lossy_flatMap (text : List Char) (rest : List UInt8) :
    fromUtf8Lossy (text.flatMap String.utf8EncodeChar ++ rest) = text ++ fromUtf8Lossy rest := by
  induction text with
  | nil => rfl
  | cons c text ih =>
    rw [List.flatMap_cons, List.append_assoc, fromUtf8Lossy_char, ih]
    rfl

theorem mem_utf8EncodeChar_ascii {c : Char} {b : UInt8} (hb : b ∈ String.utf8EncodeChar c)
    (hascii : b.toNat < 0x80) : c = Char.ofNat b.toNat := by
  have hvalid : c.val.toNat < 0xD800 ∨ (0xDFFF < c.val.toNat ∧ c.val.toNat < 0x110000) := c.valid
  have hchar : Char.ofNat c.val.toNat = c := Char.ofNat_toNat c
  rw [← hchar]
  unfold String.utf8EncodeChar at hb
  generalize c.val.toNat = v at hvalid hb
  simp only at hb
  have hhigh : ∀ n, 128 ≤ n → n < 256 → b ≠ UInt8.ofNat n := by
    rintro n hn hlt rfl
    rw [toNat_ofNat_byte hlt] at hascii
    omega
  split at hb
  · rw [List.mem_singleton.mp hb, toNat_ofNat_byte (by omega)]
  · split at hb
    · simp only [List.mem_cons, List.not_mem_nil, or_false] at hb
      rcases hb with h | h
      · exact absurd h (hhigh _ (by omega) (by omega))
      · exact absurd h (hhigh _ (by omega) (by omega))
    · split at hb
      · simp only [List.mem_cons, List.not_mem_nil, or_false] at hb
        rcases hb with h | h | h
        · exact absurd h (hhigh _ (by omega) (by omega))
        · exact absurd h (hhigh _ (by omega) (by omega))
        · exact absurd h (hhigh _ (by omega) (by omega))
      · simp only [List.mem_cons, List.not_mem_nil, or_false] at hb
        rcases hb with h | h | h | h
        · exact absurd h (hhigh _ (by omega) (by omega))
        · exact absurd h (hhigh _ (by omega) (by omega))
        · exact absurd h (hhigh _ (by omega) (by omega))
        · exact absurd h (hhigh _ (by omega) (by omega))

section
variable {a b c d x : UInt8} {rest : List UInt8}

theorem isPair_low (h : b.toNat < 0x80) : isPair a b = false := by
  rw [← Bool.not_eq_true, isPair_iff]
  omega

theorem leads_low (h : b.toNat < 0x80) : (leadsThree a b || leadsFour a b) = false := by
  rw [← Bool.not_eq_true, Bool.or_eq_true, leadsThree_iff, leadsFour_iff]
  omega

theorem isContinuation_low (h : b.toNat < 0x80) : isContinuation b = false := by
  rw [← Bool.not_eq_true, isContinuation_iff]
  omega

theorem fromUtf8Lossy_stray (ha : ¬ a < 0x80) (hpair : isPair a b = false)
    (hleads : (leadsThree a b || leadsFour a b) = false) :
    fromUtf8Lossy (a :: b :: rest) = replacement :: fromUtf8Lossy (b :: rest) := by
  rw [fromUtf8Lossy_cons]
  simp [if_neg ha, hpair, hleads]

theorem fromUtf8Lossy_cut (ha : ¬ a < 0x80) (hpair : isPair a b = false)
    (hleads : (leadsThree a b || leadsFour a b) = true) (hc : isContinuation c = false) :
    fromUtf8Lossy (a :: b :: c :: rest) = replacement :: fromUtf8Lossy (c :: rest) := by
  rw [fromUtf8Lossy_cons]
  simp [if_neg ha, hpair, hleads, hc]

theorem fromUtf8Lossy_cutFour (ha : ¬ a < 0x80) (hpair : isPair a b = false)
    (hthree : leadsThree a b = false) (hfour : leadsFour a b = true) (hc : isContinuation c = true)
    (hd : isContinuation d = false) :
    fromUtf8Lossy (a :: b :: c :: d :: rest) = replacement :: fromUtf8Lossy (d :: rest) := by
  rw [fromUtf8Lossy_cons]
  simp [if_neg ha, hpair, hthree, hfour, hc, hd]

theorem fromUtf8Lossy_append (hx : x.toNat < 0x80) (front back : List UInt8) :
    fromUtf8Lossy (front ++ x :: back) = fromUtf8Lossy front ++ fromUtf8Lossy (x :: back) := by
  have hwide : ∀ a : UInt8, ¬ a < 0x80 → 0x80 ≤ a.toNat := fun a ha =>
    Nat.le_of_not_lt fun hlt => ha (UInt8.lt_iff_toNat_lt.mpr hlt)
  induction front using fromUtf8Lossy.induct with
  | case1 => rfl
  | case2 a =>
    by_cases ha : a < 0x80
    · have hlow := UInt8.lt_iff_toNat_lt.mp ha
      rw [List.cons_append, fromUtf8Lossy_ascii hlow, fromUtf8Lossy_ascii hlow]
      rfl
    · rw [List.cons_append, List.nil_append, fromUtf8Lossy_stray ha (isPair_low hx) (leads_low hx),
        fromUtf8Lossy, if_neg ha]
      rfl
  | case3 a b rest ha ih =>
    have hlow := UInt8.lt_iff_toNat_lt.mp ha
    rw [List.cons_append, fromUtf8Lossy_ascii hlow, fromUtf8Lossy_ascii hlow, ih]
    rfl
  | case4 a b rest ha hpair ih =>
    rw [List.cons_append, List.cons_append, fromUtf8Lossy_pair (hwide a ha) hpair,
      fromUtf8Lossy_pair (hwide a ha) hpair, ih]
    rfl
  | case5 a b ha hpair hleads =>
    have hpair := Bool.eq_false_iff.mpr hpair
    rw [List.cons_append, List.cons_append, List.nil_append,
      fromUtf8Lossy_cut ha hpair hleads (isContinuation_low hx)]
    simp [fromUtf8Lossy, ha, hpair, hleads]
  | case6 a b ha hpair hleads c rest hc ih =>
    have hpair := Bool.eq_false_iff.mpr hpair
    rw [Bool.not_eq_true'] at hc
    rw [List.cons_append, List.cons_append, List.cons_append, fromUtf8Lossy_cut ha hpair hleads hc,
      fromUtf8Lossy_cut ha hpair hleads hc, ← List.cons_append, ih]
    rfl
  | case7 a b ha hpair hleads c rest hc hthree ih =>
    have hpair := Bool.eq_false_iff.mpr hpair
    have hc : isContinuation c = true := by simpa using hc
    rw [List.cons_append, List.cons_append, List.cons_append,
      fromUtf8Lossy_three (hwide a ha) hpair hthree hc, fromUtf8Lossy_three (hwide a ha) hpair hthree hc,
      ih]
    rfl
  | case8 a b ha hpair hleads c hc hthree =>
    have hpair := Bool.eq_false_iff.mpr hpair
    have hc : isContinuation c = true := by simpa using hc
    have hthree := Bool.eq_false_iff.mpr hthree
    rw [hthree, Bool.false_or] at hleads
    rw [List.cons_append, List.cons_append, List.cons_append, List.nil_append,
      fromUtf8Lossy_cutFour ha hpair hthree hleads hc (isContinuation_low hx)]
    simp [fromUtf8Lossy, ha, hpair, hthree, hleads, hc]
  | case9 a b ha hpair hleads c hc hthree d rest hd ih =>
    have hpair := Bool.eq_false_iff.mpr hpair
    have hc : isContinuation c = true := by simpa using hc
    have hthree := Bool.eq_false_iff.mpr hthree
    rw [hthree, Bool.false_or] at hleads
    rw [List.cons_append, List.cons_append, List.cons_append, List.cons_append,
      fromUtf8Lossy_four (hwide a ha) hpair hthree hleads hc hd,
      fromUtf8Lossy_four (hwide a ha) hpair hthree hleads hc hd, ih]
    rfl
  | case10 a b ha hpair hleads c hc hthree d rest hd ih =>
    have hpair := Bool.eq_false_iff.mpr hpair
    have hc : isContinuation c = true := by simpa using hc
    have hthree := Bool.eq_false_iff.mpr hthree
    have hd := Bool.eq_false_iff.mpr hd
    rw [hthree, Bool.false_or] at hleads
    rw [List.cons_append, List.cons_append, List.cons_append, List.cons_append,
      fromUtf8Lossy_cutFour ha hpair hthree hleads hc hd,
      fromUtf8Lossy_cutFour ha hpair hthree hleads hc hd, ← List.cons_append, ih]
    rfl
  | case11 a b rest ha hpair hleads ih =>
    have hpair := Bool.eq_false_iff.mpr hpair
    have hleads := Bool.eq_false_iff.mpr hleads
    rw [List.cons_append, List.cons_append, fromUtf8Lossy_stray ha hpair hleads,
      fromUtf8Lossy_stray ha hpair hleads, ← List.cons_append, ih]
    rfl

end

end Wiremux.Utf8Lossy
