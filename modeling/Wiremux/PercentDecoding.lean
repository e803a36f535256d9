import Mathlib.Data.List.Infix
import Wiremux.SseWriting
import Wiremux.Utf8Lossy

set_option autoImplicit false

/-!
# Percent decoding

Passes over the bytes until one does not shrink them. What is left holds no
`%HH`, also after it is read as text with `from_utf8_lossy` and written again.
-/
namespace Wiremux.PercentDecoding
open Utf8Lossy SseWriting

def hexNibble (byte : UInt8) : Option UInt8 :=
  if 0x30 ≤ byte && byte ≤ 0x39 then some (byte - 0x30)
  else if 0x61 ≤ byte && byte ≤ 0x66 then some (byte - 0x61 + 10)
  else if 0x41 ≤ byte && byte ≤ 0x46 then some (byte - 0x41 + 10)
  else none

/-- The byte that a `%HH` at the head stands for. -/
def percentEncodedByte : List UInt8 → Option UInt8
  | percent :: hi :: lo :: _ =>
    if percent = 0x25 then
      (hexNibble hi).bind fun hi => (hexNibble lo).map fun lo => (hi <<< 4) ||| lo
    else none
  | _ => none

/-- One pass. What is no `%HH` is copied. -/
def percentDecode : List UInt8 → List UInt8
  | [] => []
  | [a] => [a]
  | [a, b] => [a, b]
  | a :: b :: c :: rest =>
    match percentEncodedByte (a :: b :: c :: rest) with
    | some byte => byte :: percentDecode rest
    | none => a :: percentDecode (b :: c :: rest)

def percentDecodePasses : ℕ → List UInt8 → List UInt8
  | 0, current => current
  | passes + 1, current =>
    let decoded := percentDecode current
    if current.length ≤ decoded.length then current else percentDecodePasses passes decoded

def percentDecodeUntilStable (input : List UInt8) : List UInt8 :=
  percentDecodePasses (input.length + 1) input

variable {a b x : UInt8} {bytes : List UInt8}

def Decoded (bytes : List UInt8) : Prop :=
  ∀ tail, tail <:+ bytes → percentEncodedByte tail = none

theorem percentDecode_cons (a : UInt8) (rest : List UInt8) :
    percentDecode (a :: rest) = match percentEncodedByte (a :: rest) with
      | some byte => byte :: percentDecode (rest.drop 2)
      | none => a :: percentDecode rest := by
  match rest with
  | [] => rfl
  | [_] => rfl
  | _ :: _ :: _ => rfl

theorem percentEncodedByte_of_ne (h : a ≠ 0x25) (rest : List UInt8) :
    percentEncodedByte (a :: rest) = none := by
  match rest with
  | [] => rfl
  | [_] => rfl
  | _ :: _ :: _ => rw [percentEncodedByte, if_neg h]

theorem decoded_nil : Decoded [] := by
  intro tail htail
  rw [List.suffix_nil.mp htail]
  rfl

theorem decoded_cons : Decoded (a :: bytes) ↔
    percentEncodedByte (a :: bytes) = none ∧ Decoded bytes := by
  constructor
  · intro h
    exact ⟨h _ List.suffix_rfl, fun tail htail => h tail (htail.trans (List.suffix_cons a bytes))⟩
  · rintro ⟨hhead, hrest⟩ tail htail
    rcases List.suffix_cons_iff.mp htail with rfl | htail
    · exact hhead
    · exact hrest tail htail

theorem Decoded.suffix {tail : List UInt8} (h : Decoded bytes) (htail : tail <:+ bytes) :
    Decoded tail :=
  fun short hshort => h short (hshort.trans htail)

theorem Decoded.front {front back : List UInt8} (h : Decoded (front ++ back)) : Decoded front := by
  intro tail htail
  obtain ⟨skipped, rfl⟩ := htail
  have hlong := h (tail ++ back) ⟨skipped, (List.append_assoc skipped tail back).symm⟩
  match tail, hlong with
  | [], _ => rfl
  | [_], _ => rfl
  | [_, _], _ => rfl
  | _ :: _ :: _ :: _, hlong => exact hlong

theorem length_percentDecode_le (bytes : List UInt8) :
    (percentDecode bytes).length ≤ bytes.length := by
  induction bytes using percentDecode.induct with
  | case1 => exact le_rfl
  | case2 a => exact le_rfl
  | case3 a b => exact le_rfl
  | case4 a b c rest byte hbyte ih =>
    rw [percentDecode, hbyte]
    simp only [List.length_cons]
    omega
  | case5 a b c rest hbyte ih =>
    rw [percentDecode, hbyte]
    simpa only [List.length_cons, Nat.add_le_add_iff_right] using ih

theorem decoded_of_length (h : bytes.length ≤ (percentDecode bytes).length) : Decoded bytes := by
  induction bytes with
  | nil => exact decoded_nil
  | cons a rest ih =>
    rw [percentDecode_cons] at h
    cases hbyte : percentEncodedByte (a :: rest) with
    | some byte =>
      rw [hbyte] at h
      have hle := length_percentDecode_le (rest.drop 2)
      have hlong : 2 ≤ rest.length := by
        match rest, hbyte with
        | _ :: _ :: _, _ => simp
      simp only [List.length_cons, List.length_drop] at h hle
      omega
    | none =>
      rw [hbyte] at h
      exact decoded_cons.mpr ⟨hbyte, ih (by simpa using h)⟩

theorem percentDecode_decoded (h : Decoded bytes) : percentDecode bytes = bytes := by
  induction bytes with
  | nil => rfl
  | cons a rest ih =>
    obtain ⟨hhead, hrest⟩ := decoded_cons.mp h
    rw [percentDecode_cons, hhead]
    exact congrArg (a :: ·) (ih hrest)

theorem mem_percentDecode (hpercent : x ≠ 0x25) (hdigit : hexNibble x = none) (h : x ∈ bytes) :
    x ∈ percentDecode bytes := by
  induction bytes using percentDecode.induct with
  | case1 => cases h
  | case2 a => exact h
  | case3 a b => exact h
  | case4 a b c rest byte hbyte ih =>
    rw [percentDecode, hbyte]
    rw [percentEncodedByte] at hbyte
    split at hbyte
    · rename_i ha
      have hb : x ≠ b := by
        rintro rfl
        rw [hdigit] at hbyte
        cases hbyte
      have hc : x ≠ c := by
        rintro rfl
        rw [hdigit] at hbyte
        cases hhigh : hexNibble b <;> rw [hhigh] at hbyte <;> cases hbyte
      have hrest : x ∈ rest := by
        rcases List.mem_cons.mp h with rfl | h
        · exact absurd ha hpercent
        · rcases List.mem_cons.mp h with rfl | h
          · exact absurd rfl hb
          · exact (List.mem_cons.mp h).resolve_left hc
      exact List.mem_cons_of_mem _ (ih hrest)
    · cases hbyte
  | case5 a b c rest hbyte ih =>
    rw [percentDecode, hbyte]
    rcases List.mem_cons.mp h with rfl | h
    · exact List.mem_cons_self
    · exact List.mem_cons_of_mem _ (ih h)

theorem decoded_passes {passes : ℕ} {current : List UInt8} (h : current.length < passes) :
    Decoded (percentDecodePasses passes current) := by
  induction passes generalizing current with
  | zero => cases h
  | succ passes ih =>
    rw [percentDecodePasses]
    split
    · rename_i hstable
      exact decoded_of_length hstable
    · rename_i hshrunk
      exact ih (by omega)

theorem decoded_untilStable (input : List UInt8) : Decoded (percentDecodeUntilStable input) :=
  decoded_passes (Nat.lt_succ_self _)

theorem untilStable_decoded (h : Decoded bytes) : percentDecodeUntilStable bytes = bytes := by
  rw [percentDecodeUntilStable, percentDecodePasses]
  rw [percentDecode_decoded h, if_pos le_rfl]

theorem mem_untilStable (hpercent : x ≠ 0x25) (hdigit : hexNibble x = none) (h : x ∈ bytes) :
    x ∈ percentDecodeUntilStable bytes := by
  unfold percentDecodeUntilStable
  generalize bytes.length + 1 = passes
  induction passes generalizing bytes with
  | zero => exact h
  | succ passes ih =>
    rw [percentDecodePasses]
    split
    · exact h
    · exact ih (mem_percentDecode hpercent hdigit h)

theorem percentEncodedByte_around (hdigit : hexNibble x = none) (hne : bytes ≠ [])
    (more : List UInt8) :
    percentEncodedByte (bytes ++ x :: more) = percentEncodedByte bytes := by
  match bytes with
  | [] => exact absurd rfl hne
  | [a] =>
    change percentEncodedByte (a :: x :: more) = none
    match more with
    | [] => rfl
    | b :: more => simp [percentEncodedByte, hdigit]
  | [a, b] =>
    change percentEncodedByte (a :: b :: x :: more) = none
    simp [percentEncodedByte, hdigit]
  | _ :: _ :: _ :: _ => rfl

theorem percentDecode_around (hpercent : x ≠ 0x25) (hdigit : hexNibble x = none)
    (front back : List UInt8) :
    percentDecode (front ++ x :: back) = percentDecode front ++ x :: percentDecode back := by
  induction hlength : front.length using Nat.strong_induction_on generalizing front with
  | _ length ih =>
    subst hlength
    cases front with
    | nil => rw [List.nil_append, percentDecode_cons, percentEncodedByte_of_ne hpercent]; rfl
    | cons a rest =>
      have haround := percentEncodedByte_around hdigit (List.cons_ne_nil a rest) back
      rw [List.cons_append] at haround ⊢
      rw [percentDecode_cons, percentDecode_cons, haround]
      cases hbyte : percentEncodedByte (a :: rest) with
      | none =>
        dsimp only
        rw [ih _ (Nat.lt_succ_self _) rest rfl]
        rfl
      | some byte =>
        have hlong : 2 ≤ rest.length := by
          match rest, hbyte with
          | _ :: _ :: _, _ => simp
        dsimp only
        have hshort : (rest.drop 2).length < (a :: rest).length := by
          simp only [List.length_drop, List.length_cons]
          omega
        rw [List.drop_append_of_le_length hlong, ih _ hshort (rest.drop 2) rfl]
        rfl

theorem passes_eq_iterate (passes : ℕ) (current : List UInt8) :
    percentDecodePasses passes current = percentDecode^[passes] current := by
  induction passes generalizing current with
  | zero => rfl
  | succ passes ih =>
    rw [percentDecodePasses, Function.iterate_succ_apply]
    split
    · rename_i hstable
      have hfixed := percentDecode_decoded (decoded_of_length hstable)
      rw [hfixed, Function.iterate_fixed hfixed]
    · exact ih _

theorem untilStable_eq_iterate {passes : ℕ} (h : bytes.length < passes) :
    percentDecodeUntilStable bytes = percentDecode^[passes] bytes := by
  obtain ⟨extra, rfl⟩ := Nat.exists_eq_add_of_le' h
  rw [Function.iterate_add_apply, ← passes_eq_iterate (bytes.length + 1)]
  exact (Function.iterate_fixed (percentDecode_decoded (decoded_untilStable bytes)) extra).symm

theorem untilStable_around (hpercent : x ≠ 0x25) (hdigit : hexNibble x = none)
    (front back : List UInt8) :
    percentDecodeUntilStable (front ++ x :: back) =
      percentDecodeUntilStable front ++ x :: percentDecodeUntilStable back := by
  have hrun : ∀ (passes : ℕ) (front back : List UInt8), percentDecode^[passes] (front ++ x :: back) =
      percentDecode^[passes] front ++ x :: percentDecode^[passes] back := by
    intro passes
    induction passes with
    | zero => intro front back; rfl
    | succ passes ih =>
      intro front back
      rw [Function.iterate_succ_apply, percentDecode_around hpercent hdigit, ih]
      rfl
  have hlength : (front ++ x :: back).length = front.length + back.length + 1 := by
    simp only [List.length_append, List.length_cons]
    omega
  rw [untilStable_eq_iterate (Nat.lt_succ_self _), hrun, ← untilStable_eq_iterate (by omega),
    ← untilStable_eq_iterate (by omega)]

theorem wide_ofNat {n : ℕ} (h : 0x80 ≤ n) (hvalid : n.isValidChar) : 0x80 ≤ (Char.ofNat n).toNat := by
  have hvalue : (Char.ofNat n).toNat = n := by
    rw [Char.ofNat, dif_pos hvalid]
    rfl
  rwa [hvalue]

theorem fromUtf8Lossy_wide (h : 0x80 ≤ a.toNat) (rest : List UInt8) :
    ∃ c tail, fromUtf8Lossy (a :: rest) = c :: fromUtf8Lossy tail ∧ 0x80 ≤ c.toNat ∧
      tail <:+ rest := by
  have hreplacement : 0x80 ≤ replacement.toNat := by decide
  cases rest with
  | nil => exact ⟨replacement, [], by simp [fromUtf8Lossy, not_ascii h], hreplacement, List.suffix_rfl⟩
  | cons b rest =>
    rw [fromUtf8Lossy.eq_def]
    simp only [if_neg (not_ascii h)]
    split
    · rename_i hpair
      rw [isPair_iff] at hpair
      refine ⟨_, rest, rfl, ?_, List.suffix_cons b rest⟩
      exact wide_ofNat (by simp only [List.foldl]; omega) (Or.inl (by simp only [List.foldl]; omega))
    · split
      · rename_i hleads
        rw [Bool.or_eq_true, leadsThree_iff, leadsFour_iff] at hleads
        cases rest with
        | nil => exact ⟨replacement, [], rfl, hreplacement, List.nil_suffix⟩
        | cons c rest =>
          have htail : rest <:+ b :: c :: rest :=
            (List.suffix_cons c rest).trans (List.suffix_cons b (c :: rest))
          dsimp only
          split
          · exact ⟨replacement, c :: rest, rfl, hreplacement, List.suffix_cons b (c :: rest)⟩
          · split
            · rename_i hthree
              rw [leadsThree_iff] at hthree
              refine ⟨_, rest, rfl, ?_, htail⟩
              refine wide_ofNat (by simp only [List.foldl]; omega) ?_
              have hlow : c.toNat % 64 < 64 := Nat.mod_lt _ (by omega)
              simp only [List.foldl, Nat.isValidChar]
              omega
            · rename_i hthree
              rw [leadsThree_iff] at hthree
              cases rest with
              | nil => exact ⟨replacement, [], rfl, hreplacement, List.nil_suffix⟩
              | cons d rest =>
                dsimp only
                split
                · refine ⟨_, rest, rfl, ?_, (List.suffix_cons d rest).trans htail⟩
                  have hfour := hleads.resolve_left hthree
                  have hc : c.toNat % 64 < 64 := Nat.mod_lt _ (by omega)
                  have hd : d.toNat % 64 < 64 := Nat.mod_lt _ (by omega)
                  refine wide_ofNat (by simp only [List.foldl]; omega) ?_
                  simp only [List.foldl, Nat.isValidChar]
                  omega
                · exact ⟨replacement, d :: rest, rfl, hreplacement, htail⟩
      · exact ⟨replacement, b :: rest, rfl, hreplacement, List.suffix_rfl⟩

theorem utf8EncodeChar_ascii {c : Char} (h : c.toNat < 0x80) :
    String.utf8EncodeChar c = [UInt8.ofNat c.toNat] := by
  have hlow : c.val.toNat ≤ 127 := Nat.le_of_lt_succ h
  rw [String.utf8EncodeChar]
  simp only [hlow, if_true]
  rfl

theorem toNat_asciiChar (h : a.toNat < 0x80) : (Char.ofNat a.toNat).toNat = a.toNat := by
  rw [Char.ofNat, dif_pos (Or.inl (by omega))]
  rfl

theorem utf8_asciiByte (h : a.toNat < 0x80) (text : List Char) :
    utf8 (Char.ofNat a.toNat :: text) = a :: utf8 text := by
  have hchar := toNat_asciiChar h
  rw [utf8, List.flatMap_cons, utf8EncodeChar_ascii (by omega), hchar, UInt8.ofNat_toNat]
  rfl

theorem wide_byte {c : Char} (hwide : 0x80 ≤ c.toNat) (h : x ∈ String.utf8EncodeChar c) :
    0x80 ≤ x.toNat := by
  by_contra hlow
  have hchar := mem_utf8EncodeChar_ascii h (by omega)
  rw [hchar, toNat_asciiChar (by omega)] at hwide
  exact hlow hwide

theorem mem_utf8_ascii {c : Char} {text : List Char} (h : c.toNat < 0x80) (hmem : c ∈ text) :
    UInt8.ofNat c.toNat ∈ utf8 text :=
  List.mem_flatMap.mpr ⟨c, hmem, by rw [utf8EncodeChar_ascii h]; exact List.mem_singleton_self _⟩

theorem mem_fromUtf8Lossy {c : Char} (hascii : c.toNat < 0x80) (h : c ∈ fromUtf8Lossy bytes) :
    UInt8.ofNat c.toNat ∈ bytes := by
  induction hlength : bytes.length using Nat.strong_induction_on generalizing bytes with
  | _ length ih =>
    subst hlength
    cases bytes with
    | nil => cases h
    | cons a rest =>
      by_cases hlow : a.toNat < 0x80
      · rw [fromUtf8Lossy_ascii hlow] at h
        rcases List.mem_cons.mp h with rfl | h
        · rw [toNat_asciiChar hlow, UInt8.ofNat_toNat]
          exact List.mem_cons_self
        · exact List.mem_cons_of_mem _ (ih _ (Nat.lt_succ_self _) h rfl)
      · obtain ⟨first, tail, hread, hwide, htail⟩ := fromUtf8Lossy_wide (Nat.le_of_not_lt hlow) rest
        rw [hread] at h
        rcases List.mem_cons.mp h with rfl | h
        · omega
        · have hshort := htail.length_le
          exact List.mem_cons_of_mem _ (htail.subset (ih _ (Nat.lt_succ_of_le hshort) h rfl))

/-- A low byte at the head of what is written again was at the head before. -/
theorem utf8_fromUtf8Lossy_head {more : List UInt8} (hlow : x.toNat < 0x80)
    (h : utf8 (fromUtf8Lossy bytes) = x :: more) :
    ∃ rest, bytes = x :: rest ∧ more = utf8 (fromUtf8Lossy rest) := by
  cases bytes with
  | nil => cases h
  | cons a rest =>
    by_cases ha : a.toNat < 0x80
    · rw [fromUtf8Lossy_ascii ha, utf8_asciiByte ha] at h
      injection h with hhead hmore
      exact ⟨rest, by rw [hhead], hmore.symm⟩
    · obtain ⟨first, tail, hread, hwide, _⟩ := fromUtf8Lossy_wide (Nat.le_of_not_lt ha) rest
      rw [hread, utf8, List.flatMap_cons] at h
      have hmem : x ∈ String.utf8EncodeChar first := by
        cases hfirst : String.utf8EncodeChar first with
        | nil => exact absurd hfirst String.utf8EncodeChar_ne_nil
        | cons b more =>
          rw [hfirst] at h
          injection h with hhead _
          rw [hhead]
          exact List.mem_cons_self
      have := wide_byte hwide hmem
      omega

theorem hexNibble_low {digit : UInt8} (h : hexNibble x = some digit) : x.toNat < 0x80 := by
  unfold hexNibble at h
  split at h
  · rename_i hrange
    simp [UInt8.le_iff_toNat_le] at hrange
    omega
  · split at h
    · rename_i hrange
      simp [UInt8.le_iff_toNat_le] at hrange
      omega
    · split at h
      · rename_i hrange
        simp [UInt8.le_iff_toNat_le] at hrange
        omega
      · cases h

theorem percentEncodedByte_digits {byte : UInt8} (h : percentEncodedByte bytes = some byte) :
    ∃ hi lo rest, bytes = 0x25 :: hi :: lo :: rest ∧ hi.toNat < 0x80 ∧ lo.toNat < 0x80 := by
  match bytes, h with
  | percent :: hi :: lo :: rest, h =>
    rw [percentEncodedByte] at h
    split at h
    · rename_i hpercent
      obtain ⟨high, hhigh, hlow⟩ := Option.bind_eq_some_iff.mp h
      obtain ⟨low, hlow, _⟩ := Option.map_eq_some_iff.mp hlow
      exact ⟨hi, lo, rest, by rw [hpercent], hexNibble_low hhigh, hexNibble_low hlow⟩
    · cases h

theorem percentEncodedByte_lossy (h : percentEncodedByte bytes = none) :
    percentEncodedByte (utf8 (fromUtf8Lossy bytes)) = none := by
  cases hbyte : percentEncodedByte (utf8 (fromUtf8Lossy bytes)) with
  | none => rfl
  | some byte =>
    obtain ⟨hi, lo, more, hwritten, hhi, hlo⟩ := percentEncodedByte_digits hbyte
    obtain ⟨behind, rfl, hdigits⟩ := utf8_fromUtf8Lossy_head (by decide) hwritten
    obtain ⟨last, rfl, hlast⟩ := utf8_fromUtf8Lossy_head hhi hdigits.symm
    obtain ⟨rest, rfl, _⟩ := utf8_fromUtf8Lossy_head hlo hlast.symm
    rw [hwritten] at hbyte
    rw [percentEncodedByte] at h hbyte
    rw [h] at hbyte
    cases hbyte

theorem decoded_append {front : List UInt8} (hfront : ∀ b ∈ front, 0x80 ≤ b.toNat)
    (h : Decoded bytes) : Decoded (front ++ bytes) := by
  induction front with
  | nil => exact h
  | cons b front ih =>
    have hb := hfront b List.mem_cons_self
    refine decoded_cons.mpr ⟨percentEncodedByte_of_ne ?_ _,
      ih fun b hmem => hfront b (List.mem_cons_of_mem _ hmem)⟩
    rintro rfl
    exact absurd hb (by decide)

theorem decoded_lossy (h : Decoded bytes) : Decoded (utf8 (fromUtf8Lossy bytes)) := by
  induction hlength : bytes.length using Nat.strong_induction_on generalizing bytes with
  | _ length ih =>
    subst hlength
    cases bytes with
    | nil => exact decoded_nil
    | cons a rest =>
      obtain ⟨hhead, hrest⟩ := decoded_cons.mp h
      by_cases hlow : a.toNat < 0x80
      · have hwritten := percentEncodedByte_lossy hhead
        rw [fromUtf8Lossy_ascii hlow, utf8_asciiByte hlow] at hwritten ⊢
        exact decoded_cons.mpr ⟨hwritten, ih _ (Nat.lt_succ_self _) hrest rfl⟩
      · obtain ⟨first, tail, hread, hwide, htail⟩ := fromUtf8Lossy_wide (Nat.le_of_not_lt hlow) rest
        have hshort := htail.length_le
        rw [hread, utf8, List.flatMap_cons]
        exact decoded_append (fun b hb => wide_byte hwide hb)
          (ih _ (Nat.lt_succ_of_le hshort) (hrest.suffix htail) rfl)

end Wiremux.PercentDecoding
