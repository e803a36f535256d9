import Mathlib.Data.List.Basic
import Wiremux.PercentDecoding
import Wiremux.Utf8Lossy

set_option autoImplicit false

/-!
# Percent encoding

Some bytes are kept and the others become `%HH`. A pass of decoding gives the bytes
back, and a text is its own encoding when all its characters are kept.
-/
namespace Wiremux.PercentEncoding
open SseWriting PercentDecoding Utf8Lossy

def hexDigits : List Char := "0123456789ABCDEF".toList

def upperHex (nibble : UInt8) : Char := hexDigits.getD nibble.toNat '0'

def escaped (byte : UInt8) : List Char := ['%', upperHex (byte >>> 4), upperHex (byte &&& 0x0F)]

section
variable (kept : UInt8 → Bool)

def encodeByte (byte : UInt8) : List Char :=
  if kept byte then [Char.ofNat byte.toNat] else escaped byte

def percentEncode (text : List Char) : List Char := (utf8 text).flatMap (encodeByte kept)

/-- A character that is kept as it is. -/
def KeptChar (c : Char) : Prop := c.toNat < 0x80 ∧ kept (UInt8.ofNat c.toNat) = true

instance (c : Char) : Decidable (KeptChar kept c) := inferInstanceAs (Decidable (_ ∧ _))

/-- ASCII bytes are kept, but no percent sign. -/
structure KeepsPlain : Prop where
  ascii : ∀ byte, kept byte = true → byte.toNat < 0x80
  percent : kept 0x25 = false

end

variable {kept : UInt8 → Bool} {byte : UInt8} {text : List Char}

theorem hexNibble_upperHex : ∀ n : Fin 16, hexNibble (UInt8.ofNat (upperHex (UInt8.ofNat n)).toNat) =
    some (UInt8.ofNat n) := by
  decide

theorem upperHex_ascii : ∀ n : Fin 16, (upperHex (UInt8.ofNat n)).toNat < 0x80 := by decide

theorem high_nibble (byte : UInt8) : ∃ n : Fin 16, byte >>> 4 = UInt8.ofNat n := by
  refine ⟨⟨(byte >>> 4).toNat, ?_⟩, (UInt8.ofNat_toNat).symm⟩
  rw [UInt8.toNat_shiftRight]
  have hlt := byte.toNat_lt
  change byte.toNat >>> 4 < 16
  rw [Nat.shiftRight_eq_div_pow]
  omega

theorem low_nibble (byte : UInt8) : ∃ n : Fin 16, byte &&& 0x0F = UInt8.ofNat n := by
  refine ⟨⟨(byte &&& 0x0F).toNat, ?_⟩, (UInt8.ofNat_toNat).symm⟩
  rw [UInt8.toNat_and]
  exact Nat.lt_of_le_of_lt Nat.and_le_right (by decide)

theorem nibbles_join : ∀ n : Fin 256,
    ((UInt8.ofNat n >>> 4) <<< 4) ||| (UInt8.ofNat n &&& 0x0F) = UInt8.ofNat n := by
  decide +kernel

theorem join_nibbles (byte : UInt8) : ((byte >>> 4) <<< 4) ||| (byte &&& 0x0F) = byte := by
  have h := nibbles_join ⟨byte.toNat, byte.toNat_lt⟩
  simpa only [UInt8.ofNat_toNat] using h

theorem utf8_cons_ascii {c : Char} (h : c.toNat < 0x80) (rest : List Char) :
    utf8 (c :: rest) = UInt8.ofNat c.toNat :: utf8 rest := by
  rw [utf8, List.flatMap_cons, utf8EncodeChar_ascii h]
  rfl

theorem percentDecode_escaped (byte : UInt8) (rest : List UInt8) :
    percentDecode (utf8 (escaped byte) ++ rest) = byte :: percentDecode rest := by
  obtain ⟨high, hhigh⟩ := high_nibble byte
  obtain ⟨low, hlow⟩ := low_nibble byte
  have hbytes : utf8 (escaped byte) = [0x25, UInt8.ofNat (upperHex (byte >>> 4)).toNat,
      UInt8.ofNat (upperHex (byte &&& 0x0F)).toNat] := by
    rw [escaped, hhigh, hlow, utf8_cons_ascii (by decide), utf8_cons_ascii (upperHex_ascii high),
      utf8_cons_ascii (upperHex_ascii low)]
    rfl
  have hread : percentEncodedByte (utf8 (escaped byte) ++ rest) = some byte := by
    rw [hbytes]
    change (if (0x25 : UInt8) = 0x25 then _ else none) = _
    rw [if_pos rfl, hhigh, hlow, hexNibble_upperHex, hexNibble_upperHex]
    change some (UInt8.ofNat high <<< 4 ||| UInt8.ofNat low) = some byte
    rw [← hhigh, ← hlow, join_nibbles]
  rw [hbytes] at hread ⊢
  rw [List.cons_append, percentDecode_cons, ← List.cons_append, hread]
  rfl

theorem percentDecode_encodeByte (hkept : KeepsPlain kept) (byte : UInt8) (rest : List UInt8) :
    percentDecode (utf8 (encodeByte kept byte) ++ rest) = byte :: percentDecode rest := by
  unfold encodeByte
  split
  · rename_i h
    have hascii := hkept.ascii byte h
    have hne : byte ≠ 0x25 := by
      rintro rfl
      rw [hkept.percent] at h
      cases h
    have hone : utf8 [Char.ofNat byte.toNat] = [byte] := utf8_asciiByte hascii []
    rw [hone, List.singleton_append, percentDecode_cons, percentEncodedByte_of_ne hne]
  · exact percentDecode_escaped byte rest

theorem percentDecode_percentEncode (hkept : KeepsPlain kept) (text : List Char) :
    percentDecode (utf8 (percentEncode kept text)) = utf8 text := by
  unfold percentEncode
  induction utf8 text with
  | nil => rfl
  | cons byte rest ih =>
    rw [List.flatMap_cons, utf8_append, percentDecode_encodeByte hkept, ih]

theorem mem_encodeByte {c : Char} (h : c ∈ encodeByte kept byte) :
    (kept byte = true ∧ c = Char.ofNat byte.toNat) ∨ c ∈ escaped byte := by
  unfold encodeByte at h
  split at h
  · rename_i hk
    exact .inl ⟨hk, List.mem_singleton.mp h⟩
  · exact .inr h

theorem mem_escaped {c : Char} (h : c ∈ escaped byte) : c = '%' ∨ c ∈ hexDigits := by
  have hdigit : ∀ n : Fin 16, upperHex (UInt8.ofNat n) ∈ hexDigits := by decide
  obtain ⟨high, hhigh⟩ := high_nibble byte
  obtain ⟨low, hlow⟩ := low_nibble byte
  rw [escaped, hhigh, hlow] at h
  simp only [List.mem_cons, List.not_mem_nil, or_false] at h
  rcases h with rfl | rfl | rfl
  · exact .inl rfl
  · exact .inr (hdigit high)
  · exact .inr (hdigit low)

theorem mem_percentEncode (hkept : KeepsPlain kept) {c : Char} (h : c ∈ percentEncode kept text) :
    KeptChar kept c ∨ c = '%' ∨ c ∈ hexDigits := by
  obtain ⟨byte, _, hbyte⟩ := List.mem_flatMap.mp h
  rcases mem_encodeByte hbyte with ⟨hk, rfl⟩ | hescaped
  · have hascii := hkept.ascii byte hk
    refine .inl ⟨?_, ?_⟩
    · rw [toNat_asciiChar hascii]
      exact hascii
    · rw [toNat_asciiChar hascii, UInt8.ofNat_toNat]
      exact hk
  · exact .inr (mem_escaped hescaped)

theorem encodeByte_length (kept : UInt8 → Bool) (byte : UInt8) :
    1 ≤ (encodeByte kept byte).length ∧ ((encodeByte kept byte).length = 1 → kept byte = true) := by
  unfold encodeByte
  split
  · rename_i hk
    exact ⟨Nat.le_refl _, fun _ => hk⟩
  · exact ⟨by simp [escaped], fun h => by simp [escaped] at h⟩

theorem flatMap_encodeByte_length (kept : UInt8 → Bool) (bytes : List UInt8) :
    bytes.length ≤ (bytes.flatMap (encodeByte kept)).length := by
  induction bytes with
  | nil => exact Nat.le_refl _
  | cons byte rest ih =>
    have hone := (encodeByte_length kept byte).1
    rw [List.flatMap_cons, List.length_append, List.length_cons]
    omega

theorem utf8_length_le (text : List Char) : text.length ≤ (utf8 text).length := by
  induction text with
  | nil => exact Nat.le_refl _
  | cons c rest ih =>
    have hpos := List.length_pos_of_ne_nil (String.utf8EncodeChar_ne_nil (c := c))
    rw [utf8, List.flatMap_cons, List.length_append, List.length_cons]
    change rest.length + 1 ≤ _ + (utf8 rest).length
    omega

theorem percentEncode_cons (c : Char) (rest : List Char) : percentEncode kept (c :: rest) =
    (String.utf8EncodeChar c).flatMap (encodeByte kept) ++ percentEncode kept rest := by
  rw [percentEncode, utf8, List.flatMap_cons, List.flatMap_append]
  rfl

theorem percentEncode_kept {c : Char} (h : KeptChar kept c) (rest : List Char) :
    percentEncode kept (c :: rest) = c :: percentEncode kept rest := by
  obtain ⟨hascii, hk⟩ := h
  have hbyte : (UInt8.ofNat c.toNat).toNat = c.toNat := by
    rw [UInt8.toNat_ofNat']
    exact Nat.mod_eq_of_lt (by omega)
  rw [percentEncode_cons, utf8EncodeChar_ascii hascii, List.flatMap_singleton, encodeByte, if_pos hk,
    hbyte, Char.ofNat_toNat]
  rfl

theorem percentEncode_eq_self_iff (hkept : KeepsPlain kept) (text : List Char) :
    percentEncode kept text = text ↔ ∀ c ∈ text, KeptChar kept c := by
  constructor
  · intro h
    induction text with
    | nil => exact fun c hc => absurd hc List.not_mem_nil
    | cons c rest ih =>
      have hlengths := congrArg List.length h
      have hrest := (utf8_length_le rest).trans (flatMap_encodeByte_length kept (utf8 rest))
      have hfirst := flatMap_encodeByte_length kept (String.utf8EncodeChar c)
      have hpos := List.length_pos_of_ne_nil (String.utf8EncodeChar_ne_nil (c := c))
      rw [percentEncode_cons, List.length_append, List.length_cons] at hlengths
      change rest.length ≤ (percentEncode kept rest).length at hrest
      have hone : (String.utf8EncodeChar c).length = 1 := by omega
      obtain ⟨byte, hbyte⟩ := List.length_eq_one_iff.mp hone
      rw [hbyte, List.flatMap_singleton] at hlengths hfirst
      have hk : kept byte = true := (encodeByte_length kept byte).2 (by
        simp only [List.length_singleton] at hfirst
        omega)
      have hascii := hkept.ascii byte hk
      have hmem : byte ∈ String.utf8EncodeChar c := by
        rw [hbyte]
        exact List.mem_singleton_self _
      have hchar : c = Char.ofNat byte.toNat := mem_utf8EncodeChar_ascii hmem hascii
      have hc : KeptChar kept c := by
        refine ⟨?_, ?_⟩
        · rw [hchar, toNat_asciiChar hascii]
          exact hascii
        · rw [hchar, toNat_asciiChar hascii, UInt8.ofNat_toNat]
          exact hk
      rw [percentEncode_kept hc] at h
      intro d hd
      rcases List.mem_cons.mp hd with rfl | hd
      · exact hc
      · exact ih (List.cons.inj h).2 d hd
  · intro h
    induction text with
    | nil => rfl
    | cons c rest ih =>
      rw [percentEncode_kept (h c List.mem_cons_self),
        ih fun d hd => h d (List.mem_cons_of_mem _ hd)]

end Wiremux.PercentEncoding
