import Mathlib.Data.List.Induction
import Mathlib.Data.Nat.Notation
import Mathlib.Tactic.Linarith
import Wiremux.StoreReading

set_option autoImplicit false

/-!
# Numbers with a fixed count of digits

Decimal texts with zeros in front, their order and their value.
-/
namespace Wiremux.FixedDigits
open CredentialWriteback (padded)
open StoreReading (digitsOf)

def digit (n : ℕ) : Char := Nat.digitChar (n % 10)

def fixed : ℕ → ℕ → List Char
  | 0, _ => []
  | width + 1, n => fixed width (n / 10) ++ [digit n]

theorem fixed_length (width n : ℕ) : (fixed width n).length = width := by
  induction width generalizing n with
  | zero => rfl
  | succ width ih => rw [fixed, List.length_append, ih, List.length_singleton]

theorem digit_facts : ∀ n : Fin 10, (Nat.digitChar n).toNat = 48 + n ∧ (Nat.digitChar n).isDigit = true := by
  decide

theorem digit_toNat (n : ℕ) : (digit n).toNat = 48 + n % 10 :=
  (digit_facts ⟨n % 10, Nat.mod_lt n (by decide)⟩).1

theorem digit_isDigit (n : ℕ) : (digit n).isDigit = true :=
  (digit_facts ⟨n % 10, Nat.mod_lt n (by decide)⟩).2

theorem fixed_isDigit (width n : ℕ) : ∀ c ∈ fixed width n, c.isDigit = true := by
  induction width generalizing n with
  | zero => exact fun c hc => absurd hc List.not_mem_nil
  | succ width ih =>
    intro c hc
    rcases List.mem_append.mp hc with hc | hc
    · exact ih _ c hc
    · rw [List.mem_singleton.mp hc]
      exact digit_isDigit n

theorem isDigit_toNat {c : Char} (h : c.isDigit = true) : 48 ≤ c.toNat ∧ c.toNat ≤ 57 := by
  unfold Char.isDigit at h
  rw [Bool.and_eq_true, decide_eq_true_eq, decide_eq_true_eq] at h
  exact ⟨UInt32.le_iff_toNat_le.mp h.1, UInt32.le_iff_toNat_le.mp h.2⟩

theorem fixed_small (width : ℕ) {n : ℕ} (h : n < 10) :
    fixed (width + 1) n = List.replicate width '0' ++ [Nat.digitChar n] := by
  have hzero : ∀ width, fixed width 0 = List.replicate width '0' := by
    intro width
    induction width with
    | zero => rfl
    | succ width ih => rw [fixed, Nat.zero_div, ih, List.replicate_succ']; rfl
  rw [fixed, Nat.div_eq_of_lt h, hzero, digit, Nat.mod_eq_of_lt h]

theorem padded_toList (width : ℕ) {n : ℕ} (h : n < 10 ^ (width + 1)) :
    (padded (width + 1) n).toList = fixed (width + 1) n := by
  have htext : ∀ width n, (padded width n).toList =
      List.replicate (width - (Nat.toDigits 10 n).length) '0' ++ Nat.toDigits 10 n := by
    intro width n
    have hdigits : (toString n).toList = Nat.toDigits 10 n := Nat.toList_repr
    rw [padded, String.toList_append, String.toList_ofList, ← String.length_toList, hdigits]
  rw [htext]
  induction width generalizing n with
  | zero =>
    rw [Nat.pow_one] at h
    rw [Nat.toDigits_of_lt_base h, fixed_small 0 h]
    rfl
  | succ width ih =>
    by_cases hsmall : n < 10
    · rw [Nat.toDigits_of_lt_base hsmall, fixed_small _ hsmall, List.length_singleton,
        Nat.add_sub_cancel]
    · have hdiv : n / 10 < 10 ^ (width + 1) := by
        rw [Nat.div_lt_iff_lt_mul (by decide), ← Nat.pow_succ]
        exact h
      rw [Nat.toDigits_of_base_le (by decide) (by omega), List.length_append,
        List.length_singleton, fixed, ← ih hdiv, Nat.add_sub_add_right, List.append_assoc]
      rfl

theorem lt_of_append {front other : List Char} (hlength : front.length = other.length)
    (h : front < other) (more rest : List Char) : front ++ more < other ++ rest := by
  induction front generalizing other with
  | nil =>
    rw [List.length_nil] at hlength
    rw [List.length_eq_zero_iff.mp hlength.symm] at h
    exact absurd h (List.not_lt_nil [])
  | cons c front ih =>
    cases other with
    | nil => cases hlength
    | cons d other =>
      rw [List.cons_append, List.cons_append, List.cons_lt_cons_iff]
      rcases List.cons_lt_cons_iff.mp h with hlt | ⟨rfl, hlt⟩
      · exact .inl hlt
      · exact .inr ⟨rfl, ih (Nat.succ.inj hlength) hlt⟩

theorem fixed_lt {width n other : ℕ} (h : n < other) (hother : other < 10 ^ width) :
    fixed width n < fixed width other := by
  induction width generalizing n other with
  | zero =>
    rw [Nat.pow_zero] at hother
    omega
  | succ width ih =>
    have hdiv : other / 10 < 10 ^ width := by
      rw [Nat.div_lt_iff_lt_mul (by decide), ← Nat.pow_succ]
      exact hother
    rcases Nat.lt_or_eq_of_le (Nat.div_le_div_right (Nat.le_of_lt h) : n / 10 ≤ other / 10)
      with hlt | heq
    · exact lt_of_append ((fixed_length _ _).trans (fixed_length _ _).symm) (ih hlt hdiv) _ _
    · rw [fixed, fixed, heq]
      refine List.append_left_lt (List.cons_lt_cons_iff.mpr (.inl ?_))
      change (digit n).toNat < (digit other).toNat
      rw [digit_toNat, digit_toNat]
      omega

theorem digitsOf_fixed (width : ℕ) {n : ℕ} (h : n < 10 ^ (width + 1)) :
    digitsOf (fixed (width + 1) n) = some n := by
  have hvalue : ∀ width n, n < 10 ^ width →
      (fixed width n).foldl (fun n c => n * 10 + (c.toNat - '0'.toNat)) 0 = n := by
    intro width
    induction width with
    | zero =>
      intro n hn
      rw [Nat.pow_zero] at hn
      exact (Nat.lt_one_iff.mp hn).symm
    | succ width ih =>
      intro n hn
      have hdiv : n / 10 < 10 ^ width := by
        rw [Nat.div_lt_iff_lt_mul (by decide), ← Nat.pow_succ]
        exact hn
      rw [fixed, List.foldl_append, ih _ hdiv]
      change n / 10 * 10 + ((digit n).toNat - 48) = n
      rw [digit_toNat]
      omega
  have hempty : (fixed (width + 1) n).isEmpty = false := by
    cases htext : fixed (width + 1) n with
    | nil =>
      have hlength := fixed_length (width + 1) n
      rw [htext] at hlength
      cases hlength
    | cons c rest => rfl
  have hall : (fixed (width + 1) n).all Char.isDigit = true :=
    List.all_eq_true.mpr (fixed_isDigit (width + 1) n)
  rw [digitsOf, hempty, hall, hvalue _ n h]
  rfl

theorem digitsOf_lt {text : List Char} {n : ℕ} (h : digitsOf text = some n) :
    n < 10 ^ text.length := by
  have hvalue : ∀ text : List Char, (∀ c ∈ text, c.isDigit = true) →
      text.foldl (fun n c => n * 10 + (c.toNat - '0'.toNat)) 0 < 10 ^ text.length := by
    intro text hall
    induction text using List.reverseRecOn with
    | nil => decide
    | append_singleton text c ih =>
      have hfront := ih fun d hd => hall d (List.mem_append_left _ hd)
      have hc := isDigit_toNat (hall c (List.mem_append_right _ List.mem_cons_self))
      rw [List.foldl_append, List.length_append, List.length_singleton, Nat.pow_succ]
      change _ * 10 + (c.toNat - 48) < _
      omega
  unfold digitsOf at h
  split at h
  · cases h
  · rename_i hdigits
    cases h
    rw [Bool.or_eq_true, not_or, Bool.not_eq_true', Bool.not_eq_false] at hdigits
    exact hvalue text fun c hc => List.all_eq_true.mp hdigits.2 c hc

end Wiremux.FixedDigits
