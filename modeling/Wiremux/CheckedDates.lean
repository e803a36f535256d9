import Wiremux.DateTexts

set_option autoImplicit false

/-!
# The two date parsers

`parse_rfc3339` stands twice in the source. Here each index, slice and sum that could
panic is checked.
-/
namespace Wiremux.CheckedDates
open Gregorian CivilDates FixedDigits DateTexts
open StoreReading (parseRfc3339 parseSigned parseUnsigned slice zoneStart offsetSecs digitsOf
  daysSinceEpoch)
open CredentialWriteback (formatRfc3339Epoch)

inductive Outcome (α : Type)
  | panic
  | err
  | ok (value : α)
deriving DecidableEq

namespace Outcome

variable {α β : Type}

def bind (x : Outcome α) (f : α → Outcome β) : Outcome β :=
  match x with
  | panic => panic
  | err => err
  | ok value => f value

def ofOption : Option α → Outcome α
  | none => err
  | some value => ok value

@[simp] theorem bind_ok (value : α) (f : α → Outcome β) : (ok value).bind f = f value := rfl

@[simp] theorem bind_err (f : α → Outcome β) : (err : Outcome α).bind f = err := rfl

@[simp] theorem ofOption_none : (ofOption none : Outcome α) = err := rfl

@[simp] theorem ofOption_some (value : α) : ofOption (some value) = ok value := rfl

end Outcome

def within (low high : ℤ) (n : ℤ) : Outcome ℤ := if low ≤ n ∧ n ≤ high then .ok n else .panic

def i32 : ℤ → Outcome ℤ := within (-2147483648) 2147483647

def i64 : ℤ → Outcome ℤ := within (-9223372036854775808) 9223372036854775807

def u64 : ℤ → Outcome ℤ := within 0 18446744073709551615

def byteAt (s : List Char) (i : ℕ) : Outcome Char :=
  match s[i]? with
  | some c => .ok c
  | none => .panic

/-- `&s[start..stop]` of an ASCII text. -/
def range (s : List Char) (start stop : ℕ) : Outcome (List Char) :=
  if start ≤ stop ∧ stop ≤ s.length then .ok (slice s start stop) else .panic

def get (s : List Char) (start stop : ℕ) : Outcome (List Char) :=
  if start ≤ stop ∧ stop ≤ s.length then .ok (slice s start stop) else .err

def helpersDays (year : ℤ) (month day : ℕ) : Outcome ℤ :=
  (if month ≤ 2 then i32 (year - 1) else .ok year).bind fun y =>
  let m : ℤ := if month ≤ 2 then month + 9 else month - 3
  let era := y / 400
  let yoe := y % 400
  (i64 ((153 * m + 2).tdiv 5 + day - 1)).bind fun doy =>
  (i64 (yoe * 365 + yoe.tdiv 4 - yoe.tdiv 100 + doy)).bind fun doe =>
  i64 (era * 146097 + doe - 719468)

def awsDays (year : ℤ) (month day : ℕ) : Outcome ℤ :=
  (if month ≤ 2 then i32 (year - 1) else .ok year).bind fun y =>
  let m : ℤ := if month ≤ 2 then month + 9 else month - 3
  let era := (if y ≥ 0 then y else y - 399).tdiv 400
  (u64 (y - era * 400)).bind fun yoe =>
  (i64 ((153 * m + 2).tdiv 5 + day - 1)).bind fun doy =>
  (u64 (yoe * 365 + yoe.tdiv 4 - yoe.tdiv 100 + doy)).bind fun doe =>
  i64 (era * 146097 + doe - 719468)

/-- What is different in the two parsers: how a field is cut, how the minutes of an
offset are, and the days. -/
structure DateCodec where
  cut : List Char → ℕ → ℕ → Outcome (List Char)
  minutes : List Char → ℕ → Outcome (List Char)
  days : ℤ → ℕ → ℕ → Outcome ℤ

def helpersCodec : DateCodec where
  cut := range
  minutes s i := if s.length < i + 2 then .err else range s i (i + 2)
  days := helpersDays

def awsCodec : DateCodec where
  cut := get
  minutes s i := get s i (i + 2)
  days := awsDays

section
variable (codec : DateCodec)

def zoneStartChecked (s : List Char) : Outcome (Option ℕ) :=
  if 19 < s.length then
    (byteAt s 19).bind fun c =>
      if c = '.' then
        (range s 20 s.length).bind fun rest =>
          .ok ((rest.findIdx? fun c => c = 'Z' || c = '+' || c = '-').map (· + 20))
      else .ok (some 19)
  else .ok none

def offsetAt (s : List Char) (pos : ℕ) : Outcome ℤ :=
  (byteAt s pos).bind fun c =>
  let sign : ℤ := if c = '+' then 1 else -1
  (codec.cut s (pos + 1) (pos + 3)).bind fun hours =>
  (Outcome.ofOption (parseSigned hours)).bind fun oh =>
  (byteAt s (pos + 3)).bind fun c =>
  (codec.minutes s (if c = ':' then pos + 4 else pos + 3)).bind fun minutes =>
  (Outcome.ofOption (parseSigned minutes)).bind fun om =>
  i64 (sign * (oh * 3600 + om * 60))

def offsetChecked (s : List Char) : Outcome ℤ :=
  (zoneStartChecked s).bind fun start =>
    match start with
    | none => .ok 0
    | some pos =>
      if s[pos]? = some 'Z' then .ok 0
      else if s.length < pos + 5 then .ok 0
      else offsetAt codec s pos

def unsignedField (s : List Char) (start stop : ℕ) : Outcome ℕ :=
  (codec.cut s start stop).bind fun text => Outcome.ofOption (parseUnsigned text)

def parseChecked (text : String) : Outcome ℕ :=
  let s := (JsonValue.trim text).toList
  if (JsonValue.trim text).utf8ByteSize < 19 || !s.all (fun c => decide (c.toNat < 128)) then .err
  else
    (codec.cut s 0 4).bind fun yearText =>
    (Outcome.ofOption (parseSigned yearText)).bind fun year =>
    (unsignedField codec s 5 7).bind fun month =>
    (unsignedField codec s 8 10).bind fun day =>
    (unsignedField codec s 11 13).bind fun hour =>
    (unsignedField codec s 14 16).bind fun min =>
    (unsignedField codec s 17 19).bind fun sec =>
      if month < 1 || 12 < month || day < 1 || 31 < day || 23 < hour || 59 < min || 59 < sec then .err
      else
        (codec.days year month day).bind fun days =>
        (i64 (days * 86400 + hour * 3600 + min * 60 + sec)).bind fun base =>
        (offsetChecked codec s).bind fun offset =>
        (i64 (base - offset)).bind fun total =>
        -- `UNIX_EPOCH + Duration` is a time with signed seconds
        (i64 (max total 0)).bind fun seconds => .ok seconds.toNat

end

structure Lawful (codec : DateCodec) : Prop where
  cut : ∀ s start stop, start ≤ stop → stop ≤ s.length → codec.cut s start stop = .ok (slice s start stop)
  minutes : ∀ s i, codec.minutes s i = if s.length < i + 2 then .err else .ok (slice s i (i + 2))
  days : ∀ (year : ℤ) (month day : ℕ), -10000 < year → year < 10000 → 1 ≤ month → month ≤ 12 →
    1 ≤ day → day ≤ 31 → codec.days year month day = .ok (daysSinceEpoch year month day)

theorem within_ok {low high n : ℤ} (hlow : low ≤ n) (hhigh : n ≤ high) :
    within low high n = .ok n := if_pos ⟨hlow, hhigh⟩

theorem range_ok {s : List Char} {start stop : ℕ} (h : start ≤ stop) (hs : stop ≤ s.length) :
    range s start stop = .ok (slice s start stop) := if_pos ⟨h, hs⟩

theorem byteAt_ok {s : List Char} {i : ℕ} (h : i < s.length) : ∃ c, s[i]? = some c ∧ byteAt s i = .ok c := by
  refine ⟨s[i], List.getElem?_eq_getElem h, ?_⟩
  rw [byteAt, List.getElem?_eq_getElem h]

theorem era_ok {y : ℤ} {m day : ℤ} (hy : -10001 ≤ y ∧ y < 10000) (hm : 0 ≤ m ∧ m ≤ 11)
    (hday : 1 ≤ day ∧ day ≤ 31) :
    (i64 ((153 * m + 2).tdiv 5 + day - 1)) = .ok ((153 * m + 2) / 5 + day - 1) ∧
    (i64 (y % 400 * 365 + (y % 400).tdiv 4 - (y % 400).tdiv 100 + ((153 * m + 2) / 5 + day - 1))) =
      .ok (y % 400 * 365 + y % 400 / 4 - y % 400 / 100 + ((153 * m + 2) / 5 + day - 1)) ∧
    (u64 (y % 400 * 365 + (y % 400).tdiv 4 - (y % 400).tdiv 100 + ((153 * m + 2) / 5 + day - 1))) =
      .ok (y % 400 * 365 + y % 400 / 4 - y % 400 / 100 + ((153 * m + 2) / 5 + day - 1)) ∧
    i64 (y / 400 * 146097 + (y % 400 * 365 + y % 400 / 4 - y % 400 / 100 +
      ((153 * m + 2) / 5 + day - 1)) - 719468) = .ok (y / 400 * 146097 + (y % 400 * 365 +
        y % 400 / 4 - y % 400 / 100 + ((153 * m + 2) / 5 + day - 1)) - 719468) := by
  have hyoe : 0 ≤ y % 400 ∧ y % 400 < 400 := by omega
  have hera : -26 ≤ y / 400 ∧ y / 400 < 25 := by omega
  have hfour : (y % 400).tdiv 4 = y % 400 / 4 := Int.tdiv_eq_ediv_of_nonneg hyoe.1
  have hhundred : (y % 400).tdiv 100 = y % 400 / 100 := Int.tdiv_eq_ediv_of_nonneg hyoe.1
  have hfive : (153 * m + 2).tdiv 5 = (153 * m + 2) / 5 :=
    Int.tdiv_eq_ediv_of_nonneg (by omega)
  have hdoy : 0 ≤ (153 * m + 2) / 5 + day - 1 ∧ (153 * m + 2) / 5 + day - 1 ≤ 367 := by omega
  rw [hfour, hhundred, hfive]
  generalize y % 400 = yoe at *
  generalize y / 400 = era at *
  generalize (153 * m + 2) / 5 + day - 1 = doy at *
  have hdoe : 0 ≤ yoe * 365 + yoe / 4 - yoe / 100 + doy ∧
      yoe * 365 + yoe / 4 - yoe / 100 + doy ≤ 200000 := by omega
  generalize yoe * 365 + yoe / 4 - yoe / 100 + doy = doe at *
  exact ⟨within_ok (by omega) (by omega), within_ok (by omega) (by omega),
    within_ok (by omega) (by omega), within_ok (by omega) (by omega)⟩

theorem shifted_year {year : ℤ} {month : ℕ} (hlow : -10000 < year) (hhigh : year < 10000) :
    (if month ≤ 2 then i32 (year - 1) else .ok year) =
      .ok (if month ≤ 2 then year - 1 else year) := by
  split
  · exact within_ok (by omega) (by omega)
  · rfl

theorem helpersDays_ok (year : ℤ) (month day : ℕ) (hlow : -10000 < year) (hhigh : year < 10000)
    (hpos : 1 ≤ month) (hle : month ≤ 12) (hday : 1 ≤ day) (hday' : day ≤ 31) :
    helpersDays year month day = .ok (daysSinceEpoch year month day) := by
  have hy : -10001 ≤ (if month ≤ 2 then year - 1 else year) ∧
      (if month ≤ 2 then year - 1 else year) < 10000 := by
    split <;> omega
  have hm : 0 ≤ (if month ≤ 2 then (month : ℤ) + 9 else month - 3) ∧
      (if month ≤ 2 then (month : ℤ) + 9 else month - 3) ≤ 11 := by
    split <;> omega
  obtain ⟨hdoy, hdoe, _, hdays⟩ := era_ok hy hm (show 1 ≤ (day : ℤ) ∧ (day : ℤ) ≤ 31 by omega)
  unfold helpersDays daysSinceEpoch
  rw [shifted_year hlow hhigh, Outcome.bind_ok]
  dsimp only
  rw [hdoy, Outcome.bind_ok, hdoe, Outcome.bind_ok, hdays]
  have hcast : ((if month ≤ 2 then month + 9 else month - 3 : ℕ) : ℤ) =
      if month ≤ 2 then (month : ℤ) + 9 else month - 3 := by
    split <;> omega
  rw [hcast]

theorem awsDays_ok (year : ℤ) (month day : ℕ) (hlow : -10000 < year) (hhigh : year < 10000)
    (hpos : 1 ≤ month) (hle : month ≤ 12) (hday : 1 ≤ day) (hday' : day ≤ 31) :
    awsDays year month day = .ok (daysSinceEpoch year month day) := by
  have hy : -10001 ≤ (if month ≤ 2 then year - 1 else year) ∧
      (if month ≤ 2 then year - 1 else year) < 10000 := by
    split <;> omega
  have hm : 0 ≤ (if month ≤ 2 then (month : ℤ) + 9 else month - 3) ∧
      (if month ≤ 2 then (month : ℤ) + 9 else month - 3) ≤ 11 := by
    split <;> omega
  obtain ⟨hdoy, _, hdoe, hdays⟩ := era_ok hy hm (show 1 ≤ (day : ℤ) ∧ (day : ℤ) ≤ 31 by omega)
  have hcast : ((if month ≤ 2 then month + 9 else month - 3 : ℕ) : ℤ) =
      if month ≤ 2 then (month : ℤ) + 9 else month - 3 := by
    split <;> omega
  unfold awsDays daysSinceEpoch
  rw [shifted_year hlow hhigh, Outcome.bind_ok]
  dsimp only
  rw [hcast]
  generalize (if month ≤ 2 then year - 1 else year) = y at *
  have hera : (if y ≥ 0 then y else y - 399).tdiv 400 = y / 400 := by
    split
    · exact Int.tdiv_eq_ediv_of_nonneg (by omega)
    · rw [show y - 399 = -(399 - y) by omega, Int.neg_tdiv,
        Int.tdiv_eq_ediv_of_nonneg (by omega)]
      omega
  have hyoe : u64 (y - y / 400 * 400) = .ok (y % 400) := by
    rw [show y - y / 400 * 400 = y % 400 by omega]
    exact within_ok (by omega) (by omega)
  rw [hera, hyoe, Outcome.bind_ok, hdoy, Outcome.bind_ok, hdoe, Outcome.bind_ok, hdays]

theorem helpers_lawful : Lawful helpersCodec where
  cut _ _ _ h hs := range_ok h hs
  minutes s i := by
    change (if s.length < i + 2 then Outcome.err else range s i (i + 2)) = _
    split
    · rfl
    · exact range_ok (Nat.le_add_right i 2) (by omega)
  days := helpersDays_ok

theorem aws_lawful : Lawful awsCodec where
  cut _ _ _ h hs := if_pos ⟨h, hs⟩
  minutes s i := by
    change get s i (i + 2) = _
    unfold get
    split
    · rename_i h
      rw [if_neg (by omega)]
    · rename_i h
      rw [if_pos (by omega)]
  days := awsDays_ok

variable {codec : DateCodec}

theorem parseSigned_lt {text : List Char} {n : ℤ} (h : parseSigned text = some n) :
    n.natAbs < 10 ^ text.length := by
  have hmono : ∀ c : Char, ∀ rest : List Char, 10 ^ rest.length ≤ 10 ^ (c :: rest).length :=
    fun c rest => Nat.pow_le_pow_right (by decide) (Nat.le_succ _)
  unfold parseSigned at h
  split at h
  · rename_i rest
    obtain ⟨k, hk, rfl⟩ := Option.map_eq_some_iff.mp h
    obtain ⟨j, hj, hcast⟩ := Option.bind_eq_some_iff.mp hk
    cases hcast
    have hlt := digitsOf_lt hj
    have hle := hmono '-' rest
    omega
  · obtain ⟨k, hk, rfl⟩ := Option.map_eq_some_iff.mp h
    obtain ⟨j, hj, hcast⟩ := Option.bind_eq_some_iff.mp hk
    cases hcast
    unfold parseUnsigned at hj
    split at hj
    · rename_i rest _
      have hlt := digitsOf_lt hj
      have hle := hmono '+' rest
      omega
    · exact digitsOf_lt hj

theorem slice_length (s : List Char) (start stop : ℕ) : (slice s start stop).length ≤ stop - start :=
  List.length_take_le _ _

theorem signed_slice {s : List Char} {start stop : ℕ} {n : ℤ}
    (h : parseSigned (slice s start stop) = some n) : n.natAbs < 10 ^ (stop - start) :=
  (parseSigned_lt h).trans_le (Nat.pow_le_pow_right (by decide) (slice_length s start stop))

theorem zoneStartChecked_eq (s : List Char) : zoneStartChecked s = .ok (zoneStart s) := by
  unfold zoneStartChecked zoneStart
  split
  · rename_i hlt
    obtain ⟨c, hc, hbyte⟩ := byteAt_ok hlt
    rw [hbyte, hc, Outcome.bind_ok]
    by_cases hdot : c = '.'
    · have hslice : slice s 20 s.length = s.drop 20 := by
        rw [slice, ← List.length_drop, List.take_length]
      rw [if_pos hdot, if_pos (congrArg some hdot), range_ok (by omega) (Nat.le_refl _),
        Outcome.bind_ok, hslice]
    · rw [if_neg hdot, if_neg fun h => hdot (Option.some.inj h)]
  · rename_i hlt
    rw [List.getElem?_eq_none (by omega), if_neg (by simp)]

theorem offsetChecked_eq (hcodec : Lawful codec) (s : List Char) :
    offsetChecked codec s = Outcome.ofOption (offsetSecs s) ∧
      ∀ offset ∈ offsetSecs s, -400000 < offset ∧ offset < 400000 := by
  unfold offsetChecked offsetSecs
  rw [zoneStartChecked_eq, Outcome.bind_ok]
  cases zoneStart s with
  | none => exact ⟨rfl, fun offset h => by cases h; decide⟩
  | some pos =>
    dsimp only
    by_cases hz : s[pos]? = some 'Z'
    · rw [if_pos hz, if_pos hz]
      exact ⟨rfl, fun offset h => by cases h; decide⟩
    · rw [if_neg hz, if_neg hz]
      by_cases hshort : s.length < pos + 5
      · rw [if_pos hshort, if_pos hshort]
        exact ⟨rfl, fun offset h => by cases h; decide⟩
      · rw [if_neg hshort, if_neg hshort]
        obtain ⟨c, hc, hbyte⟩ := byteAt_ok (show pos < s.length by omega)
        obtain ⟨colon, hcolon, hbyteColon⟩ := byteAt_ok (show pos + 3 < s.length by omega)
        unfold offsetAt
        rw [hbyte, Outcome.bind_ok, hcodec.cut s _ _ (by omega) (by omega), Outcome.bind_ok, hc,
          hcolon, hbyteColon]
        have hsame : (if some colon = some ':' then pos + 4 else pos + 3) =
            if colon = ':' then pos + 4 else pos + 3 := by
          by_cases h : colon = ':'
          · rw [if_pos h, if_pos (congrArg some h)]
          · rw [if_neg h, if_neg fun heq => h (Option.some.inj heq)]
        have hsign : (if some c = some '+' then (1 : ℤ) else -1) = if c = '+' then 1 else -1 := by
          by_cases h : c = '+'
          · rw [if_pos h, if_pos (congrArg some h)]
          · rw [if_neg h, if_neg fun heq => h (Option.some.inj heq)]
        rw [hsame, hsign]
        simp only [Outcome.bind_ok]
        generalize (if colon = ':' then pos + 4 else pos + 3) = start
        generalize hsignum : (if c = '+' then (1 : ℤ) else -1) = sign
        have hunit : sign = 1 ∨ sign = -1 := by
          rw [← hsignum]
          split
          · exact .inl rfl
          · exact .inr rfl
        rw [hcodec.minutes s start]
        cases hhours : parseSigned (slice s (pos + 1) (pos + 3)) with
        | none =>
          split
          · exact ⟨rfl, fun offset h => by cases h⟩
          · exact ⟨rfl, fun offset h => by cases h⟩
        | some oh =>
          have hohlt := signed_slice hhours
          rw [show pos + 3 - (pos + 1) = 2 by omega] at hohlt
          rw [Outcome.ofOption_some, Outcome.bind_ok]
          split
          · exact ⟨rfl, fun offset h => by cases h⟩
          · rw [Outcome.bind_ok, Option.bind_some]
            cases hminutes : parseSigned (slice s start (start + 2)) with
            | none => exact ⟨rfl, fun offset h => by cases h⟩
            | some om =>
              have homlt := signed_slice hminutes
              rw [Nat.add_sub_cancel_left] at homlt
              rw [Outcome.ofOption_some, Outcome.bind_ok, Option.map_some]
              have hbound : -400000 < sign * (oh * 3600 + om * 60) ∧
                  sign * (oh * 3600 + om * 60) < 400000 := by
                rcases hunit with rfl | rfl <;> omega
              refine ⟨within_ok (by omega) (by omega), fun offset h => ?_⟩
              cases h
              exact hbound

theorem unsignedField_eq (hcodec : Lawful codec) {s : List Char} {start stop : ℕ}
    (h : start ≤ stop) (hs : stop ≤ s.length) :
    unsignedField codec s start stop = Outcome.ofOption (parseUnsigned (slice s start stop)) := by
  rw [unsignedField, hcodec.cut s start stop h hs, Outcome.bind_ok]

theorem ascii_size {s : List Char} (h : ∀ c ∈ s, c.toNat < 128) :
    (String.ofList s).utf8ByteSize = s.length := by
  induction s with
  | nil => rfl
  | cons c s ih =>
    have happend : String.ofList (c :: s) = String.singleton c ++ String.ofList s := by
      rw [← String.toList_inj]
      simp
    have hone : c.utf8Size = 1 := by
      have hc := h c List.mem_cons_self
      unfold Char.utf8Size
      refine if_pos ?_
      rw [UInt32.le_iff_toNat_le]
      exact Nat.le_of_lt_succ hc
    rw [happend, String.utf8ByteSize_append, String.utf8ByteSize_singleton, hone,
      ih fun d hd => h d (List.mem_cons_of_mem _ hd), List.length_cons, Nat.add_comm]

theorem parseChecked_eq (hcodec : Lawful codec) (text : String) :
    parseChecked codec text = Outcome.ofOption (parseRfc3339 text) := by
  unfold parseChecked parseRfc3339
  dsimp only
  by_cases hshape : ((JsonValue.trim text).utf8ByteSize < 19 ||
      !(JsonValue.trim text).toList.all fun c => decide (c.toNat < 128)) = true
  · rw [if_pos (by simpa using hshape), if_pos (by simpa using hshape)]
    rfl
  · rw [if_neg (by simpa using hshape), if_neg (by simpa using hshape)]
    have hlength : 19 ≤ (JsonValue.trim text).toList.length := by
      rw [Bool.or_eq_true, not_or, Bool.not_eq_true', Bool.not_eq_false, decide_eq_true_eq] at hshape
      have hsize := ascii_size (s := (JsonValue.trim text).toList) fun c hc =>
        of_decide_eq_true (List.all_eq_true.mp hshape.2 c hc)
      rw [String.ofList_toList] at hsize
      omega
    generalize (JsonValue.trim text).toList = s at *
    obtain ⟨hoffset, hbound⟩ := offsetChecked_eq hcodec s
    rw [hcodec.cut s 0 4 (by decide) (by omega), Outcome.bind_ok,
      unsignedField_eq hcodec (by decide) (by omega), unsignedField_eq hcodec (by decide) (by omega),
      unsignedField_eq hcodec (by decide) (by omega), unsignedField_eq hcodec (by decide) (by omega),
      unsignedField_eq hcodec (by decide) (by omega), hoffset]
    cases hyear : parseSigned (slice s 0 4) with
    | none => rfl
    | some year =>
    cases parseUnsigned (slice s 5 7) with
    | none => rfl
    | some month =>
    cases parseUnsigned (slice s 8 10) with
    | none => rfl
    | some day =>
    cases parseUnsigned (slice s 11 13) with
    | none => rfl
    | some hour =>
    cases parseUnsigned (slice s 14 16) with
    | none => rfl
    | some minute =>
    cases parseUnsigned (slice s 17 19) with
    | none => rfl
    | some sec =>
      simp only [Outcome.ofOption_some, Outcome.bind_ok, Option.bind_some]
      by_cases hfields : (decide (month < 1) || decide (12 < month) || decide (day < 1) ||
          decide (31 < day) || decide (23 < hour) || decide (59 < minute) || decide (59 < sec)) = true
      · rw [if_pos (by simpa using hfields), if_pos (by simpa using hfields)]
        rfl
      · rw [if_neg (by simpa using hfields), if_neg (by simpa using hfields)]
        simp only [Bool.or_eq_true, decide_eq_true_eq, not_or, Nat.not_lt] at hfields
        obtain ⟨⟨⟨⟨⟨⟨hm, hm'⟩, hd⟩, hd'⟩, hh⟩, hmin⟩, hsec⟩ := hfields
        have hyearlt := signed_slice hyear
        rw [show 4 - 0 = 4 from rfl] at hyearlt
        have hdays := hcodec.days year month day (by omega) (by omega) hm hm' hd hd'
        have hrange : -10000000 < daysSinceEpoch year month day ∧
            daysSinceEpoch year month day < 10000000 := by
          unfold daysSinceEpoch
          dsimp only
          split <;> omega
        rw [hdays, Outcome.bind_ok]
        generalize daysSinceEpoch year month day = days at *
        have hbase : i64 (days * 86400 + hour * 3600 + minute * 60 + sec) =
            .ok (days * 86400 + hour * 3600 + minute * 60 + sec) :=
          within_ok (by omega) (by omega)
        rw [hbase, Outcome.bind_ok]
        cases hsecs : offsetSecs s with
        | none => rfl
        | some offset =>
          have hlimits := hbound offset hsecs
          have htotal : i64 (days * 86400 + hour * 3600 + minute * 60 + sec - offset) =
              .ok (days * 86400 + hour * 3600 + minute * 60 + sec - offset) :=
            within_ok (by omega) (by omega)
          have hmax : i64 (max (days * 86400 + hour * 3600 + minute * 60 + sec - offset) 0) =
              .ok (max (days * 86400 + hour * 3600 + minute * 60 + sec - offset) 0) :=
            within_ok (by omega) (by omega)
          rw [Outcome.ofOption_some, Outcome.bind_ok, htotal, Outcome.bind_ok, hmax,
            Outcome.bind_ok, Option.map_some, Outcome.ofOption_some]
          refine congrArg Outcome.ok ?_
          omega

/-- The formatting functions write one time of the calendar, which grows with the count
and is read back, and the parsers read each well-formed text as the same instant. -/
structure AgreesWithCalendar : Prop where
  formats : ∀ t, t < lastSecond → ∃ stamp : Stamp, stamp.seconds = t + epochSeconds ∧
    formatRfc3339Epoch t = stamp.rfcText ∧
    formatAmzDate t = (stamp.amzText, String.ofList stamp.amzDay) ∧ amzDateNow t = stamp.amzText
  readBack : ∀ t, t < lastSecond → parseChecked helpersCodec (formatRfc3339Epoch t) = .ok t ∧
    parseChecked awsCodec (formatRfc3339Epoch t) = .ok t
  wellFormed : ∀ text : Rfc3339,
    parseChecked helpersCodec (String.ofList text.chars) = .ok text.instant ∧
    parseChecked awsCodec (String.ofList text.chars) = .ok text.instant
  increasing : ∀ t u, t < u → u < lastSecond → formatRfc3339Epoch t < formatRfc3339Epoch u ∧
    (formatAmzDate t).1 < (formatAmzDate u).1 ∧ amzDateNow t < amzDateNow u
  total : ∀ text, parseChecked helpersCodec text ≠ .panic ∧ parseChecked awsCodec text ≠ .panic

theorem date_codecs_agree : AgreesWithCalendar where
  formats _ ht := formats_stamp ht
  readBack t ht := by
    rw [parseChecked_eq helpers_lawful, parseChecked_eq aws_lawful, parse_format ht]
    exact ⟨rfl, rfl⟩
  wellFormed text := by
    rw [parseChecked_eq helpers_lawful, parseChecked_eq aws_lawful, parseRfc3339_chars]
    exact ⟨rfl, rfl⟩
  increasing _ _ h hu := format_lt h hu
  total text := by
    rw [parseChecked_eq helpers_lawful, parseChecked_eq aws_lawful]
    cases parseRfc3339 text with
    | none => exact ⟨by decide, by decide⟩
    | some t =>
      constructor
      · intro h
        cases h
      · intro h
        cases h

end Wiremux.CheckedDates
