import Wiremux.CivilDates
import Wiremux.FixedDigits
import Wiremux.UpstreamUrls

set_option autoImplicit false

/-!
# The texts of dates

What the three formatting functions write denotes one time of the calendar, and
`parse_rfc3339` reads it back.
-/
namespace Wiremux.DateTexts
open Gregorian CivilDates FixedDigits
open CredentialWriteback (padded formatRfc3339Epoch)
open StoreReading (parseRfc3339 parseSigned parseUnsigned slice zoneStart offsetSecs digitsOf
  daysSinceEpoch)

def civilFromDays (z : ℤ) : ℤ × ℕ × ℕ :=
  let z := z + 719468
  let era := (if z ≥ 0 then z else z - 146096).tdiv 146097
  let doe := (z - era * 146097).toNat
  let yoe := (doe - doe / 1460 + doe / 36524 - doe / 146096) / 365
  let y := (yoe : ℤ) + era * 400
  let doy := doe - (365 * yoe + yoe / 4 - yoe / 100)
  let mp := (5 * doy + 2) / 153
  let d := doy - (153 * mp + 2) / 5 + 1
  let m := if mp < 10 then mp + 3 else mp - 9
  (if m ≤ 2 then y + 1 else y, m, d)

def paddedYear (year : ℤ) : String := padded 4 year.toNat

def formatAmzDate (unixSecs : ℕ) : String × String :=
  let sod := unixSecs % 86400
  let (year, month, day) := civilFromDays (unixSecs / 86400)
  (paddedYear year ++ padded 2 month ++ padded 2 day ++ "T" ++ padded 2 (sod / 3600) ++
      padded 2 (sod % 3600 / 60) ++ padded 2 (sod % 60) ++ "Z",
    paddedYear year ++ padded 2 month ++ padded 2 day)

/-- `amz_date_now` of `aws_sign`, the clock read in seconds. -/
def amzDateNow (secs : ℕ) : String :=
  let days : ℤ := secs / 86400
  let sod := secs % 86400
  let z := days + 719468
  let era := (if z ≥ 0 then z else z - 146096).tdiv 146097
  let doe := (z - era * 146097).toNat
  let yoe := (doe - doe / 1460 + doe / 36524 - doe / 146096) / 365
  let y := (yoe : ℤ) + era * 400
  let doy := doe - (365 * yoe + yoe / 4 - yoe / 100)
  let mp := (5 * doy + 2) / 153
  let d := doy - (153 * mp + 2) / 5 + 1
  let m := if mp < 10 then mp + 3 else mp - 9
  let year := if m ≤ 2 then y + 1 else y
  paddedYear year ++ padded 2 m ++ padded 2 d ++ "T" ++ padded 2 (sod / 3600) ++
    padded 2 (sod % 3600 / 60) ++ padded 2 (sod % 60) ++ "Z"

/-- A time of day on a day of the calendar, of a year with four digits. -/
structure Stamp where
  date : Date
  hour : ℕ
  minute : ℕ
  second : ℕ
  year_le : date.year ≤ 9999
  hour_lt : hour < 24
  minute_lt : minute < 60
  second_lt : second < 60

def Stamp.seconds (stamp : Stamp) : ℕ :=
  stamp.date.number * 86400 + stamp.hour * 3600 + stamp.minute * 60 + stamp.second

def epochSeconds : ℕ := epochNumber * 86400

namespace Stamp

variable (stamp : Stamp)

def dateText : List Char :=
  fixed 4 stamp.date.year ++ '-' :: (fixed 2 stamp.date.month ++ '-' :: fixed 2 stamp.date.day)

def timeText : List Char :=
  fixed 2 stamp.hour ++ ':' :: (fixed 2 stamp.minute ++ ':' :: fixed 2 stamp.second)

def rfcText : String := String.ofList (stamp.dateText ++ 'T' :: (stamp.timeText ++ ['Z']))

def amzDay : List Char :=
  fixed 4 stamp.date.year ++ (fixed 2 stamp.date.month ++ fixed 2 stamp.date.day)

def amzText : String :=
  String.ofList (stamp.amzDay ++ 'T' :: (fixed 2 stamp.hour ++ (fixed 2 stamp.minute ++
    (fixed 2 stamp.second ++ ['Z']))))

end Stamp

def lastSecond : ℕ := 253402300800

theorem civilFromDays_eq (days : ℕ) : civilFromDays days =
    (((civil (days + 719468)).1 : ℤ), (civil (days + 719468)).2) := by
  have hera : (if ((days : ℤ) + 719468) ≥ 0 then (days : ℤ) + 719468
      else (days : ℤ) + 719468 - 146096).tdiv 146097 = ((days + 719468) / 146097 : ℕ) := by
    rw [if_pos (by omega)]
    exact Int.ofNat_tdiv (days + 719468) 146097
  have hdoe : ((days : ℤ) + 719468 - ((days + 719468) / 146097 : ℕ) * 146097).toNat =
      (days + 719468) % 146097 := by omega
  unfold civilFromDays civil dayOfYear
  dsimp only
  rw [hera, hdoe]
  refine Prod.ext ?_ rfl
  dsimp only
  rw [Nat.cast_ite]
  push_cast
  rfl

theorem stamp_of_seconds {t : ℕ} (ht : t < lastSecond) : ∃ stamp : Stamp,
    civil (t / 86400 + 719468) = (stamp.date.year, stamp.date.month, stamp.date.day) ∧
    stamp.hour = t % 86400 / 3600 ∧ stamp.minute = t % 86400 % 3600 / 60 ∧
    stamp.second = t % 86400 % 60 ∧ stamp.seconds = t + epochSeconds := by
  obtain ⟨date, hcivil, hnumber⟩ := civil_date (t / 86400 + 719468)
  have hyear : date.year ≤ 9999 := by
    by_contra hlarge
    have hmono := daysBeforeYear_mono (show 10000 ≤ date.year by omega)
    have hlast := daysBeforeYear_eq 10000
    have hle : daysBeforeYear date.year ≤ date.number := by
      unfold Date.number
      omega
    unfold lastSecond at ht
    omega
  refine ⟨⟨date, t % 86400 / 3600, t % 86400 % 3600 / 60, t % 86400 % 60, hyear, by omega, by omega,
    by omega⟩, hcivil, rfl, rfl, rfl, ?_⟩
  unfold Stamp.seconds epochSeconds epochNumber
  dsimp only
  omega

variable {stamp other : Stamp}

theorem Stamp.month_lt (stamp : Stamp) : stamp.date.month < 10 ^ 2 := by
  have h := stamp.date.month_le
  omega

theorem Stamp.day_lt (stamp : Stamp) : stamp.date.day < 10 ^ 2 := by
  have hbound : ∀ leap : Bool, ∀ m : Fin 13, monthLength leap m ≤ 31 := by decide
  have hle := stamp.date.day_le
  have hmonth := hbound (isLeap stamp.date.year)
    ⟨stamp.date.month, Nat.lt_succ_of_le stamp.date.month_le⟩
  dsimp only at hmonth
  omega

theorem Stamp.year_lt (stamp : Stamp) : stamp.date.year < 10 ^ 4 := by
  have h := stamp.year_le
  omega

theorem two_digits {n : ℕ} (h : n < 10 ^ 2) : (padded 2 n).toList = fixed 2 n := padded_toList 1 h

theorem four_digits {n : ℕ} (h : n < 10 ^ 4) : (padded 4 n).toList = fixed 4 n := padded_toList 3 h

theorem Stamp.hour_two (stamp : Stamp) : stamp.hour < 10 ^ 2 := by
  have h := stamp.hour_lt
  omega

theorem Stamp.minute_two (stamp : Stamp) : stamp.minute < 10 ^ 2 := by
  have h := stamp.minute_lt
  omega

theorem Stamp.second_two (stamp : Stamp) : stamp.second < 10 ^ 2 := by
  have h := stamp.second_lt
  omega

theorem formats_stamp {t : ℕ} (ht : t < lastSecond) : ∃ stamp : Stamp,
    stamp.seconds = t + epochSeconds ∧ formatRfc3339Epoch t = stamp.rfcText ∧
    formatAmzDate t = (stamp.amzText, String.ofList stamp.amzDay) ∧
    amzDateNow t = stamp.amzText := by
  obtain ⟨stamp, hcivil, hhour, hminute, hsecond, hseconds⟩ := stamp_of_seconds ht
  have hfrom := civilFromDays_eq (t / 86400)
  rw [hcivil] at hfrom
  have hamz : (formatAmzDate t).1 = stamp.amzText ∧
      (formatAmzDate t).2 = String.ofList stamp.amzDay := by
    unfold formatAmzDate
    rw [show ((t : ℤ) / 86400) = ((t / 86400 : ℕ) : ℤ) from rfl, hfrom]
    dsimp only
    rw [← hhour, ← hminute, ← hsecond]
    constructor
    · rw [← String.toList_inj]
      simp only [paddedYear, Int.toNat_natCast, String.toList_append, four_digits stamp.year_lt,
        two_digits stamp.month_lt, two_digits stamp.day_lt, two_digits stamp.hour_two,
        two_digits stamp.minute_two, two_digits stamp.second_two, Stamp.amzText, Stamp.amzDay,
        String.toList_ofList, List.append_assoc]
      rfl
    · rw [← String.toList_inj]
      simp only [paddedYear, Int.toNat_natCast, String.toList_append, four_digits stamp.year_lt,
        two_digits stamp.month_lt, two_digits stamp.day_lt, Stamp.amzDay, String.toList_ofList,
        List.append_assoc]
  refine ⟨stamp, hseconds, ?_, Prod.ext hamz.1 hamz.2, ?_⟩
  · have htext : formatRfc3339Epoch t = padded 4 (civil (t / 86400 + 719468)).1 ++ "-" ++
        padded 2 (civil (t / 86400 + 719468)).2.1 ++ "-" ++
        padded 2 (civil (t / 86400 + 719468)).2.2 ++ "T" ++ padded 2 (t % 86400 / 3600) ++ ":" ++
        padded 2 (t % 86400 % 3600 / 60) ++ ":" ++ padded 2 (t % 86400 % 60) ++ "Z" := rfl
    rw [htext, hcivil, ← hhour, ← hminute, ← hsecond, ← String.toList_inj]
    simp only [String.toList_append, four_digits stamp.year_lt, two_digits stamp.month_lt,
      two_digits stamp.day_lt, two_digits stamp.hour_two, two_digits stamp.minute_two,
      two_digits stamp.second_two, Stamp.rfcText, Stamp.dateText, Stamp.timeText,
      String.toList_ofList, List.append_assoc, List.cons_append]
    rfl
  · exact hamz.1

theorem Stamp.time_lt (stamp : Stamp) :
    stamp.hour * 3600 + stamp.minute * 60 + stamp.second < 86400 := by
  have hhour := stamp.hour_lt
  have hminute := stamp.minute_lt
  have hsecond := stamp.second_lt
  omega

theorem Stamp.date_le (h : stamp.seconds < other.seconds) :
    stamp.date.number ≤ other.date.number := by
  have htime := other.time_lt
  unfold Stamp.seconds at h
  omega

theorem field_lt {width n m : ℕ} (hm : m < 10 ^ width) {more rest : List Char}
    (h : n < m ∨ n = m ∧ more < rest) : fixed width n ++ more < fixed width m ++ rest := by
  rcases h with hlt | ⟨rfl, hmore⟩
  · exact lt_of_append ((fixed_length _ _).trans (fixed_length _ _).symm) (fixed_lt hlt hm) _ _
  · exact List.append_left_lt hmore

theorem Stamp.fields_lt (h : stamp.seconds < other.seconds) :
    stamp.date.year < other.date.year ∨ stamp.date.year = other.date.year ∧
    (stamp.date.month < other.date.month ∨ stamp.date.month = other.date.month ∧
    (stamp.date.day < other.date.day ∨ stamp.date.day = other.date.day ∧
    (stamp.hour < other.hour ∨ stamp.hour = other.hour ∧
    (stamp.minute < other.minute ∨ stamp.minute = other.minute ∧ stamp.second < other.second)))) := by
  have hdate := Stamp.date_le h
  have hyear : stamp.date.year ≤ other.date.year := by
    by_contra hlarge
    have hlt := Date.number_lt (.inl (Nat.lt_of_not_le hlarge))
    omega
  rcases Nat.lt_or_eq_of_le hyear with hlt | hyear
  · exact .inl hlt
  refine .inr ⟨hyear, ?_⟩
  have hmonth : stamp.date.month ≤ other.date.month := by
    by_contra hlarge
    have hlt := Date.number_lt (.inr ⟨hyear.symm, .inl (Nat.lt_of_not_le hlarge)⟩)
    omega
  rcases Nat.lt_or_eq_of_le hmonth with hlt | hmonth
  · exact .inl hlt
  refine .inr ⟨hmonth, ?_⟩
  have hday : stamp.date.day ≤ other.date.day := by
    by_contra hlarge
    have hlt := Date.number_lt (.inr ⟨hyear.symm, .inr ⟨hmonth.symm, Nat.lt_of_not_le hlarge⟩⟩)
    omega
  rcases Nat.lt_or_eq_of_le hday with hlt | hday
  · exact .inl hlt
  refine .inr ⟨hday, ?_⟩
  have hnumber : stamp.date.number = other.date.number := by
    unfold Date.number
    rw [hyear, hmonth, hday]
  unfold Stamp.seconds at h
  rw [hnumber] at h
  have hminute := stamp.minute_lt
  have hsecond := stamp.second_lt
  have hminute' := other.minute_lt
  have hsecond' := other.second_lt
  omega

theorem rfcText_lt (h : stamp.seconds < other.seconds) : stamp.rfcText < other.rfcText := by
  have hbehind : ∀ {c : Char} {more rest : List Char}, more < rest → c :: more < c :: rest :=
    fun h => List.cons_lt_cons_iff.mpr (.inr ⟨rfl, h⟩)
  change (String.ofList _).toList < (String.ofList _).toList
  rw [String.toList_ofList, String.toList_ofList]
  unfold Stamp.dateText Stamp.timeText
  simp only [List.append_assoc, List.cons_append]
  refine field_lt other.year_lt ((Stamp.fields_lt h).imp_right (And.imp_right fun h => hbehind ?_))
  refine field_lt other.month_lt (h.imp_right (And.imp_right fun h => hbehind ?_))
  refine field_lt other.day_lt (h.imp_right (And.imp_right fun h => hbehind ?_))
  refine field_lt other.hour_two (h.imp_right (And.imp_right fun h => hbehind ?_))
  refine field_lt other.minute_two (h.imp_right (And.imp_right fun h => hbehind ?_))
  exact field_lt other.second_two (.inl h)

theorem amzText_lt (h : stamp.seconds < other.seconds) : stamp.amzText < other.amzText := by
  change (String.ofList _).toList < (String.ofList _).toList
  rw [String.toList_ofList, String.toList_ofList]
  unfold Stamp.amzDay
  simp only [List.append_assoc]
  refine field_lt other.year_lt ((Stamp.fields_lt h).imp_right (And.imp_right fun h => ?_))
  refine field_lt other.month_lt (h.imp_right (And.imp_right fun h => ?_))
  refine field_lt other.day_lt (h.imp_right (And.imp_right fun h => ?_))
  refine List.cons_lt_cons_iff.mpr (.inr ⟨rfl, ?_⟩)
  refine field_lt other.hour_two (h.imp_right (And.imp_right fun h => ?_))
  refine field_lt other.minute_two (h.imp_right (And.imp_right fun h => ?_))
  exact field_lt other.second_two (.inl h)

theorem format_lt {t u : ℕ} (h : t < u) (hu : u < lastSecond) :
    formatRfc3339Epoch t < formatRfc3339Epoch u ∧ (formatAmzDate t).1 < (formatAmzDate u).1 ∧
      amzDateNow t < amzDateNow u := by
  obtain ⟨stamp, hstamp, hrfc, hamz, hnow⟩ := formats_stamp (h.trans hu)
  obtain ⟨other, hother, hrfc', hamz', hnow'⟩ := formats_stamp hu
  have hlt : stamp.seconds < other.seconds := by omega
  rw [hrfc, hrfc', hamz, hamz', hnow, hnow']
  exact ⟨rfcText_lt hlt, amzText_lt hlt, amzText_lt hlt⟩

/-- `Z`, or an offset with hours and minutes. -/
inductive Zone
  | utc
  | offset (east : Bool) (hours minutes : ℕ) (hours_lt : hours < 24) (minutes_lt : minutes < 60)

def Zone.text : Zone → List Char
  | .utc => ['Z']
  | .offset east hours minutes _ _ =>
    (if east then '+' else '-') :: (fixed 2 hours ++ ':' :: fixed 2 minutes)

def Zone.seconds : Zone → ℤ
  | .utc => 0
  | .offset east hours minutes _ _ =>
    (if east then 1 else -1) * ((hours : ℤ) * 3600 + (minutes : ℤ) * 60)

structure Rfc3339 where
  stamp : Stamp
  separator : Char
  fraction : Option (List Char)
  zone : Zone
  separator_ascii : separator.toNat < 128
  fraction_digits : ∀ digits ∈ fraction, ∀ c ∈ digits, c.isDigit = true

namespace Rfc3339

def fractionText : Option (List Char) → List Char
  | none => []
  | some digits => '.' :: digits

variable (text : Rfc3339)

def front : List Char := text.stamp.dateText ++ text.separator :: text.stamp.timeText

def chars : List Char := text.front ++ (fractionText text.fraction ++ text.zone.text)

/-- The civil time less the offset, in seconds since 1970, and 1970 for earlier times. -/
def instant : ℕ := ((text.stamp.seconds : ℤ) - epochSeconds - text.zone.seconds).toNat

end Rfc3339

theorem parseUnsigned_digits {text : List Char} (h : ∀ c ∈ text, c.isDigit = true) :
    parseUnsigned text = digitsOf text := by
  unfold parseUnsigned
  split
  · have hplus := h '+' List.mem_cons_self
    exact absurd hplus (by decide)
  · rfl

theorem parseSigned_digits {text : List Char} (h : ∀ c ∈ text, c.isDigit = true) :
    parseSigned text = (digitsOf text).map fun n => (n : ℤ) := by
  unfold parseSigned
  split
  · have hminus := h '-' List.mem_cons_self
    exact absurd hminus (by decide)
  · rw [parseUnsigned_digits h]

theorem parseUnsigned_two {n : ℕ} (h : n < 10 ^ 2) : parseUnsigned (fixed 2 n) = some n := by
  rw [parseUnsigned_digits (fixed_isDigit 2 n), digitsOf_fixed 1 h]

theorem parseSigned_two {n : ℕ} (h : n < 10 ^ 2) : parseSigned (fixed 2 n) = some (n : ℤ) := by
  rw [parseSigned_digits (fixed_isDigit 2 n), digitsOf_fixed 1 h]
  rfl

theorem parseSigned_four {n : ℕ} (h : n < 10 ^ 4) : parseSigned (fixed 4 n) = some (n : ℤ) := by
  rw [parseSigned_digits (fixed_isDigit 4 n), digitsOf_fixed 3 h]
  rfl

theorem front_length (text : Rfc3339) : text.front.length = 19 := by
  simp only [Rfc3339.front, Stamp.dateText, Stamp.timeText, List.length_append, List.length_cons,
    fixed_length]

theorem offset_at {front : List Char} {zone : Zone} (hzone : zoneStart (front ++ zone.text) =
      some front.length) : offsetSecs (front ++ zone.text) = some zone.seconds := by
  have hat : ∀ i, (front ++ zone.text)[front.length + i]? = zone.text[i]? := by
    intro i
    rw [List.getElem?_append_right (Nat.le_add_right _ _), Nat.add_sub_cancel_left]
  have hslice : ∀ i j, slice (front ++ zone.text) (front.length + i) (front.length + j) =
      slice zone.text i j := by
    intro i j
    rw [slice, slice, List.drop_append, List.drop_eq_nil_of_le (Nat.le_add_right _ _),
      Nat.add_sub_cancel_left, List.nil_append, Nat.add_sub_add_left]
  have hfirst := hat 0
  rw [Nat.add_zero] at hfirst
  unfold offsetSecs
  rw [hzone]
  dsimp only
  rw [hfirst]
  cases zone with
  | utc => rfl
  | offset east hours minutes hh hm =>
    have hlength : (front ++ (Zone.offset east hours minutes hh hm).text).length =
        front.length + 6 := by
      rw [List.length_append]
      rfl
    have hcolon := hat 3
    rw [show (Zone.offset east hours minutes hh hm).text[3]? = some ':' from rfl] at hcolon
    have hhours : parseSigned (slice (Zone.offset east hours minutes hh hm).text 1 3) =
        some (hours : ℤ) := parseSigned_two (n := hours) (by omega)
    have hminutes : parseSigned (slice (Zone.offset east hours minutes hh hm).text 4 6) =
        some (minutes : ℤ) := parseSigned_two (n := minutes) (by omega)
    have hsign : (Zone.offset east hours minutes hh hm).text[0]? =
        some (if east then '+' else '-') := rfl
    rw [hsign, if_neg (by cases east <;> decide), hlength, if_neg (by omega), hcolon, if_pos rfl,
      if_neg (by omega), hslice, Nat.add_assoc, hslice, hhours, hminutes]
    cases east <;> rfl

theorem zone_starts (zone : Zone) : ∃ c rest, zone.text = c :: rest ∧
    (c = 'Z' || c = '+' || c = '-') = true ∧ c ≠ '.' := by
  cases zone with
  | utc => exact ⟨_, _, rfl, by decide, by decide⟩
  | offset east hours minutes hh hm => cases east <;> exact ⟨_, _, rfl, by decide, by decide⟩

theorem zoneStart_eq (text : Rfc3339) : zoneStart text.chars =
    some (text.front ++ Rfc3339.fractionText text.fraction).length := by
  obtain ⟨c, rest, hzone, hc, hdot⟩ := zone_starts text.zone
  have hat : text.chars[19]? =
      (Rfc3339.fractionText text.fraction ++ text.zone.text)[0]? := by
    rw [Rfc3339.chars, List.getElem?_append_right (by rw [front_length]), front_length]
  have hlength := front_length text
  unfold zoneStart
  rw [hat]
  cases hfraction : text.fraction with
  | none =>
    rw [hzone]
    change (if some c = some '.' then _ else _) = _
    rw [if_neg (fun h => hdot (Option.some.inj h)), if_pos, Rfc3339.fractionText, List.append_nil,
      hlength]
    rw [Rfc3339.chars, hfraction, hzone, List.length_append, hlength]
    change 19 < 19 + (rest.length + 1)
    omega
  | some digits =>
    have hdigits := text.fraction_digits digits hfraction
    have hdrop : text.chars.drop 20 = digits ++ text.zone.text := by
      rw [Rfc3339.chars, hfraction, List.drop_append, List.drop_eq_nil_of_le (by omega), hlength]
      rfl
    have hfind : (digits ++ text.zone.text).findIdx? (fun c => c = 'Z' || c = '+' || c = '-') =
        some digits.length := by
      have hnone : digits.findIdx? (fun c => c = 'Z' || c = '+' || c = '-') = none := by
        rw [List.findIdx?_eq_none_iff]
        intro d hd
        have hdigit := isDigit_toNat (hdigits d hd)
        rw [Bool.eq_false_iff]
        intro hsign
        rw [Bool.or_eq_true, Bool.or_eq_true, decide_eq_true_eq, decide_eq_true_eq,
          decide_eq_true_eq] at hsign
        rcases hsign with (rfl | rfl) | rfl <;> revert hdigit <;> decide
      rw [List.findIdx?_append, hnone, hzone, List.findIdx?_cons, hc, if_pos rfl, Option.map_some,
        Option.none_or, Nat.zero_add]
    change (if some '.' = some '.' then _ else _) = _
    rw [if_pos rfl, hdrop, hfind, Option.map_some, List.length_append, hlength]
    change some (digits.length + 20) = some (19 + (digits.length + 1))
    exact congrArg some (by omega)

theorem isDigit_ascii {c : Char} (h : c.isDigit = true) : c.toNat < 128 :=
  Nat.lt_of_le_of_lt (isDigit_toNat h).2 (by decide)

theorem isDigit_not_blank {c : Char} (h : c.isDigit = true) : JsonValue.isWhitespace c = false := by
  have hbounds := isDigit_toNat h
  unfold JsonValue.isWhitespace
  simp only [Bool.or_eq_false_iff, Bool.and_eq_false_iff, decide_eq_false_iff_not, beq_eq_false_iff_ne]
  omega

theorem fixed_ascii (width n : ℕ) : ∀ c ∈ fixed width n, c.toNat < 128 :=
  fun c hc => isDigit_ascii (fixed_isDigit width n c hc)

theorem zone_ascii (zone : Zone) : ∀ c ∈ zone.text, c.toNat < 128 := by
  cases zone with
  | utc => exact List.all_iff_forall_prop.mp (by decide)
  | offset east hours minutes hh hm =>
    intro c hc
    rw [Zone.text, List.mem_cons, List.mem_append, List.mem_cons] at hc
    rcases hc with rfl | hc | rfl | hc
    · cases east <;> decide
    · exact fixed_ascii _ _ c hc
    · decide
    · exact fixed_ascii _ _ c hc

theorem chars_ascii (text : Rfc3339) : ∀ c ∈ text.chars, c.toNat < 128 := by
  intro c hc
  unfold Rfc3339.chars Rfc3339.front Stamp.dateText Stamp.timeText at hc
  simp only [List.mem_append, List.mem_cons] at hc
  rcases hc with ((hc | rfl | hc | rfl | hc) | rfl | hc | rfl | hc | rfl | hc) | hc | hc
  · exact fixed_ascii _ _ c hc
  · decide
  · exact fixed_ascii _ _ c hc
  · decide
  · exact fixed_ascii _ _ c hc
  · exact text.separator_ascii
  · exact fixed_ascii _ _ c hc
  · decide
  · exact fixed_ascii _ _ c hc
  · decide
  · exact fixed_ascii _ _ c hc
  · cases hfraction : text.fraction with
    | none =>
      rw [hfraction] at hc
      cases hc
    | some digits =>
      rw [hfraction] at hc
      rcases List.mem_cons.mp hc with rfl | hc
      · decide
      · exact isDigit_ascii (text.fraction_digits digits hfraction c hc)
  · exact zone_ascii _ c hc

theorem zone_last (zone : Zone) : zone.text ≠ [] ∧
    ∀ c ∈ zone.text.getLast?, JsonValue.isWhitespace c = false := by
  cases zone with
  | utc =>
    refine ⟨by decide, ?_⟩
    intro c hc
    cases hc
    rfl
  | offset east hours minutes hh hm =>
    refine ⟨List.cons_ne_nil _ _, ?_⟩
    intro c hc
    have hlast : (Zone.offset east hours minutes hh hm).text.getLast? = some (digit minutes) := rfl
    rw [hlast] at hc
    cases hc
    exact isDigit_not_blank (digit_isDigit _)

theorem trim_chars (text : Rfc3339) :
    JsonValue.trim (String.ofList text.chars) = String.ofList text.chars := by
  obtain ⟨hne, hlast⟩ := zone_last text.zone
  have htrim : UpstreamUrls.trim text.chars = text.chars := by
    refine UpstreamUrls.trim_eq_self ?_ ?_
    · intro c hc
      change c ∈ some (digit _) at hc
      cases hc
      exact isDigit_not_blank (digit_isDigit _)
    · rw [Rfc3339.chars, ← List.append_assoc, List.getLast?_append_of_ne_nil _ hne]
      exact hlast
  have hfrom : JsonValue.trim (String.ofList text.chars) =
      String.ofList (UpstreamUrls.trim text.chars) := by
    rw [JsonValue.trim, String.toList_ofList]
    rfl
  rw [hfrom, htrim]

theorem length_le_size (chars : List Char) : chars.length ≤ (String.ofList chars).utf8ByteSize := by
  induction chars with
  | nil => exact Nat.zero_le _
  | cons c chars ih =>
    have happend : String.ofList (c :: chars) = String.singleton c ++ String.ofList chars := by
      rw [← String.toList_inj]
      simp
    have hpos := Char.utf8Size_pos c
    rw [happend, String.utf8ByteSize_append, String.utf8ByteSize_singleton, List.length_cons]
    omega

theorem slice_front (text : Rfc3339) (i j : ℕ) (h : j ≤ 19) :
    slice text.chars i j = slice text.front i j := by
  have hlength := front_length text
  unfold slice Rfc3339.chars
  rw [List.drop_append, List.take_append, List.length_drop, hlength]
  have hnone : j - i - (19 - i) = 0 := by omega
  rw [hnone, List.take_zero, List.append_nil]

theorem fields_eq (text : Rfc3339) :
    slice text.chars 0 4 = fixed 4 text.stamp.date.year ∧
      slice text.chars 5 7 = fixed 2 text.stamp.date.month ∧
      slice text.chars 8 10 = fixed 2 text.stamp.date.day ∧
      slice text.chars 11 13 = fixed 2 text.stamp.hour ∧
      slice text.chars 14 16 = fixed 2 text.stamp.minute ∧
      slice text.chars 17 19 = fixed 2 text.stamp.second := by
  rw [slice_front _ _ _ (by decide), slice_front _ _ _ (by decide), slice_front _ _ _ (by decide),
    slice_front _ _ _ (by decide), slice_front _ _ _ (by decide), slice_front _ _ _ (by decide)]
  exact ⟨rfl, rfl, rfl, rfl, rfl, rfl⟩

theorem Date.day_le_month (date : Date) : date.day ≤ 31 := by
  have hdays : ∀ leap : Bool, ∀ m : Fin 13, monthLength leap m ≤ 31 := by decide
  exact date.day_le.trans (hdays (isLeap date.year) ⟨date.month, Nat.lt_succ_of_le date.month_le⟩)

theorem parseRfc3339_chars (text : Rfc3339) :
    parseRfc3339 (String.ofList text.chars) = some text.instant := by
  obtain ⟨hy, hm, hd, hh, hmi, hs⟩ := fields_eq text
  have hsize : ¬ (String.ofList text.chars).utf8ByteSize < 19 := by
    have hlength := length_le_size text.chars
    have hfront := front_length text
    have happend : text.chars.length = text.front.length +
        (Rfc3339.fractionText text.fraction ++ text.zone.text).length := List.length_append
    omega
  have hascii : (text.chars.all fun c => decide (c.toNat < 128)) = true :=
    List.all_eq_true.mpr fun c hc => decide_eq_true (chars_ascii text c hc)
  have hzone : offsetSecs text.chars = some text.zone.seconds := by
    have hstart := zoneStart_eq text
    rw [Rfc3339.chars, ← List.append_assoc] at hstart ⊢
    exact offset_at hstart
  have hbounds : ¬ (text.stamp.date.month < 1 || 12 < text.stamp.date.month ||
      text.stamp.date.day < 1 || 31 < text.stamp.date.day || 23 < text.stamp.hour ||
        59 < text.stamp.minute || 59 < text.stamp.second) = true := by
    have hmonthle := text.stamp.date.month_le
    have hmonthpos := text.stamp.date.month_pos
    have hdaypos := text.stamp.date.day_pos
    have hdayle := Date.day_le_month text.stamp.date
    have hhour := text.stamp.hour_lt
    have hminute := text.stamp.minute_lt
    have hsecond := text.stamp.second_lt
    simp only [Bool.or_eq_true, decide_eq_true_eq]
    omega
  unfold parseRfc3339
  dsimp only
  rw [trim_chars, String.toList_ofList, hascii, hy, hm, hd, hh, hmi, hs, hzone,
    if_neg (by simpa using hsize), parseSigned_four text.stamp.year_lt,
    parseUnsigned_two text.stamp.month_lt, parseUnsigned_two text.stamp.day_lt,
    parseUnsigned_two text.stamp.hour_two, parseUnsigned_two text.stamp.minute_two,
    parseUnsigned_two text.stamp.second_two]
  simp only [Option.bind_some]
  rw [if_neg (by simpa using hbounds), Option.map_some, daysSinceEpoch_eq]
  unfold Rfc3339.instant Stamp.seconds epochSeconds
  push_cast
  refine congrArg (fun seconds => some (Int.toNat seconds)) ?_
  linarith

theorem parse_format {t : ℕ} (ht : t < lastSecond) :
    parseRfc3339 (formatRfc3339Epoch t) = some t := by
  obtain ⟨stamp, hseconds, htext, _⟩ := formats_stamp ht
  have hchars : formatRfc3339Epoch t = String.ofList
      (Rfc3339.chars ⟨stamp, 'T', none, .utc, by decide, fun _ h => by cases h⟩) := by
    rw [htext, Stamp.rfcText, Rfc3339.chars, Rfc3339.front]
    simp only [List.append_assoc, List.cons_append]
    rfl
  rw [hchars, parseRfc3339_chars]
  unfold Rfc3339.instant Zone.seconds
  dsimp only
  rw [hseconds]
  push_cast
  refine congrArg some ?_
  omega

end Wiremux.DateTexts
