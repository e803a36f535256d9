import Mathlib.Data.Int.Notation
import Wiremux.TimedCache

set_option autoImplicit false

/-!
# The caches of AWS credentials

The STS provider and the SigV4 chain keep temporary credentials by different rules.
Times are counted in nanoseconds since 1970, on one clock.
-/
namespace Wiremux.CredentialCaches
open TimedCache

def second : ℕ := 1000000000

def millisecond : ℕ := 1000000

inductive Expiration
  | absent
  | unreadable
  | time (instant : ℕ)
  /-- A JSON number, which the chain reads as seconds or milliseconds. -/
  | number (n : ℤ)

/-- Temporary credentials, as they are answered. -/
structure Answer where
  accessKeyId : String
  secretAccessKey : String
  sessionToken : String
  stated : Expiration

inductive AwsCache
  | sts
  | chain

def epochScale (n : ℤ) : ℕ := if n > 1000000000000 then millisecond else second

def epochNumberToTime (n : ℤ) : Option ℕ := if n ≤ 0 then none else some (n.toNat * epochScale n)

def expiration : AwsCache → Expiration → Option ℕ
  | _, .time instant => some instant
  | .chain, .number n => epochNumberToTime n
  | _, _ => none

def defaultLifetime : ℕ := 3600 * second

def stsRules : Rules Answer where
  admits arrived answer :=
    some (some (match expiration .sts answer.stated with
      | some instant => if arrived ≤ instant then instant - arrived else defaultLifetime
      | none => defaultLifetime))
  valid _ _ := true

def chainRules : Rules Answer where
  admits arrived answer :=
    match expiration .chain answer.stated with
    | none => some none
    | some instant => if arrived < instant then some (some (instant - arrived)) else none
  valid now answer :=
    match expiration .chain answer.stated with
    | some instant => decide (now < instant)
    | none => true

def rules : AwsCache → Rules Answer
  | .sts => stsRules
  | .chain => chainRules

/-- The instant that an answer states. A number is none for STS, whose answers are XML,
and the year 1970 where it is not positive. -/
def Expiration.instant : AwsCache → Expiration → Option ℕ
  | _, .time instant => some instant
  | .chain, .number n => some (n.toNat * epochScale n)
  | _, _ => none

/-- A read that makes no request returns a credential which an earlier read was answered
with, before it expires and before four fifths of the time it had left are over. -/
def NeverStale (cache : AwsCache) (reads : List (Read Answer)) : Prop :=
  ∀ before r rest entry, reads = before ++ r :: rest →
    (step (rules cache) (after (rules cache) before) r).2 = .cached entry →
    (∃ q ∈ before, q.answer = some entry.value ∧ q.arrived = entry.acquired) ∧
    ∀ instant ∈ entry.value.stated.instant cache, r.now < instant ∧
      5 * (r.now - entry.acquired) < 4 * (instant - entry.acquired)

/-- An answer of STS has not expired when it arrives, and a number is a positive one. -/
def InTime (arrived : ℕ) : AwsCache → Expiration → Prop
  | .sts, .time instant => arrived ≤ instant
  | .chain, .number n => 0 < n
  | _, _ => True

variable {cache : AwsCache} {entry : Entry Answer} {now instant : ℕ}

theorem expiration_eq (h : InTime entry.acquired cache entry.value.stated) :
    expiration cache entry.value.stated = entry.value.stated.instant cache := by
  cases cache <;> cases hstated : entry.value.stated <;> try rfl
  case chain.number n =>
    rw [hstated] at h
    have hpos : 0 < n := h
    exact if_neg (by omega)

theorem lifetime_sts (hadmits : stsRules.admits entry.acquired entry.value = some entry.lifetime)
    (hexpires : expiration .sts entry.value.stated = some instant) (hle : entry.acquired ≤ instant) :
    entry.lifetime = some (instant - entry.acquired) := by
  unfold stsRules at hadmits
  dsimp only at hadmits
  rw [hexpires] at hadmits
  dsimp only at hadmits
  rw [if_pos hle] at hadmits
  exact (Option.some.inj hadmits).symm

theorem lifetime_chain (hadmits : chainRules.admits entry.acquired entry.value = some entry.lifetime)
    (hexpires : expiration .chain entry.value.stated = some instant) :
    entry.lifetime = some (instant - entry.acquired) := by
  unfold chainRules at hadmits
  dsimp only at hadmits
  rw [hexpires] at hadmits
  dsimp only at hadmits
  split at hadmits
  · exact (Option.some.inj hadmits).symm
  · cases hadmits

theorem fresh_before {rules : Rules Answer} (hfresh : entry.fresh rules now = true)
    (hlife : entry.lifetime = some (instant - entry.acquired)) :
    now < instant ∧ 5 * (now - entry.acquired) < 4 * (instant - entry.acquired) := by
  unfold Entry.fresh at hfresh
  rw [hlife, Bool.and_eq_true, decide_eq_true_eq] at hfresh
  have hbound := hfresh.2
  omega

theorem admitted_lifetime (hadmits : (rules cache).admits entry.acquired entry.value =
      some entry.lifetime) (hintime : InTime entry.acquired cache entry.value.stated)
    (hinstant : entry.value.stated.instant cache = some instant) :
    entry.lifetime = some (instant - entry.acquired) := by
  have hexpires := (expiration_eq hintime).trans hinstant
  cases cache with
  | chain => exact lifetime_chain hadmits hexpires
  | sts =>
    refine lifetime_sts hadmits hexpires ?_
    cases hstated : entry.value.stated with
    | time at_ =>
      rw [hstated] at hintime hinstant
      cases hinstant
      exact hintime
    | _ => rw [hstated] at hinstant; cases hinstant

/-- Whenever every answer is in time, no read returns a credential that is not. -/
theorem cached_in_time (cache : AwsCache) (reads : List (Read Answer))
    (h : ∀ r ∈ reads, ∀ answer ∈ r.answer, InTime r.arrived cache answer.stated) :
    NeverStale cache reads := by
  intro before r rest entry hreads hcached
  obtain ⟨hheld, hfresh⟩ := step_cached hcached
  obtain ⟨q, hq, hanswer, harrived, hadmits⟩ := after_fromReads before r.key hheld
  refine ⟨⟨q, hq, hanswer, harrived⟩, ?_⟩
  intro instant hinstant
  have hintime := h q (hreads ▸ List.mem_append_left _ hq) entry.value hanswer
  rw [harrived] at hintime
  exact fresh_before hfresh (admitted_lifetime hadmits hintime hinstant)

def readAt (now : ℕ) (answer : Option Answer) : Read Answer where
  key := "sts"
  now := now
  marked := false
  arrived := now
  answer := answer

def answerAt (stated : Expiration) : Answer := ⟨"AKIA", "secret", "token", stated⟩

theorem fresh_at_once {value : Answer} (rules : Rules Answer) (h : rules.valid now value = true) :
    (Entry.mk value now (some defaultLifetime)).fresh rules now = true := by
  unfold Entry.fresh
  rw [h, Bool.true_and, decide_eq_true_eq, Nat.sub_self]
  decide

/-- An answer that is not in time is returned again by a read at the same instant. -/
theorem late_answer_cached (cache : AwsCache) (stated : Expiration) (now : ℕ)
    (h : ¬ InTime now cache stated) :
    ¬ NeverStale cache [readAt now (some (answerAt stated)), readAt now none] := by
  intro hnever
  cases cache with
  | sts =>
    cases stated with
    | time instant =>
      have hlate : ¬ now ≤ instant := h
      have hstep : (step stsRules (after stsRules [readAt now (some (answerAt (.time instant)))])
          (readAt now none)).2 = .cached ⟨answerAt (.time instant), now, some defaultLifetime⟩ := by
        have hadmits : stsRules.admits now (answerAt (.time instant)) =
            some (some defaultLifetime) := by
          change some (some (if now ≤ instant then instant - now else defaultLifetime)) = _
          rw [if_neg hlate]
        refine step_fresh rfl (@after_single _ _ (readAt now _) _ _ rfl hadmits) ?_
        exact fresh_at_once stsRules rfl
      have hbad := (hnever [_] _ [] _ rfl hstep).2 instant rfl
      have hnow : now < instant := hbad.1
      omega
    | absent => exact h trivial
    | unreadable => exact h trivial
    | number n => exact h trivial
  | chain =>
    cases stated with
    | number n =>
      have hlate : ¬ 0 < n := h
      have hstep : (step chainRules (after chainRules [readAt now (some (answerAt (.number n)))])
          (readAt now none)).2 = .cached ⟨answerAt (.number n), now, none⟩ := by
        have hnumber : epochNumberToTime n = none := if_pos (by omega)
        have hadmits : chainRules.admits now (answerAt (.number n)) = some none := by
          unfold chainRules answerAt expiration
          dsimp only
          rw [hnumber]
        refine step_fresh rfl (@after_single _ _ (readAt now _) _ _ rfl hadmits) ?_
        unfold Entry.fresh chainRules answerAt expiration
        dsimp only
        rw [hnumber]
        rfl
      have hzero : n.toNat * epochScale n = 0 := by
        rw [Int.toNat_of_nonpos (by omega), Nat.zero_mul]
      have hbad := (hnever [_] _ [] _ rfl hstep).2 _ rfl
      have hnow : now < n.toNat * epochScale n := hbad.1
      omega
    | absent => exact h trivial
    | unreadable => exact h trivial
    | time instant => exact h trivial

/-- STS answers at the second 10 with credentials that have expired at 9. -/
theorem expired_credentials_served : ¬ ∀ reads, NeverStale .sts reads := by
  have hlate : ¬ InTime (10 * second) .sts (.time (9 * second)) := by
    change ¬ 10 * second ≤ 9 * second
    decide
  exact fun h => late_answer_cached .sts _ _ hlate (h _)

/-- Answers that come in time, one without an expiration. -/
theorem timely_reads_in_time : NeverStale .sts
    [readAt (10 * second) (some (answerAt (.time (20 * second)))),
      readAt (19 * second) (some (answerAt .absent))] := by
  refine cached_in_time .sts _ ?_
  intro r hr answer hanswer
  rcases List.mem_cons.mp hr with rfl | hr
  · cases hanswer
    change 10 * second ≤ 20 * second
    decide
  · rw [List.mem_singleton.mp hr] at hanswer
    cases hanswer
    trivial

end Wiremux.CredentialCaches
