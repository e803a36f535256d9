import Wiremux.RefreshLog

set_option autoImplicit false

/-!
# Providers that share a store

Any number of providers with one store entry and one file lock. A provider loads what
the entry holds, a reload gives what was last saved, and the lock is held by one
provider at a time. The vendor gives a new refresh token with each response.
-/
namespace Wiremux.ProfileTokens
open JsonValue

def Place.holds : Place → Bool
  | .out => false
  | _ => true

/-- The leader is between its accepted response and the end of its save. -/
def Place.busy : Place → Bool
  | .writing _ | .saving _ _ _ => true
  | _ => false

/-- The entry's tokens, the providers that have loaded it, and the events of them all. -/
structure Shared where
  access : String
  refresh : Option String
  count : ℕ := 0
  providers : ℕ → State := fun _ => start { access := "", refresh := none, needsRefresh := false, unsaved := none }
  log : List Event := []

inductive SharedAction where
  | load (needsRefresh : Bool)
  | act (provider : ℕ) (action : Action)

def loaded (S : Shared) (needsRefresh : Bool) : CachedToken :=
  { access := S.access, refresh := S.refresh.filter (fun token => !isBlank token),
    needsRefresh := needsRefresh, unsaved := none }

/-- The lock is given while no other provider has it, and a reload gives the entry. -/
def allowed (S : Shared) (p : ℕ) : Action → Bool
  | .lock _ none => decide (∀ q < S.count, q ≠ p → (S.providers q).place.holds = false)
  | .reload _ (.ok (some store)) => decide (store.access = S.access ∧ store.refresh = S.refresh)
  | .reload _ (.ok none) => false
  | _ => true

/-- A save writes the tokens; without a refresh token the entry's stays. -/
def entryAfter (S : Shared) (p : ℕ) : Action → String × Option String
  | .save _ none =>
    match (S.providers p).place with
    | .saving access refresh _ => (access, refresh.or S.refresh)
    | _ => (S.access, S.refresh)
  | _ => (S.access, S.refresh)

def newEvents (old new : List Event) : List Event := new.take (new.length - old.length)

theorem newEvents_append (new old : List Event) : newEvents old (new ++ old) = new := by
  simp [newEvents]

def Shared.put (S : Shared) (p : ℕ) (a : Action) (s' : State) : Shared :=
  { S with access := (entryAfter S p a).1, refresh := (entryAfter S p a).2,
           providers := Function.update S.providers p s',
           log := newEvents (S.providers p).log s'.log ++ S.log }

def sharedStep (pack : Pack) (S : Shared) : SharedAction → Option Shared
  | .load needsRefresh =>
    if isBlank S.access then none
    else some { S with
      count := S.count + 1
      providers := Function.update S.providers S.count (start (loaded S needsRefresh)) }
  | .act p a =>
    if p < S.count ∧ allowed S p a then (step pack (S.providers p) a).map fun s' => S.put p a s' else none

/-- The refresh tokens of the accepted POSTs. -/
def acceptedTokens (log : List Event) : List String :=
  log.filterMap fun e => match e with
    | .accepted token => some token
    | _ => none

/-- The refresh token that the call has sent. -/
def Phase.sent : Phase → Option String
  | .posting _ token => some token
  | _ => none

/-- Saves succeed, and each response has a refresh token unlike those that were used. -/
def Rotating (S : Shared) : SharedAction → Prop
  | .act _ (.save _ error) => error.isNone = true
  | .act p (.answer i (.accepted response)) =>
    ∃ token ∈ response.refresh, trim token ∉ acceptedTokens S.log ∧
      ((S.providers p).calls i).sent ≠ some (trim token)
  | _ => True

instance (S : Shared) : (a : SharedAction) → Decidable (Rotating S a)
  | .act _ (.save _ error) => inferInstanceAs (Decidable (error.isNone = true))
  | .act p (.answer i (.accepted response)) =>
    inferInstanceAs (Decidable (∃ token ∈ response.refresh, trim token ∉ acceptedTokens S.log ∧
      ((S.providers p).calls i).sent ≠ some (trim token)))
  | .act _ (.answer _ (.rejected _ _)) | .act _ (.answer _ (.transport _)) | .act _ (.answer _ (.failed _))
  | .act _ .markStale | .act _ .withoutHttpRefresh | .act _ .age | .act _ .begin | .act _ (.run _)
  | .act _ (.lock _ _) | .act _ (.reload _ _) | .act _ (.drop _) | .load _ => .isTrue trivial

/-- No leader is dropped before its save is noted, the reload before a POST succeeds, and
no other provider has the access token that is saved. -/
def Apart (S : Shared) (p : ℕ) : Action → Prop
  | .drop i => ((S.providers p).calls i).place.holds = true → ((S.providers p).calls i).place.bare = true
  | .reload i outcome => ((S.providers p).calls i).holds = true → outcome.toOption.isSome = true
  | .save i error => ∀ q < S.count, q ≠ p → (S.providers q).cached.access ≠ (entryAfter S p (.save i error)).1
  | _ => True

instance (S : Shared) (p : ℕ) : (a : Action) → Decidable (Apart S p a)
  | .drop i => inferInstanceAs (Decidable (((S.providers p).calls i).place.holds = true →
      ((S.providers p).calls i).place.bare = true))
  | .reload i outcome => inferInstanceAs (Decidable (((S.providers p).calls i).holds = true →
      outcome.toOption.isSome = true))
  | .save i error => inferInstanceAs (Decidable (∀ q < S.count, q ≠ p →
      (S.providers q).cached.access ≠ (entryAfter S p (.save i error)).1))
  | .markStale | .withoutHttpRefresh | .age | .begin | .run _ | .lock _ _ | .answer _ _ => .isTrue trivial

/-- The condition on a step. -/
def Distinct (S : Shared) : SharedAction → Prop
  | .load _ => True
  | .act p a => SavesFirst (S.providers p) a ∧ Apart S p a

instance (S : Shared) : (a : SharedAction) → Decidable (Distinct S a)
  | .load _ => .isTrue trivial
  | .act p a => inferInstanceAs (Decidable (SavesFirst (S.providers p) a ∧ Apart S p a))

def sentOf (refresh : Option String) : Option String := (refresh.map trim).filter (· ≠ "")

def Unused (S : Shared) (refresh : Option String) : Prop :=
  ∀ token, sentOf refresh = some token → token ∉ acceptedTokens S.log

def PlaceFact (S : Shared) : Place → Prop
  | .adopting store => store.access = S.access ∧ store.refresh = S.refresh
  | .posting token => token ∉ acceptedTokens S.log
  | .writing response => ∃ token, response.refresh = some token ∧ trim token ∉ acceptedTokens S.log
  | .saving _ refresh _ => ∃ token, refresh = some token ∧ trim token ∉ acceptedTokens S.log
  | _ => True

structure Member (S : Shared) (s : State) : Prop where
  kept : Kept s
  fact : PlaceFact S s.place
  /-- who has the entry's access token has its refresh token -/
  agree : (∀ access refresh expiresIn, s.place ≠ .saving access refresh expiresIn) →
    s.cached.access = S.access → sentOf s.cached.refresh = sentOf S.refresh
  saved : s.cached.unsaved.isSome → (∃ access refresh expiresIn, s.place = .saving access refresh expiresIn) ∨
    ∃ access expiresIn, s.place = .clearing access expiresIn

structure Sound (S : Shared) : Prop where
  member : ∀ p < S.count, Member S (S.providers p)
  one : ∀ p < S.count, ∀ q < S.count, (S.providers p).place.holds → (S.providers q).place.holds → p = q
  unused : (∀ p < S.count, (S.providers p).place.busy = false) → Unused S S.refresh
  nodup : (acceptedTokens S.log).Nodup

end Wiremux.ProfileTokens
