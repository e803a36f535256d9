import Wiremux.GuardedRuns
import Wiremux.StaleMarks
import Mathlib.Logic.Function.Basic

set_option autoImplicit false

/-!
# The cloud token providers

`get_token` of the Azure and GCP providers and `get_credentials` of the AWS STS
provider, interleaved with `mark_stale` and with futures dropped at their await
points. The force flag, the in-flight slot and the cached token are separate
cells; each action below touches what one critical section of the code touches.
-/
namespace Wiremux.CloudTokens
open StaleMarks

inductive Provider where
  | azure
  | gcp
  | sts
  deriving DecidableEq

/-- What a call is about to do. An error is carried as its text, which is what the
watch channel shares. -/
inductive Phase (κ : Type) where
  | idle
  /-- `state.read().await` of the fast path -/
  | called
  | reading
  | checked
  | fresh (token : κ)
  | claiming
  /-- `rx.changed().await` -/
  | following (leader : ℕ)
  | leading
  /-- `state.read().await` of the refresh -/
  | swapped (force : Bool)
  /-- the POST and the checks of its response -/
  | posting (force : Bool)
  /-- `state.write().await` -/
  | writing (force : Bool) (token : κ)
  | refreshed (force : Bool) (result : Except String κ)
  | completing (result : Except String κ)
  | publishing (result : Except String κ)
  | aborting
  /-- `state.read().await` after the refresh, STS only -/
  | rereading
  | done (result : Except String κ)
  | dropped

/-- The provider's cells and its calls, and beside them what has happened so far: the
marks and deliveries, the marks made before each call started, before the latest POST
started, and before the start of a POST that succeeded. -/
structure State (κ : Type) where
  forceRefresh : Bool := false
  slot : Option ℕ := none
  /-- the token and whether it `needs_refresh` -/
  cached : Option (κ × Bool) := none
  begun : ℕ := 0
  calls : ℕ → Phase κ := fun _ => .idle
  results : ℕ → Option (Except String κ) := fun _ => none
  ledger : Ledger κ := {}
  started : ℕ → ℕ := fun _ => 0
  posted : ℕ := 0
  served : ℕ := 0

inductive Action (κ : Type) where
  | markStale
  /-- the cached token passes its refresh time -/
  | age
  | begin
  | run (call : ℕ)
  /-- the POST's outcome: a token, or any failure up to the response's checks -/
  | answer (call : ℕ) (outcome : Except String κ)
  | drop (call : ℕ)

variable {κ : Type}

/-- The call holds the state's read guard. -/
def Phase.reads : Phase κ → Bool
  | .reading | .checked | .fresh _ => true
  | _ => false

def cachedToken (s : State κ) : Option κ := s.cached.map Prod.fst

/-- The cached token where it does not need a refresh. -/
def freshToken (s : State κ) : Option κ :=
  match s.cached with
  | some (token, false) => some token
  | _ => none

def isError (result : Except String κ) : Bool :=
  match result with
  | .ok _ => false
  | .error _ => true

def State.move (s : State κ) (i : ℕ) (p : Phase κ) : State κ :=
  { s with calls := Function.update s.calls i p }

@[simp, grind =] theorem move_calls (s : State κ) (i : ℕ) (p : Phase κ) (k : ℕ) :
    (s.move i p).calls k = if k = i then p else s.calls k :=
  Function.update_apply s.calls i p k

/-- What a call does with the result of `lead_or_follow`: the STS provider rereads the
cache, whatever the token. -/
def settle (provider : Provider) (result : Except String κ) : Phase κ :=
  match provider, result with
  | .sts, .ok _ => .rereading
  | _, result => .done result

def markStale (s : State κ) : State κ :=
  { s with forceRefresh := true, ledger := s.ledger.mark (cachedToken s) }

def age (s : State κ) : State κ :=
  { s with cached := s.cached.map fun cached => (cached.1, true) }

def beginCall (s : State κ) : State κ :=
  { s with begun := s.begun + 1, calls := Function.update s.calls s.begun .called,
           started := Function.update s.started s.begun s.ledger.marks }

def claim (s : State κ) (i : ℕ) : State κ :=
  match s.slot with
  | some j => s.move i (.following j)
  | none => { s.move i .leading with slot := some i }

/-- `refresh`, up to its POST. -/
def refresh (s : State κ) (i : ℕ) (force : Bool) : State κ :=
  match if force then none else freshToken s with
  | some token => s.move i (.refreshed force (.ok token))
  | none => { s.move i (.posting force) with posted := s.ledger.marks }

def answered (s : State κ) (i : ℕ) (force : Bool) : Except String κ → State κ
  | .ok token => { s.move i (.writing force token) with
      ledger := s.ledger.deliver token, served := max s.served s.posted }
  | .error text => s.move i (.refreshed force (.error text))

/-- The state's write guard is given once no call reads. -/
def write (s : State κ) (i : ℕ) (force : Bool) (token : κ) : Option (State κ) :=
  if ∃ k < s.begun, (s.calls k).reads then none
  else some { s.move i (.refreshed force (.ok token)) with cached := some (token, false) }

def runCall (provider : Provider) (s : State κ) (i : ℕ) : Option (State κ) :=
  match s.calls i with
  | .called => some (s.move i .reading)
  | .reading => some (s.move i (if s.forceRefresh then .claiming else .checked))
  | .checked => some (s.move i ((freshToken s).elim .claiming .fresh))
  | .fresh token => some (s.move i (if s.slot.isSome then .claiming else .done (.ok token)))
  | .claiming => some (claim s i)
  | .following j => (s.results j).map fun result => s.move i (settle provider result)
  | .leading => some { s.move i (.swapped s.forceRefresh) with forceRefresh := false }
  | .swapped force => some (refresh s i force)
  | .writing force token => write s i force token
  | .refreshed force result => some { s.move i (.completing result) with
      forceRefresh := s.forceRefresh || (isError result && force) }
  | .completing result => some { s.move i (.publishing result) with slot := none }
  | .publishing result => some { s.move i (settle provider result) with
      results := Function.update s.results i (some result) }
  | .aborting => some { s.move i .dropped with
      results := Function.update s.results i (some (.error "token refresh aborted")) }
  | .rereading => some (s.move i (.done ((cachedToken s).elim
      (.error "STS cache empty after refresh") .ok)))
  | .idle | .posting _ | .done _ | .dropped => none

/-- A future dropped at an await point. A leader that is dropped clears the slot first. -/
def dropCall (s : State κ) (i : ℕ) : Option (State κ) :=
  match s.calls i with
  | .called | .following _ | .rereading => some (s.move i .dropped)
  | .swapped _ | .posting _ | .writing _ _ => some { s.move i .aborting with slot := none }
  | _ => none

def step (provider : Provider) (s : State κ) : Action κ → Option (State κ)
  | .markStale => some (markStale s)
  | .age => some (age s)
  | .begin => some (beginCall s)
  | .run i => runCall provider s i
  | .answer i outcome =>
    match s.calls i with
    | .posting force => some (answered s i force outcome)
    | _ => none
  | .drop i => dropCall s i

end Wiremux.CloudTokens
