import Wiremux.GuardedRuns
import Wiremux.JsonValue
import Wiremux.StaleMarks
import Mathlib.Logic.Function.Basic

set_option autoImplicit false

/-!
# The profile token provider

`get_token` of `ProfileTokenProvider` with its refresh and its retried save,
interleaved with `mark_stale` and with futures dropped at their await points. What
the lock, the store, the token URL and the save answer comes with the action.
-/
namespace Wiremux.ProfileTokens
open JsonValue StaleMarks

/-- What the provider reads of its pack: the credentials format, the store's path and the
error texts. -/
structure Pack where
  copilotHosts : Bool := false
  storePath : String := ""
  emptyAccess : String := "credentials have an empty access token"
  noRefresh : String := "access token expired and no refresh token is available"

/-- `CachedToken`, with the clock's answer to `needs_refresh`. -/
structure CachedToken where
  access : String
  refresh : Option String
  needsRefresh : Bool
  unsaved : Option ℕ

/-- The tokens of the store's entry, whose access token `store_tokens_from_json` checks
not to be empty. -/
structure StoreTokens where
  access : String
  refresh : Option String
  needsRefresh : Bool
  nonempty : access ≠ ""

structure TokenResponse where
  access : String
  refresh : Option String
  expiresIn : Option ℕ

/-- An error of the source that the provider does not tell apart from others is carried as
its text, an I/O or JSON error of a save as the text of its source. -/
inductive AuthError where
  | credentialStoreStale (path detail : String)
  | emptyWriteRefused
  | other (text : String)

abbrev Refreshed := Except AuthError String

/-- What came of the token POST. -/
inductive Posted where
  | accepted (response : TokenResponse)
  | rejected (rotation : Bool) (text : String)
  | transport (text : String)
  | failed (text : String)

/-- What came of a reload of the store. -/
abbrev Reloaded := Except String (Option StoreTokens)

/-- What a call is about to do. -/
inductive Phase where
  | idle
  /-- `state.read().await` of the fast path -/
  | called
  | reading
  | unskipped
  | unforced
  | fresh
  | claiming
  /-- `rx.changed().await` -/
  | following (leader : ℕ)
  /-- `state.read().await` of the leader's closure -/
  | leading
  | swapping
  /-- `try_acquire_refresh_lock(..).await` -/
  | locking (force : Bool)
  /-- `state.read().await` without the lock -/
  | unlocked (force : Bool) (error : String)
  | locked (force : Bool)
  /-- `reload_from_store().await` of `adopt_copilot_hosts` -/
  | copilotReloading (force : Bool)
  /-- `state.write().await` -/
  | copilotAdopting (force : Bool) (store : StoreTokens)
  /-- `state.read().await` -/
  | copilotKeeping (force : Bool) (error : Option String)
  /-- `state.write().await` before the POST -/
  | entering (force : Bool)
  /-- `reload_from_store().await` under the write guard -/
  | reloading (force : Bool)
  /-- `do_refresh(..).await` -/
  | posting (force : Bool) (refreshToken : String)
  /-- `state.read().await` after a transport failure -/
  | keeping (error : String)
  /-- `reload_from_store().await` after a rotation error -/
  | rotated (force : Bool) (error : String)
  /-- `state.write().await` -/
  | adopting (force : Bool) (error : String) (store : StoreTokens)
  /-- `state.write().await` after the POST -/
  | writing (force : Bool) (response : TokenResponse)
  /-- `write_back(..).await` -/
  | saving (force : Bool) (access : String) (refresh : Option String) (expiresIn : ℕ)
  /-- `state.write().await` after the save -/
  | clearing (force : Bool) (access : String) (expiresIn : ℕ)
  /-- `try_acquire_refresh_lock(..).await` of `persist_cached_token` -/
  | persistLocking
  /-- `state.read().await` -/
  | persistReading
  | refreshed (force : Bool) (result : Refreshed)
  | completing (result : Refreshed)
  | publishing (result : Refreshed)
  | aborting
  | done (result : Refreshed)
  | dropped

/-- What the provider does that others see: a POST, its accepted response, the save of its
tokens, an adoption from the store, a token returned. -/
inductive Event where
  | posted (refreshToken : String)
  | accepted (refreshToken : String)
  | saved
  | adopted
  | returned
  deriving DecidableEq

/-- The provider's cells and its calls, and beside them what has happened so far: the
marks and deliveries, the marks made before each call started, before the latest POST or
reload, and before one that gave the provider its tokens; and the events, last first. -/
structure State where
  forceRefresh : Bool := false
  skipHttpRefresh : Bool := false
  slot : Option ℕ := none
  cached : CachedToken
  begun : ℕ := 0
  calls : ℕ → Phase := fun _ => .idle
  results : ℕ → Option Refreshed := fun _ => none
  ledger : Ledger String := {}
  started : ℕ → ℕ := fun _ => 0
  asked : ℕ := 0
  served : ℕ := 0
  log : List Event := []

inductive Action where
  | markStale
  | withoutHttpRefresh
  /-- the cached token passes its refresh time -/
  | age
  | begin
  | run (call : ℕ)
  | lock (call : ℕ) (error : Option String)
  | reload (call : ℕ) (outcome : Reloaded)
  | answer (call : ℕ) (outcome : Posted)
  | save (call : ℕ) (error : Option AuthError)
  | drop (call : ℕ)

/-- The call holds the state's read guard. -/
def Phase.reads : Phase → Bool
  | .reading | .unskipped | .unforced | .fresh => true
  | _ => false

/-- The call holds the state's write guard over an await. -/
def Phase.holds : Phase → Bool
  | .reloading _ => true
  | _ => false

def State.move (s : State) (i : ℕ) (p : Phase) : State :=
  { s with calls := Function.update s.calls i p }

def State.note (s : State) (e : Event) : State := { s with log := e :: s.log }

/-- The read guard is given while no call holds the write guard. -/
def whenReadable (s : State) (next : State) : Option State :=
  if ∃ k < s.begun, (s.calls k).holds then none else some next

def whenWritable (s : State) (next : State) : Option State :=
  if ∃ k < s.begun, (s.calls k).reads ∨ (s.calls k).holds then none else some next

def isError (result : Refreshed) : Bool :=
  match result with
  | .ok _ => false
  | .error _ => true

def rearms (force : Bool) (result : Refreshed) : Bool :=
  match result with
  | .error (.credentialStoreStale _ _) | .ok _ => false
  | .error _ => force

def staleSaveError (pack : Pack) (error : AuthError) : AuthError :=
  .credentialStoreStale pack.storePath
    (match error with
      | .credentialStoreStale _ detail => detail
      | .emptyWriteRefused => "save refused empty credentials"
      | .other text => "save failed: " ++ text)

def pendingSave (pack : Pack) : AuthError := staleSaveError pack (.other "credential save still pending")

/-- The text that a leader shares of its error. -/
def AuthError.text : AuthError → String
  | .credentialStoreStale path detail => "credential store is stale (" ++ path ++ "): " ++ detail
  | .emptyWriteRefused => "refusing to write empty or invalid credentials"
  | .other text => text

def share (result : Refreshed) : Refreshed := result.mapError fun e => .other e.text

def adoptFromStore (cached : CachedToken) (store : StoreTokens) : Option CachedToken :=
  if cached.unsaved.isSome || store.access = "" || store.access = cached.access then none
  else some { access := store.access, refresh := store.refresh,
              needsRefresh := store.needsRefresh, unsaved := none }

def cachedTokenOnLockFailure (cached : String) (force : Bool) (error : String) : Refreshed :=
  if !force && cached ≠ "" then .ok cached else .error (.other error)

def sentRefresh (cached : CachedToken) : Option String :=
  (cached.refresh.map trim).filter (· ≠ "")

def cachedOr (cached : String) (error : AuthError) : Refreshed :=
  if isBlank cached then .error error else .ok cached

/-- The store's tokens are taken, at a time when `asked` marks had been made. -/
def adopt (s : State) (adopted : CachedToken) : State :=
  { s with cached := adopted, served := max s.served s.asked, log := .adopted :: s.log }

def noteStore (s : State) : Reloaded → State
  | .ok (some store) => { s with ledger := s.ledger.deliver store.access, asked := s.ledger.marks }
  | _ => s

def refreshFrom (pack : Pack) (s : State) (i : ℕ) (force : Bool) : State :=
  if !force && !s.cached.needsRefresh then s.move i (.refreshed force (.ok s.cached.access))
  else
    match sentRefresh s.cached with
    | none => s.move i (.refreshed force (.error (.other pack.noRefresh)))
    | some token => { s.move i (.posting force token) with
        asked := s.ledger.marks, log := .posted token :: s.log }

def adoptReloaded (s : State) : Reloaded → State
  | .ok (some store) => (adoptFromStore s.cached store).elim s (adopt s)
  | _ => s

/-- What a reload of the store leads to. -/
def reloaded (pack : Pack) (s : State) (i : ℕ) (outcome : Reloaded) : Option State :=
  match s.calls i with
  | .copilotReloading force =>
    some ((noteStore s outcome).move i (match outcome with
      | .ok (some store) => .copilotAdopting force store
      | .ok none => .copilotKeeping force none
      | .error text => .copilotKeeping force (some text)))
  | .reloading force => some (refreshFrom pack (adoptReloaded (noteStore s outcome) outcome) i force)
  | .rotated force error =>
    some ((noteStore s outcome).move i (match outcome with
      | .ok (some store) => .adopting force error store
      | _ => .refreshed force (.error (.other error))))
  | _ => none

def answered (s : State) (i : ℕ) (force : Bool) (refreshToken : String) : Posted → State
  | .accepted response =>
    if isBlank response.access then s.move i (.refreshed force (.error .emptyWriteRefused))
    else { s.move i (.writing force response) with
      ledger := s.ledger.deliver response.access, served := max s.served s.asked,
      log := .accepted refreshToken :: s.log }
  | .rejected true text => s.move i (.rotated force text)
  | .rejected false text => s.move i (.refreshed force (.error (.other text)))
  | .transport text =>
    s.move i (if force then .refreshed force (.error (.other text)) else .keeping text)
  | .failed text => s.move i (.refreshed force (.error (.other text)))

def defaultLifetimeSecs : ℕ := 3600

/-- The response's tokens are cached, not saved yet. -/
def write (s : State) (i : ℕ) (force : Bool) (response : TokenResponse) : State :=
  let expiresIn := response.expiresIn.getD defaultLifetimeSecs
  let newRefresh := response.refresh.or s.cached.refresh
  { s.move i (.saving force response.access newRefresh expiresIn) with
    cached := { access := response.access, refresh := newRefresh,
                needsRefresh := expiresIn = 0, unsaved := some expiresIn } }

def clear (pack : Pack) (s : State) (i : ℕ) (force : Bool) (access : String) (expiresIn : ℕ) : State :=
  let unsaved := if s.cached.access = access ∧ s.cached.unsaved = some expiresIn then none
    else s.cached.unsaved
  { s.move i (.refreshed force (if unsaved.isSome then .error (pendingSave pack) else .ok access)) with
    cached := { s.cached with unsaved := unsaved } }

def adoptOr (s : State) (i : ℕ) (force : Bool) (store : StoreTokens) (kept : Refreshed) : State :=
  match adoptFromStore s.cached store with
  | some adopted => (adopt s adopted).move i (.refreshed force (.ok adopted.access))
  | none => s.move i (.refreshed force kept)

/-- The store's token is the cached one: a refresh of the hosts file has nothing to adopt. -/
def confirm (s : State) (store : StoreTokens) : State :=
  if store.access = s.cached.access then { s with served := max s.served s.asked } else s

def claim (s : State) (i : ℕ) : State :=
  match s.slot with
  | some j => s.move i (.following j)
  | none => { s.move i .leading with slot := some i }

/-- One step of the call that awaits nothing but the state's lock. -/
def runCall (pack : Pack) (s : State) (i : ℕ) : Option State :=
  match s.calls i with
  | .called => whenReadable s (s.move i .reading)
  | .reading =>
    some (if s.cached.unsaved.isSome then s.move i .claiming
      else if s.skipHttpRefresh then
        if isBlank s.cached.access then s.move i (.done (.error (.other pack.emptyAccess)))
        else (s.move i (.done (.ok s.cached.access))).note .returned
      else s.move i .unskipped)
  | .unskipped => some (s.move i (if s.forceRefresh then .claiming else .unforced))
  | .unforced => some (s.move i (if s.cached.needsRefresh then .claiming else .fresh))
  | .fresh =>
    some (if s.slot.isSome then s.move i .claiming
      else (s.move i (.done (.ok s.cached.access))).note .returned)
  | .claiming => some (claim s i)
  | .following j => (s.results j).map fun result => s.move i (.done (share result))
  | .leading => whenReadable s (s.move i (if s.cached.unsaved.isSome then .persistLocking else .swapping))
  | .swapping => some { s.move i (.locking s.forceRefresh) with forceRefresh := false }
  | .unlocked force error =>
    whenReadable s (s.move i (.refreshed force
      (if s.cached.unsaved.isSome then .error (staleSaveError pack (.other error))
        else cachedTokenOnLockFailure s.cached.access force error)))
  | .locked force => some (s.move i (if pack.copilotHosts then .copilotReloading force else .entering force))
  | .copilotAdopting force store =>
    whenWritable s (adoptOr (confirm s store) i force store (.ok s.cached.access))
  | .copilotKeeping force error =>
    whenReadable s (s.move i (.refreshed force
      (cachedOr s.cached.access (.other (error.getD pack.emptyAccess)))))
  | .entering force =>
    whenWritable s (if s.cached.unsaved.isSome then s.move i (.refreshed force (.error (pendingSave pack)))
      else if !force && !s.cached.needsRefresh then s.move i (.refreshed force (.ok s.cached.access))
      else s.move i (.reloading force))
  | .keeping error =>
    whenReadable s (s.move i (.refreshed false (cachedOr s.cached.access (.other error))))
  | .adopting force error store =>
    whenWritable s (adoptOr s i force store (.error (.other error)))
  | .writing force response => whenWritable s (write s i force response)
  | .clearing force access expiresIn => whenWritable s (clear pack s i force access expiresIn)
  | .persistReading =>
    whenReadable s (s.move i (match s.cached.unsaved with
      | none => .refreshed false (.ok s.cached.access)
      | some expiresIn => .saving false s.cached.access s.cached.refresh expiresIn))
  | .refreshed force result => some { s.move i (.completing result) with
      forceRefresh := s.forceRefresh || rearms force result,
      log := if isError result then s.log else .returned :: s.log }
  | .completing result => some { s.move i (.publishing result) with slot := none }
  | .publishing result => some { s.move i (.done result) with
      results := Function.update s.results i (some result) }
  | .aborting => some { s.move i .dropped with
      results := Function.update s.results i (some (.error (.other "token refresh aborted"))) }
  | _ => none

def lockAnswered (pack : Pack) (s : State) (i : ℕ) (error : Option String) : Option State :=
  match s.calls i, error with
  | .locking force, none => some (s.move i (.locked force))
  | .locking force, some text => some (s.move i (.unlocked force text))
  | .persistLocking, none => some (s.move i .persistReading)
  | .persistLocking, some text => some (s.move i (.refreshed false (.error (staleSaveError pack (.other text)))))
  | _, _ => none

def saveAnswered (pack : Pack) (s : State) (i : ℕ) (error : Option AuthError) : Option State :=
  match s.calls i, error with
  | .saving force access _ expiresIn, none => some ((s.move i (.clearing force access expiresIn)).note .saved)
  | .saving force _ _ _, some e => some (s.move i (.refreshed force (.error (staleSaveError pack e))))
  | _, _ => none

def answerCall (s : State) (i : ℕ) (outcome : Posted) : Option State :=
  match s.calls i with
  | .posting force token => some (answered s i force token outcome)
  | _ => none

def Phase.awaits : Phase → Bool
  | .leading | .locking _ | .unlocked _ _ | .copilotReloading _ | .copilotAdopting _ _ | .copilotKeeping _ _
  | .entering _ | .reloading _ | .posting _ _ | .keeping _ | .rotated _ _ | .adopting _ _ _ | .writing _ _
  | .saving _ _ _ _ | .clearing _ _ _ | .persistLocking | .persistReading => true
  | _ => false

/-- A future dropped at an await point. A leader that is dropped clears the slot first. -/
def dropCall (s : State) (i : ℕ) : Option State :=
  match s.calls i with
  | .called | .following _ => some (s.move i .dropped)
  | p => if p.awaits then some { s.move i .aborting with slot := none } else none

def markStale (s : State) : State :=
  { s with forceRefresh := true, ledger := s.ledger.mark (some s.cached.access) }

def age (s : State) : State := { s with cached := { s.cached with needsRefresh := true } }

def beginCall (s : State) : State :=
  { s with begun := s.begun + 1, calls := Function.update s.calls s.begun .called,
           started := Function.update s.started s.begun s.ledger.marks }

def step (pack : Pack) (s : State) : Action → Option State
  | .markStale => some (markStale s)
  | .withoutHttpRefresh => some { s with skipHttpRefresh := true }
  | .age => some (age s)
  | .begin => some (beginCall s)
  | .run i => runCall pack s i
  | .lock i error => lockAnswered pack s i error
  | .reload i outcome => reloaded pack s i outcome
  | .answer i outcome => answerCall s i outcome
  | .save i error => saveAnswered pack s i error
  | .drop i => dropCall s i

end Wiremux.ProfileTokens
