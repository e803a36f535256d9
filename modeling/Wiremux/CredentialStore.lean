import Mathlib.Logic.Function.Basic
import Wiremux.CredentialWriteback
import Wiremux.EventStream
import Wiremux.SseWriting

set_option autoImplicit false

/-!
# Writers of one credentials file

Refresh write-backs and retried saves take the lock beside the file; logins and
removals do not. All of them write the same sibling file and rename it. A step is one
file operation of one of them, in any order.
-/
namespace Wiremux.CredentialStore
open JsonValue CredentialPointers CredentialWriteback
open EventStream (fromUtf8)
open SseWriting (utf8)

/-- The credentials file and its `.tmp` sibling name files of this directory. -/
structure Files where
  inodes : ℕ → List UInt8
  file : Option ℕ
  tmp : Option ℕ
  fresh : ℕ

def maxCredsBytes : ℕ := 1024 * 1024

def Files.isFile (f : Files) : Bool := f.file.isSome

def readCredsString (f : Files) : Option String :=
  (f.file.map f.inodes).bind fun contents =>
    if maxCredsBytes < contents.length then none else fromUtf8 contents

def Files.openTmp (f : Files) : Files × ℕ :=
  match f.tmp with
  | some n => ({ f with inodes := Function.update f.inodes n [] }, n)
  | none => ({ f with
      inodes := Function.update f.inodes f.fresh [], tmp := some f.fresh, fresh := f.fresh + 1 }, f.fresh)

/-- Write from the start of an open file, over what another writer has put there. -/
def Files.writeAll (f : Files) (n : ℕ) (contents : List UInt8) : Files :=
  { f with inodes := Function.update f.inodes n (contents ++ (f.inodes n).drop contents.length) }

def Files.removeTmp (f : Files) : Files := { f with tmp := none }

def Files.removeFile (f : Files) : Files := { f with file := none }

/-- `rename` of the sibling over the credentials file, where there is one. -/
def Files.replaceSecretFile (f : Files) : Option Files :=
  f.tmp.map fun n => { f with file := some n, tmp := none }

/-- What is written and read as text. -/
structure Json where
  serde : SerdeJson
  toStringPretty : Value → String

/-- Each write knows what time its clock shows. -/
inductive Op where
  | refresh (w : TokenWrite) (now : ℕ)
  | save (w : TokenWrite) (now : ℕ)
  | login (oauth : OauthPack) (tokens : TokenExchangeResponse) (now : ℕ)
  | remove (oauth : OauthPack)

/-- The write made under the lock, for the writers that take it. -/
def Op.locked : Op → Option (TokenWrite × ℕ)
  | .refresh w now => some (w, now)
  | .save w now => some (w, now)
  | .login _ _ _ => none
  | .remove _ => none

/-- How far a writer has come. -/
inductive Phase where
  | idle
  | lookedUp (present : Bool)
  | pointed (w : TokenWrite) (now : ℕ)
  | ready (w : TokenWrite) (now : ℕ)
  | changed (doc : Value)
  | emptied
  | opened (n : ℕ) (doc : Value)
  | written (doc : Value)
  | done (ok : Bool)

def Phase.active : Phase → Prop
  | .idle => False
  | .done _ => False
  | _ => True

def Phase.isDone : Phase → Bool
  | .done _ => true
  | _ => false

/-- The parse of the file, for the writers that refuse what is no JSON. -/
def parseCreds (json : Json) (f : Files) : Option Value := (readCredsString f).bind json.serde.fromStr

def Phase.ofChange : Except AuthError Value → Phase
  | .ok doc => .changed doc
  | .error _ => .done false

def lookupLogin (json : Json) (oauth : OauthPack) (tokens : TokenExchangeResponse) (now : ℕ)
    (f : Files) (present : Bool) : Phase :=
  let point := fun existing =>
    match loginWrite oauth tokens existing with
    | .error _ => .done false
    | .ok w => .pointed w now
  if present then
    match readCredsString f with
    | none => .done false
    | some text => point (json.serde.fromStr text)
  else point none

def lookupRemove (json : Json) (oauth : OauthPack) (f : Files) (present : Bool) : Phase :=
  if !present then .done false
  else
    match parseCreds json f with
    | none => .done false
    | some doc =>
      match removeEntry oauth doc with
      | .error _ => .done false
      | .ok none => .emptied
      | .ok (some rest) => .changed rest

/-- The next step of a writer that meets no fault of the file system. -/
def act (json : Json) (op : Op) (f : Files) : Phase → Files × Phase
  | .idle =>
    match op with
    | .login oauth tokens _ =>
      if (loginRefused oauth tokens).isSome then (f, .done false) else (f, .lookedUp f.isFile)
    | .remove oauth =>
      if oauth.credsFormat ≠ some .oidcAuthJson then (f, .done false) else (f, .lookedUp f.isFile)
    | _ => (f, .idle)
  | .lookedUp present =>
    match op with
    | .login oauth tokens now => (f, lookupLogin json oauth tokens now f present)
    | .remove oauth => (f, lookupRemove json oauth f present)
    | _ => (f, .done false)
  | .pointed w now =>
    if f.isFile then (f, .ready w now)
    else (f, Phase.ofChange (applyTokens (.object []) w now))
  | .ready w now =>
    match parseCreds json f with
    | none => (f, .done false)
    | some doc => (f, Phase.ofChange (applyTokens doc w now))
  | .changed doc => (f.openTmp.1, .opened f.openTmp.2 doc)
  | .emptied => if f.isFile then (f.removeFile, .done true) else (f, .done false)
  | .opened n doc => (f.writeAll n (utf8 (json.toStringPretty doc).toList), .written doc)
  | .written _ =>
    match f.replaceSecretFile with
    | some f => (f, .done true)
    | none => (f.removeTmp, .done false)
  | .done ok => (f, .done ok)

/-- A fault while the sibling is written or renamed removes it. -/
def Phase.cleanup (f : Files) : Phase → Files
  | .changed _ => f.removeTmp
  | .opened _ _ => f.removeTmp
  | .written _ => f.removeTmp
  | _ => f

def Phase.commits : Phase → Phase → Option (Option Value)
  | .written doc, .done true => some (some doc)
  | .emptied, .done true => some none
  | _, _ => none

section Steps
variable {ι : Type*} [DecidableEq ι]

/-- `log` is no part of the program: what was committed, and by whom. -/
structure State (ι : Type*) where
  files : Files
  lock : Option ι
  phases : ι → Phase
  log : List (ι × Option Value)

/-- Writer `i` comes to `next`; with its result it gives the lock back. -/
def State.put (s : State ι) (i : ι) (files : Files) (next : Phase) : State ι where
  files := files
  lock := if next.isDone && s.lock = some i then none else s.lock
  phases := Function.update s.phases i next
  log := s.log ++ (((s.phases i).commits next).map fun doc => (i, doc)).toList

/-- A writer takes the lock, makes its next step, meets a fault, or is gone. -/
inductive Action (ι : Type*) where
  | lock (i : ι)
  | act (i : ι)
  | fail (i : ι)
  | stop (i : ι)

/-- `none`: the writer cannot make this step here. -/
def step (json : Json) (ops : ι → Op) (s : State ι) : Action ι → Option (State ι)
  | .lock i =>
    match s.phases i, (ops i).locked, s.lock with
    | .idle, some (w, now), none => some { s.put i s.files (.ready w now) with lock := some i }
    | _, _, _ => none
  | .act i =>
    if (s.phases i).isDone then none
    else some (s.put i (act json (ops i) s.files (s.phases i)).1 (act json (ops i) s.files (s.phases i)).2)
  | .fail i =>
    if (s.phases i).isDone then none
    else some (s.put i ((s.phases i).cleanup s.files) (.done false))
  | .stop i => if (s.phases i).isDone then none else some (s.put i s.files (.done false))

def State.initial (files : Files) : State ι := ⟨files, none, fun _ => .idle, []⟩

def run (json : Json) (ops : ι → Op) (s : State ι) (actions : List (Action ι)) : Option (State ι) :=
  actions.foldlM (step json ops) s

/-- The writer whose operation begins with this step. -/
def Action.begins (ops : ι → Op) (s : State ι) : Action ι → Option ι
  | .lock i => some i
  | .act i =>
    match s.phases i, (ops i).locked with
    | .idle, none => some i
    | _, _ => none
  | _ => none

/-- No writer begins beside an active one, unless both take the lock. -/
def Apart (ops : ι → Op) (s : State ι) (a : Action ι) : Prop :=
  ∀ i, a.begins ops s = some i → ∀ j, (s.phases j).active →
    (ops i).locked.isSome ∧ (ops j).locked.isSome

/-- A run all of whose steps keep the writers without a lock apart. -/
inductive ApartRun (json : Json) (ops : ι → Op) (s₀ : State ι) : State ι → Prop
  | start : ApartRun json ops s₀ s₀
  | step {s t : State ι} (a : Action ι) (before : ApartRun json ops s₀ s) (apart : Apart ops s a)
      (step : step json ops s a = some t) : ApartRun json ops s₀ t

end Steps

end Wiremux.CredentialStore
