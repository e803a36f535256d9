import Wiremux.RefreshLog
import Wiremux.SharedStore
import Wiremux.StoreReading

set_option autoImplicit false

/-!
# The store entry of a provider

A provider loads a store document that other tools change as they like. Where the tokens
it adopts and saves were read is noted beside the run.
-/
namespace Wiremux.StoreEntries
open JsonValue CredentialPointers CredentialWriteback StoreReading
open ProfileTokens (Pack Phase Reloaded StoreTokens newEvents)

def keysOf : Value → List String
  | .object fields => fields.map Prod.fst
  | _ => []

/-- The store key of the pack: the issuer and the client, which may be blank. -/
def wanted (oauth : OauthPack) : Option String :=
  (oidcIssuerAndClient oauth).toOption.map fun pair => oidcProfileKey pair.1 pair.2

/-- A key that is taken for `want` where `want` itself is missing: of the issuer where no
client is known, named where one is. -/
def belongs (want key : String) : Bool :=
  match (stripSuffix "::" want).filter (· ≠ "") with
  | some issuer => (issuer ++ "::").toList.isPrefixOf key.toList
  | none => isNamed want key

/-- The key is the wanted one, or the only one that belongs to it. -/
def StandsFor (doc : Value) (want key : String) : Prop :=
  key = want ∨
    want ∉ keysOf doc ∧ key ∈ keysOf doc ∧ ∀ other ∈ keysOf doc, belongs want other ↔ other = key

instance (doc : Value) (want key : String) : Decidable (StandsFor doc want key) :=
  inferInstanceAs (Decidable (_ ∨ _))

/-- A field of an entry. -/
def entryPtr (key field : String) : String := "/" ++ escapePointerToken key ++ field

def entryToken (doc : Value) (key : String) : Option String :=
  (pointerGet doc (entryPtr key "/key")).bind jsonString

/-- Where tokens are: the access pointer and the refresh pointer. -/
abbrev Source := String × Option String

def source (layout : StoreLayout) : Source := (layout.accessPtr, layout.refreshPtr)

/-- A provider and the document, and beside them where the cached tokens were read, where
the last reload read, and of each adoption and save where the tokens were read and where
they are written back. -/
structure State where
  oauth : OauthPack
  layout : StoreLayout
  doc : Option Value
  provider : ProfileTokens.State
  cachedFrom : Source
  readFrom : Source
  history : List (Source × Source) := []

inductive Action where
  /-- another tool puts a document there, one that is not JSON, or none -/
  | change (doc : Option Value)
  /-- a step of the provider at that time -/
  | act (action : ProfileTokens.Action) (now : ℕ)

def saved (S : State) (i now : ℕ) : Option Value :=
  match S.provider.calls i with
  | .saving _ access refresh expiresIn => S.doc.bind fun doc =>
    (applyTokens doc (refreshWrite S.oauth S.layout access refresh expiresIn) now).toOption
  | _ => none

/-- A reload gives what is in the document, unless it fails. -/
def reads (S : State) (now : ℕ) : Reloaded → Bool
  | .error _ => true
  | .ok none => S.doc.any fun doc => (storeTokensFromJson S.oauth S.layout doc now).isNone
  | .ok (some store) => S.doc.any fun doc =>
    (storeTokensFromJson S.oauth S.layout doc now).any fun tokens =>
      store.access = tokens.1 && store.refresh = tokens.2.1

def permitted (S : State) (now : ℕ) : ProfileTokens.Action → Bool
  | .reload _ outcome => reads S now outcome
  | .save i none => (saved S i now).isSome
  | _ => true

def readBy (S : State) : ProfileTokens.Action → Source
  | .reload _ (.ok (some _)) => S.doc.elim S.readFrom fun doc => source (reloadLayout S.oauth S.layout doc)
  | _ => S.readFrom

def put (S : State) (a : ProfileTokens.Action) (now : ℕ) (s' : ProfileTokens.State) : State :=
  let events := newEvents S.provider.log s'.log
  let adopted := events.contains .adopted
  { S with
    doc := match a with
      | .save i none => saved S i now
      | _ => S.doc
    provider := s'
    cachedFrom := if adopted then readBy S a else S.cachedFrom
    readFrom := readBy S a
    history := (if adopted then [(readBy S a, source S.layout)] else []) ++
      (if events.contains .saved then [(S.cachedFrom, source S.layout)] else []) ++ S.history }

def step (pack : Pack) (S : State) : Action → Option State
  | .change doc => some { S with doc := doc }
  | .act a now =>
    if permitted S now a then (ProfileTokens.step pack S.provider a).map (put S a now) else none

/-- A provider that was loaded from the document. -/
def start (opened : Opened) (doc : Value) (needsRefresh : Bool) : State where
  oauth := opened.oauth
  layout := opened.layout
  doc := some doc
  provider := ProfileTokens.start
    { access := opened.access, refresh := opened.refresh, needsRefresh := needsRefresh, unsaved := none }
  cachedFrom := source opened.layout
  readFrom := source opened.layout

/-- No entry but the loaded one stands for the pack's key with an access token unlike the
cached one. -/
def Alone (S : State) : Prop :=
  S.oauth.accessTokenPtr.isSome ∨
    ∀ doc ∈ S.doc, ∀ want ∈ wanted S.oauth, ∀ key ∈ keysOf doc, StandsFor doc want key →
      ∀ token ∈ entryToken doc key,
        token = S.provider.cached.access ∨ S.layout.accessPtr = entryPtr key "/key"

instance (S : State) : Decidable (Alone S) := inferInstanceAs (Decidable (_ ∨ _))

/-- The condition on a step: it holds where a reload gives tokens. -/
def Stays (S : State) : Action → Prop
  | .act (.reload _ (.ok (some _))) _ => Alone S
  | _ => True

instance (S : State) : (a : Action) → Decidable (Stays S a)
  | .act (.reload _ (.ok (some _))) _ => inferInstanceAs (Decidable (Alone S))
  | .act (.reload _ (.ok none)) _ | .act (.reload _ (.error _)) _ | .act .markStale _
  | .act .withoutHttpRefresh _ | .act .age _ | .act .begin _ | .act (.run _) _ | .act (.lock _ _) _
  | .act (.answer _ _) _ | .act (.save _ _) _ | .act (.drop _) _ | .change _ => .isTrue trivial

/-- What is promised: tokens are adopted from the entry that the write-back pointers address,
and tokens read there are written there. -/
def OneEntry (S : State) : Prop := ∀ e ∈ S.history, e.1 = e.2

/-- The entries that a load, a login and a removal address where they succeed. -/
inductive Addresses (tokenUrlAllowed : String → Bool) (hint : String) (oauth : OauthPack) (doc : Value) :
    String → Prop
  | load {now : ℕ} {opened : Opened} {key : String}
      (hload : openStore tokenUrlAllowed hint oauth doc now = .ok opened)
      (hkey : headToken opened.layout.accessPtr = some key) : Addresses tokenUrlAllowed hint oauth doc key
  | login {tokens : TokenExchangeResponse} {w : TokenWrite} {now : ℕ} {doc' : Value} {key : String}
      (haccepted : loginRefused oauth tokens = none) (hwrite : loginWrite oauth tokens (some doc) = .ok w)
      (happly : applyTokens doc w now = .ok doc') (hkey : headToken w.accessPtr = some key) :
      Addresses tokenUrlAllowed hint oauth doc key
  | removal {left : Option Value} {key : String} (hremove : removeEntry oauth doc = .ok left)
      (hkey : entryKey oauth doc = .ok key) : Addresses tokenUrlAllowed hint oauth doc key

def OneAddress (tokenUrlAllowed : String → Bool) (hint : String) (oauth : OauthPack) (doc : Value) : Prop :=
  ∀ key other, Addresses tokenUrlAllowed hint oauth doc key → Addresses tokenUrlAllowed hint oauth doc other →
    key = other

/-- The condition on the pack and the document. An access pointer of the pack leads into the
entry that stands for the pack's key. -/
def Undivided (oauth : OauthPack) (doc : Value) : Prop :=
  ∀ ptr ∈ oauth.accessTokenPtr, ∀ want ∈ wanted oauth, ∀ key ∈ keysOf doc, StandsFor doc want key →
    headToken ptr = some key

instance (oauth : OauthPack) (doc : Value) : Decidable (Undivided oauth doc) :=
  inferInstanceAs (Decidable (∀ ptr ∈ oauth.accessTokenPtr, ∀ want ∈ wanted oauth, ∀ key ∈ keysOf doc,
    StandsFor doc want key → headToken ptr = some key))

end Wiremux.StoreEntries
