import Wiremux.ProfileRuns

set_option autoImplicit false

/-!
# What a step does to the tokens

The place of the one leader, seen from the file lock and the tokens, and for each step
of the provider what it does to the cached tokens and to the event log.
-/
namespace Wiremux.ProfileTokens
open JsonValue

/-- Where a leader is: without the file lock, with it, or between its POST and its save. -/
inductive Place where
  | out
  | locked
  | adopting (store : StoreTokens)
  | posting (refreshToken : String)
  | writing (response : TokenResponse)
  | saving (access : String) (refresh : Option String) (expiresIn : ℕ)
  | clearing (access : String) (expiresIn : ℕ)

def Phase.place : Phase → Place
  | .locked _ | .copilotReloading _ | .copilotKeeping _ _ | .entering _ | .reloading _ | .keeping _
  | .rotated _ _ | .persistReading => .locked
  | .copilotAdopting _ store | .adopting _ _ store => .adopting store
  | .posting _ token => .posting token
  | .writing _ response => .writing response
  | .saving _ access refresh expiresIn => .saving access refresh expiresIn
  | .clearing _ access expiresIn => .clearing access expiresIn
  | _ => .out

def State.place (s : State) : Place := s.slot.elim .out fun i => (s.calls i).place

/-- A leader with the lock that has nothing to save. -/
def Place.bare : Place → Bool
  | .locked | .adopting _ | .posting _ => true
  | _ => false

/-- Nothing unsaved is cached while a call is there. -/
def Phase.clean : Phase → Bool
  | .unskipped | .unforced | .fresh | .swapping | .locking _ | .unlocked _ _ | .locked _ | .copilotReloading _
  | .copilotAdopting _ _ | .copilotKeeping _ _ | .entering _ | .reloading _ | .posting _ _ | .keeping _
  | .rotated _ _ | .adopting _ _ _ | .writing _ _ | .refreshed _ (.ok _) => true
  | _ => false

def core (c : CachedToken) : String × Option String × Option ℕ := (c.access, c.refresh, c.unsaved)

def Skips (s : State) (a : Action) : Prop :=
  ∃ i, a = .run i ∧ s.calls i = .reading ∧ s.skipHttpRefresh = true

/-- What a step does to the place of the leader, the cached tokens and the log. -/
inductive Effect (s s' : State) : Action → Prop
  | rest {a : Action} (hcore : core s'.cached = core s.cached) (hlog : s'.log = s.log)
      (hplace : s'.place = s.place ∨ s.place.bare ∧ (s'.place = .out ∨ s'.place = .locked)) : Effect s s' a
  | lock {i : ℕ} (hcore : core s'.cached = core s.cached) (hlog : s'.log = s.log)
      (hplace : s.place = .out ∧ s'.place = .locked) : Effect s s' (.lock i none)
  | abandon {i : ℕ} (hcore : core s'.cached = core s.cached) (hlog : s'.log = s.log)
      (hplace : s.place = (s.calls i).place ∧ s'.place = .out) : Effect s s' (.drop i)
  | returned {a : Action} (hcore : core s'.cached = core s.cached) (hlog : s'.log = .returned :: s.log)
      (hplace : s'.place = s.place) (hsaved : s.cached.unsaved = none)
      (hout : s.place = .out ∨ Skips s a) : Effect s s' a
  | looked {i : ℕ} {store : StoreTokens} (hcore : core s'.cached = core s.cached) (hlog : s'.log = s.log)
      (hplace : s.place = .locked ∧ s'.place = .adopting store) : Effect s s' (.reload i (.ok (some store)))
  | adopted {a : Action} {store : StoreTokens} (hcached : adoptFromStore s.cached store = some s'.cached)
      (hlog : s'.log = .adopted :: s.log) (hplace : s.place = .adopting store ∧ s'.place = .out) :
      Effect s s' a
  | asked {i : ℕ} {outcome : Reloaded} (hreloading : ∃ force, s.calls i = .reloading force)
      (hsaved : s.cached.unsaved = none) (hplace : s.place = .locked)
      {log : List Event} (hcached : core s'.cached = core s.cached ∧ log = s.log ∧
          (∀ store, outcome = .ok (some store) → adoptFromStore s.cached store = none) ∨
        ∃ store, outcome = .ok (some store) ∧ adoptFromStore s.cached store = some s'.cached ∧
          log = .adopted :: s.log)
      (hsent : s'.place = .out ∧ s'.log = log ∨
        ∃ token, s'.place = .posting token ∧ sentRefresh s'.cached = some token ∧
          s'.log = .posted token :: log) : Effect s s' (.reload i outcome)
  | accepted {i : ℕ} {response : TokenResponse} {token : String} (hcore : core s'.cached = core s.cached)
      (hlog : s'.log = .accepted token :: s.log) (hsaved : s.cached.unsaved = none)
      (hposting : ∃ force, s.calls i = .posting force token)
      (hplace : s.place = .posting token ∧ s'.place = .writing response) :
      Effect s s' (.answer i (.accepted response))
  | written {a : Action} {response : TokenResponse} {expiresIn : ℕ} (hlog : s'.log = s.log)
      (hcore : core s'.cached = (response.access, response.refresh.or s.cached.refresh, some expiresIn))
      (hplace : s.place = .writing response ∧
        s'.place = .saving response.access (response.refresh.or s.cached.refresh) expiresIn) : Effect s s' a
  | saved {i : ℕ} {access : String} {refresh : Option String} {expiresIn : ℕ}
      (hcore : core s'.cached = core s.cached) (hlog : s'.log = .saved :: s.log)
      (hplace : s.place = .saving access refresh expiresIn ∧ s'.place = .clearing access expiresIn) :
      Effect s s' (.save i none)
  | unsaved {i : ℕ} {error : AuthError} {access : String} {refresh : Option String} {expiresIn : ℕ}
      (hcore : core s'.cached = core s.cached) (hlog : s'.log = s.log)
      (hplace : s.place = .saving access refresh expiresIn ∧ s'.place = .out) : Effect s s' (.save i (some error))
  | cleared {a : Action} {access : String} {expiresIn : ℕ} (hlog : s'.log = s.log)
      (haccess : s'.cached.access = s.cached.access ∧ s'.cached.refresh = s.cached.refresh)
      (hunsaved : s'.cached.unsaved = if s.cached.access = access ∧ s.cached.unsaved = some expiresIn then none
        else s.cached.unsaved)
      (hplace : s.place = .clearing access expiresIn ∧ s'.place = .out) : Effect s s' a
  | retried {a : Action} {expiresIn : ℕ} (hcore : core s'.cached = core s.cached) (hlog : s'.log = s.log)
      (hunsaved : s.cached.unsaved = some expiresIn)
      (hplace : s.place = .locked ∧ s'.place = .saving s.cached.access s.cached.refresh expiresIn) :
      Effect s s' a

structure Base (s : State) : Prop where
  slot : ∀ i, (s.calls i).leads ↔ s.slot = some i
  fresh : ∀ i, s.begun ≤ i → s.calls i = .idle
  clean : ∀ i, (s.calls i).clean → s.cached.unsaved = none

theorem Base.start {cached : CachedToken} : Base (start cached) where
  slot := by simp [ProfileTokens.start, Phase.leads, Phase.awaits]
  fresh := by simp [ProfileTokens.start]
  clean := by simp [ProfileTokens.start, Phase.clean]

theorem Base.place_leader {s : State} (h : Base s) {i : ℕ} (hi : (s.calls i).leads) :
    s.place = (s.calls i).place := by
  rw [State.place, (h.slot i).mp hi, Option.elim_some]

theorem Base.others {s : State} (h : Base s) {i : ℕ} (hi : (s.calls i).leads) {k : ℕ} (hk : k ≠ i) :
    (s.calls k).leads = false := by
  have := h.slot k
  have := (h.slot i).mp hi
  grind

theorem reads_of_clean {p : Phase} (hclean : p.clean) (hquiet : p.leads = false) : p.reads := by
  cases p <;> simp_all [Phase.clean, Phase.leads, Phase.awaits, Phase.reads]

theorem Base.quiet {s t : State} (h : Base s) {i : ℕ} {p : Phase} (hcalls : t.calls = (s.move i p).calls)
    (hslot : t.slot = s.slot) (hbegun : t.begun = s.begun) (hcached : t.cached = s.cached)
    (hidle : s.calls i ≠ .idle) (hfrom : (s.calls i).leads = false) (hto : p.leads = false)
    (hclean : p.clean → s.cached.unsaved = none) : Base t ∧ t.place = s.place := by
  have hk : ∀ k, t.calls k = if k = i then p else s.calls k := by
    intro k
    rw [hcalls, move_calls]
  refine ⟨⟨?_, ?_, ?_⟩, ?_⟩
  · intro k
    have := h.slot k
    have := h.slot i
    grind
  · intro k
    have := h.fresh k
    grind
  · intro k
    have := h.clean k
    grind
  · rw [State.place, State.place, hslot]
    cases hs : s.slot with
    | none => rfl
    | some j =>
      have := (h.slot j).mpr hs
      simp only [Option.elim_some, hk]
      grind

theorem Base.goOn {s t : State} (h : Base s) {i : ℕ} {p : Phase} (hcalls : t.calls = (s.move i p).calls)
    (hslot : t.slot = s.slot) (hbegun : t.begun = s.begun) (hlead : (s.calls i).leads) (hto : p.leads)
    (hclean : p.clean → t.cached.unsaved = none)
    (hunsaved : t.cached.unsaved = s.cached.unsaved ∨ t.cached.unsaved = none ∨
      ∀ k < s.begun, (s.calls k).reads = false) :
    Base t ∧ t.place = p.place := by
  have hk : ∀ k, t.calls k = if k = i then p else s.calls k := by
    intro k
    rw [hcalls, move_calls]
  refine ⟨⟨?_, ?_, ?_⟩, ?_⟩
  · intro k
    have := h.slot k
    grind
  · intro k
    have := h.fresh k
    grind [Phase.leads, Phase.awaits]
  · intro k hkc
    rw [hk] at hkc
    split at hkc
    · exact hclean hkc
    · rename_i hne
      rcases hunsaved with hsame | hnone | hreads
      · exact hsame.trans (h.clean k hkc)
      · exact hnone
      · have hread := reads_of_clean hkc (h.others hlead hne)
        by_cases hlt : k < s.begun
        · rw [hreads k hlt] at hread
          cases hread
        · rw [h.fresh k (Nat.le_of_not_lt hlt)] at hread
          cases hread
  · rw [State.place, hslot, (h.slot i).mp hlead, Option.elim_some, hk, if_pos rfl]

theorem Base.release {s : State} (h : Base s) {i : ℕ} {p : Phase} (hlead : (s.calls i).leads)
    (hto : p.leads = false) (hclean : p.clean = false) :
    Base { s.move i p with slot := none } ∧ ({ s.move i p with slot := none } : State).place = .out := by
  have hothers := fun k (hk : k ≠ i) => h.others hlead hk
  refine ⟨⟨?_, ?_, ?_⟩, rfl⟩
  · intro k
    have := hothers k
    grind
  · intro k
    have := h.fresh k
    grind [State.move, Phase.leads, Phase.awaits]
  · intro k
    have := h.clean k
    grind [State.move]

def Turn (s s' : State) (a : Action) : Prop := Base s' ∧ Effect s s' a

theorem Base.pass {s : State} (h : Base s) {i : ℕ} {p : Phase} {a : Action} (hfrom : (s.calls i).waits)
    (hto : p.leads = false) (hclean : p.clean → s.cached.unsaved = none) : Turn s (s.move i p) a := by
  obtain ⟨hidle, hquiet, -⟩ := waits_spec hfrom
  obtain ⟨hbase, hplace⟩ := h.quiet (p := p) (t := s.move i p) rfl rfl rfl rfl hidle hquiet hto hclean
  exact ⟨hbase, .rest rfl rfl (Or.inl hplace)⟩

theorem Base.walk {s : State} (h : Base s) {i : ℕ} {p : Phase} {a : Action} (hlead : (s.calls i).leads)
    (hto : p.leads) (hclean : p.clean → s.cached.unsaved = none)
    (hplace : p.place = (s.calls i).place ∨ (s.calls i).place.bare ∧ (p.place = .out ∨ p.place = .locked)) :
    Turn s (s.move i p) a := by
  obtain ⟨hbase, hnext⟩ := h.goOn (p := p) (t := s.move i p) rfl rfl rfl hlead hto hclean (Or.inl rfl)
  refine ⟨hbase, .rest rfl rfl ?_⟩
  rw [hnext, h.place_leader hlead]
  exact hplace

theorem Base.answer {s : State}
    (h : Base s) {i : ℕ} {a : Action} {r : Refreshed} (hfrom : (s.calls i).waits)
    (hsaved : s.cached.unsaved = none) (hout : s.place = .out ∨ Skips s a) :
    Turn s ((s.move i (.done r)).note .returned) a := by
  obtain ⟨hidle, hquiet, -⟩ := waits_spec hfrom
  obtain ⟨hbase, hplace⟩ := h.quiet (p := .done r) (t := (s.move i (.done r)).note .returned) rfl rfl rfl rfl
    hidle hquiet rfl nofun
  exact ⟨hbase, .returned rfl rfl hplace hsaved hout⟩

theorem writable_reads {s next s' : State} (h : whenWritable s next = some s') :
    ∀ k < s.begun, (s.calls k).reads = false := by
  rw [whenWritable] at h
  split at h
  · cases h
  · rename_i hnone
    intro k hk
    by_contra hread
    exact hnone ⟨k, hk, Or.inl (by simpa using hread)⟩

theorem core_adopt {s : State} {store : StoreTokens} {adopted : CachedToken}
    (h : adoptFromStore s.cached store = some adopted) : adopted.unsaved = none :=
  (access_of_adoptFromStore h).2

theorem Base.adoptOr {s : State}
    (h : Base s) {i : ℕ} {force : Bool} {store : StoreTokens} {kept : Refreshed}
    {a : Action} (hlead : (s.calls i).leads) (hplace : (s.calls i).place = .adopting store)
    (hclean : s.cached.unsaved = none) : Turn s (adoptOr s i force store kept) a := by
  rw [ProfileTokens.adoptOr]
  split
  · rename_i adopted hadopted
    have hnone := core_adopt hadopted
    obtain ⟨hbase, hnext⟩ := h.goOn (i := i) (p := .refreshed force (.ok adopted.access))
      (t := (adopt s adopted).move i (.refreshed force (.ok adopted.access))) rfl rfl rfl hlead rfl
      (fun _ => hnone) (Or.inr (Or.inl hnone))
    exact ⟨hbase, .adopted hadopted rfl ⟨(h.place_leader hlead).trans hplace, hnext⟩⟩
  · refine h.walk hlead rfl (fun _ => hclean) (Or.inr ?_)
    rw [hplace]
    exact ⟨rfl, Or.inl rfl⟩

theorem tokens_adoptReloaded (s : State) (outcome : Reloaded) (s' : State)
    (hs : s' = adoptReloaded (noteStore s outcome) outcome) :
    core s'.cached = core s.cached ∧ s'.log = s.log ∧
        (∀ store, outcome = .ok (some store) → adoptFromStore s.cached store = none) ∨
      ∃ store, outcome = .ok (some store) ∧ adoptFromStore s.cached store = some s'.cached ∧
        s'.log = .adopted :: s.log := by
  subst hs
  match outcome with
  | .error text => exact Or.inl ⟨rfl, rfl, by simp⟩
  | .ok none => exact Or.inl ⟨rfl, rfl, by simp⟩
  | .ok (some store) =>
    rw [adoptReloaded]
    cases hadopt : adoptFromStore (noteStore s (.ok (some store))).cached store with
    | none =>
      refine Or.inl ⟨rfl, rfl, fun other hother => ?_⟩
      cases hother
      exact hadopt
    | some adopted => exact Or.inr ⟨store, rfl, hadopt, rfl⟩

/-- From the reload under the write guard the leader ends, or goes on to its POST. -/
theorem Base.refreshFrom {pack : Pack} {s : State} (h : Base s) {i : ℕ} {force : Bool} {outcome : Reloaded}
    (hi : s.calls i = .reloading force) :
    Turn s (refreshFrom pack (adoptReloaded (noteStore s outcome) outcome) i force) (.reload i outcome) := by
  have hsaved : s.cached.unsaved = none := h.clean i (by rw [hi]; rfl)
  have hlead : (s.calls i).leads := by rw [hi]; rfl
  have hplace := h.place_leader hlead
  rw [hi] at hplace
  generalize hmid : adoptReloaded (noteStore s outcome) outcome = mid
  have hlooked := looked_adoptReloaded outcome hsaved
  rw [hmid] at hlooked
  have htokens := tokens_adoptReloaded s outcome mid hmid.symm
  have hcalls : ∀ p, (mid.move i p).calls = (s.move i p).calls := by
    intro p
    rw [State.move, State.move, hlooked.calls]
  have hends : ∀ r, Turn s (mid.move i (.refreshed force r)) (.reload i outcome) := by
    intro r
    obtain ⟨hbase, hnext⟩ := h.goOn (i := i) (p := .refreshed force r) (t := mid.move i (.refreshed force r))
      (hcalls _) hlooked.slot hlooked.begun hlead rfl (fun _ => hlooked.unsaved) (Or.inr (Or.inl hlooked.unsaved))
    exact ⟨hbase, .asked ⟨force, hi⟩ hsaved hplace htokens (Or.inl ⟨hnext, rfl⟩)⟩
  rw [ProfileTokens.refreshFrom]
  split
  · exact hends _
  · split
    · exact hends _
    · rename_i token hsent
      obtain ⟨hbase, hnext⟩ := h.goOn (i := i) (p := .posting force token)
        (t := { mid.move i (.posting force token) with
          asked := mid.ledger.marks, log := .posted token :: mid.log })
        (hcalls _) hlooked.slot hlooked.begun hlead rfl (fun _ => hlooked.unsaved) (Or.inr (Or.inl hlooked.unsaved))
      exact ⟨hbase, .asked ⟨force, hi⟩ hsaved hplace htokens (Or.inr ⟨token, hnext, hsent, rfl⟩)⟩

theorem Base.turn_reloaded {pack : Pack} {s s' : State} {i : ℕ} {outcome : Reloaded} (h : Base s)
    (hstep : reloaded pack s i outcome = some s') : Turn s s' (.reload i outcome) := by
  have hclean := h.clean i
  rw [reloaded] at hstep
  split at hstep
  case h_1 force hi =>
    cases hstep
    rw [hi] at hclean
    have hlead : (s.calls i).leads := by rw [hi]; rfl
    have hplace := h.place_leader hlead
    rw [hi] at hplace
    rcases outcome with text | _ | store
    · exact h.walk hlead rfl (fun _ => hclean rfl) (by simp [hi, Phase.place])
    · exact h.walk hlead rfl (fun _ => hclean rfl) (by simp [hi, Phase.place])
    · obtain ⟨hbase, hnext⟩ := h.goOn (i := i) (p := .copilotAdopting force store)
        (t := (noteStore s (.ok (some store))).move i (.copilotAdopting force store)) rfl rfl rfl hlead rfl
        (fun _ => hclean rfl) (Or.inl rfl)
      exact ⟨hbase, .looked rfl rfl ⟨hplace, hnext⟩⟩
  case h_2 force hi =>
    cases hstep
    exact h.refreshFrom hi
  case h_3 force error hi =>
    cases hstep
    rw [hi] at hclean
    have hlead : (s.calls i).leads := by rw [hi]; rfl
    have hplace := h.place_leader hlead
    rw [hi] at hplace
    rcases outcome with text | _ | store
    · exact h.walk hlead rfl (by simp [Phase.clean]) (by simp [hi, Phase.place, Place.bare])
    · exact h.walk hlead rfl (by simp [Phase.clean]) (by simp [hi, Phase.place, Place.bare])
    · obtain ⟨hbase, hnext⟩ := h.goOn (i := i) (p := .adopting force error store)
        (t := (noteStore s (.ok (some store))).move i (.adopting force error store)) rfl rfl rfl hlead rfl
        (fun _ => hclean rfl) (Or.inl rfl)
      exact ⟨hbase, .looked rfl rfl ⟨hplace, hnext⟩⟩
  case h_4 => cases hstep

theorem Base.turn_answered {s s' : State} {i : ℕ} {outcome : Posted} (h : Base s)
    (hstep : answerCall s i outcome = some s') : Turn s s' (.answer i outcome) := by
  rw [answerCall] at hstep
  split at hstep
  · rename_i force token hi
    cases hstep
    have hlead : (s.calls i).leads := by rw [hi]; rfl
    have hsaved : s.cached.unsaved = none := h.clean i (by rw [hi]; rfl)
    have hplace := h.place_leader hlead
    rw [hi] at hplace
    cases outcome with
    | accepted response =>
      rw [answered]
      split
      · exact h.walk hlead rfl (by simp [Phase.clean]) (by simp [hi, Phase.place, Place.bare])
      · obtain ⟨hbase, hnext⟩ := h.goOn (i := i) (p := .writing force response)
          (t := { s.move i (.writing force response) with
            ledger := s.ledger.deliver response.access, served := max s.served s.asked,
            log := .accepted token :: s.log }) rfl rfl rfl hlead rfl (fun _ => hsaved) (Or.inl rfl)
        exact ⟨hbase, .accepted rfl rfl hsaved ⟨force, hi⟩ ⟨hplace, hnext⟩⟩
    | rejected rotation text =>
      cases rotation with
      | true => exact h.walk hlead rfl (fun _ => hsaved) (by simp [hi, Phase.place, Place.bare])
      | false => exact h.walk hlead rfl (by simp [Phase.clean]) (by simp [hi, Phase.place, Place.bare])
    | transport text =>
      cases force with
      | true => exact h.walk hlead rfl (by simp [Phase.clean]) (by simp [hi, Phase.place, Place.bare])
      | false => exact h.walk hlead rfl (fun _ => hsaved) (by simp [hi, Phase.place, Place.bare])
    | failed text => exact h.walk hlead rfl (by simp [Phase.clean]) (by simp [hi, Phase.place, Place.bare])
  · cases hstep

theorem Base.turn_locked {pack : Pack} {s s' : State} {i : ℕ} {error : Option String} (h : Base s)
    (hstep : lockAnswered pack s i error = some s') : Turn s s' (.lock i error) := by
  have hclean := h.clean i
  unfold lockAnswered at hstep
  split at hstep
  case h_1 force hi =>
    cases hstep
    rw [hi] at hclean
    have hlead : (s.calls i).leads := by rw [hi]; rfl
    have hplace := h.place_leader hlead
    rw [hi] at hplace
    obtain ⟨hbase, hnext⟩ := h.goOn (i := i) (p := .locked force) (t := s.move i (.locked force)) rfl rfl rfl
      hlead rfl (fun _ => hclean rfl) (Or.inl rfl)
    exact ⟨hbase, .lock rfl rfl ⟨hplace, hnext⟩⟩
  case h_2 force text hi =>
    cases hstep
    rw [hi] at hclean
    exact h.walk (by rw [hi]; rfl) rfl (fun _ => hclean rfl) (by simp [hi, Phase.place])
  case h_3 hi =>
    cases hstep
    have hlead : (s.calls i).leads := by rw [hi]; rfl
    have hplace := h.place_leader hlead
    rw [hi] at hplace
    obtain ⟨hbase, hnext⟩ := h.goOn (i := i) (p := .persistReading) (t := s.move i .persistReading) rfl rfl rfl
      hlead rfl (by simp [Phase.clean]) (Or.inl rfl)
    exact ⟨hbase, .lock rfl rfl ⟨hplace, hnext⟩⟩
  case h_4 text hi =>
    cases hstep
    exact h.walk (by rw [hi]; rfl) rfl (by simp [Phase.clean]) (by simp [hi, Phase.place])
  case h_5 => cases hstep

theorem Base.turn_saved {pack : Pack} {s s' : State} {i : ℕ} {error : Option AuthError} (h : Base s)
    (hstep : saveAnswered pack s i error = some s') : Turn s s' (.save i error) := by
  unfold saveAnswered at hstep
  split at hstep
  case h_1 force access refresh expiresIn hi =>
    cases hstep
    have hlead : (s.calls i).leads := by rw [hi]; rfl
    have hplace := h.place_leader hlead
    rw [hi] at hplace
    obtain ⟨hbase, hnext⟩ := h.goOn (i := i) (p := .clearing force access expiresIn)
      (t := (s.move i (.clearing force access expiresIn)).note .saved) rfl rfl rfl
      hlead rfl (by simp [Phase.clean]) (Or.inl rfl)
    exact ⟨hbase, .saved rfl rfl ⟨hplace, hnext⟩⟩
  case h_2 force access refresh expiresIn e hi =>
    cases hstep
    have hlead : (s.calls i).leads := by rw [hi]; rfl
    have hplace := h.place_leader hlead
    rw [hi] at hplace
    obtain ⟨hbase, hnext⟩ := h.goOn (i := i) (p := .refreshed force (.error (staleSaveError pack e)))
      (t := s.move i (.refreshed force (.error (staleSaveError pack e)))) rfl rfl rfl
      hlead rfl (by simp [Phase.clean]) (Or.inl rfl)
    exact ⟨hbase, .unsaved rfl rfl ⟨hplace, hnext⟩⟩
  case h_3 => cases hstep

theorem Base.turn_dropped {s s' : State} {i : ℕ} (h : Base s) (hstep : dropCall s i = some s') :
    Turn s s' (.drop i) := by
  rw [dropCall] at hstep
  split at hstep
  case h_1 hi =>
    cases hstep
    exact h.pass (by rw [hi]; rfl) rfl (by simp [Phase.clean])
  case h_2 hi =>
    cases hstep
    exact h.pass (by rw [hi]; rfl) rfl (by simp [Phase.clean])
  case h_3 =>
    split at hstep
    · rename_i hawaits
      cases hstep
      have hlead : (s.calls i).leads := by
        generalize s.calls i = p at hawaits
        cases p <;> simp_all [Phase.leads, Phase.awaits]
      obtain ⟨hbase, hplace⟩ := h.release (p := .aborting) hlead rfl rfl
      exact ⟨hbase, .abandon rfl rfl ⟨h.place_leader hlead, hplace⟩⟩
    · cases hstep

theorem Base.turn_claimed {s : State} (h : Base s) {i : ℕ} {a : Action} (hi : s.calls i = .claiming) :
    Turn s (claim s i) a := by
  rw [claim]
  split
  · exact h.pass (by rw [hi]; rfl) rfl (by simp [Phase.clean])
  · rename_i hslot
    have hquiet : ∀ k, (s.calls k).leads = false := by
      intro k
      have := h.slot k
      grind
    refine ⟨⟨?_, ?_, ?_⟩, .rest rfl rfl (Or.inl ?_)⟩
    · intro k
      have := hquiet k
      grind [Phase.leads, Phase.awaits]
    · intro k
      have := h.fresh k
      grind [State.move]
    · intro k
      have := h.clean k
      grind [State.move, Phase.clean]
    · simp [State.place, hslot, Phase.place]

theorem Base.turn_copilot {s : State} (h : Base s) {i : ℕ} {force : Bool} {store : StoreTokens} {a : Action}
    (hi : s.calls i = .copilotAdopting force store) :
    Turn s (ProfileTokens.adoptOr (confirm s store) i force store (.ok s.cached.access)) a := by
  have hlead : (s.calls i).leads := by rw [hi]; rfl
  have hsaved : s.cached.unsaved = none := h.clean i (by rw [hi]; rfl)
  by_cases hsame : store.access = s.cached.access
  · have hnone : adoptFromStore s.cached store = none := by simp [adoptFromStore, hsame]
    have hcached : (confirm s store).cached = s.cached := by rw [confirm, if_pos hsame]
    rw [ProfileTokens.adoptOr, hcached, hnone, confirm, if_pos hsame]
    obtain ⟨hbase, hnext⟩ := h.goOn (i := i) (p := .refreshed force (.ok s.cached.access))
      (t := State.move { s with served := max s.served s.asked } i (.refreshed force (.ok s.cached.access)))
      rfl rfl rfl hlead rfl (fun _ => hsaved) (Or.inl rfl)
    refine ⟨hbase, .rest rfl rfl (Or.inr ⟨?_, Or.inl hnext⟩)⟩
    rw [h.place_leader hlead, hi]
    rfl
  · rw [confirm, if_neg hsame]
    exact h.adoptOr hlead (by rw [hi]; rfl) hsaved

theorem Base.run_reading {pack : Pack} {s s' : State} {i : ℕ} (h : Base s)
    (hi : s.calls i = .reading)
    (hstep : ProfileTokens.runCall pack s i = some s') : Turn s s' (.run i) := by
  rw [ProfileTokens.runCall, hi] at hstep
  cases hstep
  split
  · exact h.pass (by rw [hi]; rfl) rfl (by simp [Phase.clean])
  · rename_i hpending
    have hsaved : s.cached.unsaved = none := by simpa using hpending
    split
    · rename_i hskip
      split
      · exact h.pass (by rw [hi]; rfl) rfl (by simp [Phase.clean])
      · exact h.answer (by rw [hi]; rfl) hsaved (Or.inr ⟨i, rfl, hi, hskip⟩)
    · exact h.pass (by rw [hi]; rfl) rfl fun _ => hsaved

theorem Base.run_fresh {pack : Pack} {s s' : State} {i : ℕ} (h : Base s)
    (hi : s.calls i = .fresh)
    (hstep : ProfileTokens.runCall pack s i = some s') : Turn s s' (.run i) := by
  rw [ProfileTokens.runCall, hi] at hstep
  have hclean := h.clean i
  cases hstep
  rw [hi] at hclean
  split
  · exact h.pass (by rw [hi]; rfl) rfl (by simp [Phase.clean])
  · rename_i hslot
    refine h.answer (by rw [hi]; rfl) (hclean rfl) (Or.inl ?_)
    have hnone : s.slot = none := by simpa using hslot
    rw [State.place, hnone, Option.elim_none]

theorem Base.run_leading {pack : Pack} {s s' : State} {i : ℕ} (h : Base s)
    (hi : s.calls i = .leading)
    (hstep : ProfileTokens.runCall pack s i = some s') : Turn s s' (.run i) := by
  rw [ProfileTokens.runCall, hi] at hstep
  obtain rfl := of_whenReadable hstep
  split
  · exact h.walk (by rw [hi]; rfl) rfl (by simp [Phase.clean]) (by simp [hi, Phase.place])
  · rename_i hpending
    exact h.walk (by rw [hi]; rfl) rfl (fun _ => by simpa using hpending) (by simp [hi, Phase.place])

theorem Base.run_swapping {pack : Pack} {s s' : State} {i : ℕ} (h : Base s)
    (hi : s.calls i = .swapping)
    (hstep : ProfileTokens.runCall pack s i = some s') : Turn s s' (.run i) := by
  rw [ProfileTokens.runCall, hi] at hstep
  have hclean := h.clean i
  cases hstep
  rw [hi] at hclean
  have hlead : (s.calls i).leads := by rw [hi]; rfl
  obtain ⟨hbase, hnext⟩ := h.goOn (i := i) (p := .locking s.forceRefresh)
    (t := { s.move i (.locking s.forceRefresh) with forceRefresh := false }) rfl rfl rfl hlead rfl
    (fun _ => hclean rfl) (Or.inl rfl)
  refine ⟨hbase, .rest rfl rfl (Or.inl ?_)⟩
  rw [hnext, h.place_leader hlead, hi]
  rfl

theorem Base.run_locked {pack : Pack} {s s' : State} {i : ℕ} {force : Bool} (h : Base s)
    (hi : s.calls i = .locked force)
    (hstep : ProfileTokens.runCall pack s i = some s') : Turn s s' (.run i) := by
  rw [ProfileTokens.runCall, hi] at hstep
  have hclean := h.clean i
  cases hstep
  rw [hi] at hclean
  split
  · exact h.walk (by rw [hi]; rfl) rfl (fun _ => hclean rfl) (by simp [hi, Phase.place])
  · exact h.walk (by rw [hi]; rfl) rfl (fun _ => hclean rfl) (by simp [hi, Phase.place])

theorem Base.run_entering {pack : Pack} {s s' : State} {i : ℕ} {force : Bool} (h : Base s)
    (hi : s.calls i = .entering force)
    (hstep : ProfileTokens.runCall pack s i = some s') : Turn s s' (.run i) := by
  rw [ProfileTokens.runCall, hi] at hstep
  have hclean := h.clean i
  obtain rfl := of_whenWritable hstep
  rw [hi] at hclean
  have hlead : (s.calls i).leads := by rw [hi]; rfl
  split
  · exact h.walk hlead rfl (by simp [Phase.clean]) (by simp [hi, Phase.place, Place.bare])
  · split
    · exact h.walk hlead rfl (fun _ => hclean rfl) (by simp [hi, Phase.place, Place.bare])
    · exact h.walk hlead rfl (fun _ => hclean rfl) (by simp [hi, Phase.place])

theorem Base.run_writing {pack : Pack} {s s' : State} {i : ℕ} {force : Bool} {response : TokenResponse}
    (h : Base s)
    (hi : s.calls i = .writing force response)
    (hstep : ProfileTokens.runCall pack s i = some s') : Turn s s' (.run i) := by
  rw [ProfileTokens.runCall, hi] at hstep
  obtain rfl := of_whenWritable hstep
  have hlead : (s.calls i).leads := by rw [hi]; rfl
  have hplace := h.place_leader hlead
  rw [hi] at hplace
  obtain ⟨hbase, hnext⟩ := h.goOn (t := ProfileTokens.write s i force response) rfl rfl rfl hlead rfl
    (by simp [Phase.clean]) (Or.inr (Or.inr (writable_reads hstep)))
  exact ⟨hbase, .written rfl rfl ⟨hplace, hnext⟩⟩

theorem Base.run_clearing {pack : Pack} {s s' : State} {i : ℕ} {force : Bool} {access : String} {expiresIn : ℕ}
    (h : Base s)
    (hi : s.calls i = .clearing force access expiresIn)
    (hstep : ProfileTokens.runCall pack s i = some s') : Turn s s' (.run i) := by
  rw [ProfileTokens.runCall, hi] at hstep
  obtain rfl := of_whenWritable hstep
  have hlead : (s.calls i).leads := by rw [hi]; rfl
  have hplace := h.place_leader hlead
  rw [hi] at hplace
  rw [ProfileTokens.clear]
  generalize hunsaved : (if s.cached.access = access ∧ s.cached.unsaved = some expiresIn then none
    else s.cached.unsaved) = unsaved
  obtain ⟨hbase, hnext⟩ := h.goOn (i := i)
    (p := .refreshed force (if unsaved.isSome then .error (pendingSave pack) else .ok access))
    (t := { s.move i (.refreshed force (if unsaved.isSome then .error (pendingSave pack) else .ok access)) with
      cached := { s.cached with unsaved := unsaved } }) rfl rfl rfl hlead rfl
    (by cases unsaved <;> simp [Phase.clean]) (by rw [← hunsaved]; split <;> simp)
  exact ⟨hbase, .cleared rfl ⟨rfl, rfl⟩ hunsaved.symm ⟨hplace, hnext⟩⟩

theorem Base.run_persistReading {pack : Pack} {s s' : State} {i : ℕ} (h : Base s)
    (hi : s.calls i = .persistReading)
    (hstep : ProfileTokens.runCall pack s i = some s') : Turn s s' (.run i) := by
  rw [ProfileTokens.runCall, hi] at hstep
  obtain rfl := of_whenReadable hstep
  have hlead : (s.calls i).leads := by rw [hi]; rfl
  have hplace := h.place_leader hlead
  rw [hi] at hplace
  split
  · rename_i hunsaved
    exact h.walk hlead rfl (fun _ => hunsaved) (by simp [hi, Phase.place, Place.bare])
  · rename_i expiresIn hunsaved
    obtain ⟨hbase, hnext⟩ := h.goOn (i := i) (p := .saving false s.cached.access s.cached.refresh expiresIn)
      (t := s.move i (.saving false s.cached.access s.cached.refresh expiresIn)) rfl rfl rfl hlead rfl
      (by simp [Phase.clean]) (Or.inl rfl)
    exact ⟨hbase, .retried rfl rfl hunsaved ⟨hplace, hnext⟩⟩

theorem Base.run_refreshed {pack : Pack} {s s' : State} {i : ℕ} {force : Bool} {r : Refreshed} (h : Base s)
    (hi : s.calls i = .refreshed force r)
    (hstep : ProfileTokens.runCall pack s i = some s') : Turn s s' (.run i) := by
  rw [ProfileTokens.runCall, hi] at hstep
  have hclean := h.clean i
  cases hstep
  rw [hi] at hclean
  have hlead : (s.calls i).leads := by rw [hi]; rfl
  have hplace := h.place_leader hlead
  rw [hi] at hplace
  cases r with
  | error e =>
    obtain ⟨hbase, hnext⟩ := h.goOn (i := i) (p := .completing (.error e))
      (t := { s.move i (.completing (.error e)) with
        forceRefresh := s.forceRefresh || rearms force (.error e) }) rfl rfl rfl hlead rfl
      (by simp [Phase.clean]) (Or.inl rfl)
    exact ⟨hbase, .rest rfl rfl (Or.inl (hnext.trans hplace.symm))⟩
  | ok token =>
    obtain ⟨hbase, hnext⟩ := h.goOn (i := i) (p := .completing (.ok token))
      (t := { s.move i (.completing (.ok token)) with
        forceRefresh := s.forceRefresh || rearms force (.ok token), log := .returned :: s.log })
      rfl rfl rfl hlead rfl (by simp [Phase.clean]) (Or.inl rfl)
    exact ⟨hbase, .returned rfl rfl (hnext.trans hplace.symm) (hclean rfl) (Or.inl hplace)⟩

theorem Base.run_completing {pack : Pack} {s s' : State} {i : ℕ} {r : Refreshed} (h : Base s)
    (hi : s.calls i = .completing r)
    (hstep : ProfileTokens.runCall pack s i = some s') : Turn s s' (.run i) := by
  rw [ProfileTokens.runCall, hi] at hstep
  cases hstep
  have hlead : (s.calls i).leads := by rw [hi]; rfl
  have hplace := h.place_leader hlead
  rw [hi] at hplace
  obtain ⟨hbase, hnext⟩ := h.release (p := .publishing r) hlead rfl rfl
  exact ⟨hbase, .rest rfl rfl (Or.inl (hnext.trans hplace.symm))⟩

theorem Base.run_publishing {pack : Pack} {s s' : State} {i : ℕ} {r : Refreshed} (h : Base s)
    (hi : s.calls i = .publishing r)
    (hstep : ProfileTokens.runCall pack s i = some s') : Turn s s' (.run i) := by
  rw [ProfileTokens.runCall, hi] at hstep
  cases hstep
  obtain ⟨hbase, hnext⟩ := h.quiet (i := i) (p := .done r)
    (t := { s.move i (.done r) with results := Function.update s.results i (some r) }) rfl rfl rfl rfl
    (by simp [hi]) (by rw [hi]; rfl) rfl (by simp [Phase.clean])
  exact ⟨hbase, .rest rfl rfl (Or.inl hnext)⟩

theorem Base.run_aborting {pack : Pack} {s s' : State} {i : ℕ} (h : Base s)
    (hi : s.calls i = .aborting)
    (hstep : ProfileTokens.runCall pack s i = some s') : Turn s s' (.run i) := by
  rw [ProfileTokens.runCall, hi] at hstep
  cases hstep
  obtain ⟨hbase, hnext⟩ := h.quiet (i := i) (p := .dropped)
    (t := { s.move i .dropped with
      results := Function.update s.results i (some (.error (.other "token refresh aborted"))) }) rfl rfl rfl rfl
    (by simp [hi]) (by rw [hi]; rfl) rfl (by simp [Phase.clean])
  exact ⟨hbase, .rest rfl rfl (Or.inl hnext)⟩

theorem Base.turn_run {pack : Pack} {s s' : State} {i : ℕ} (h : Base s)
    (hstep : runCall pack s i = some s') : Turn s s' (.run i) := by
  have hnext := hstep
  rw [ProfileTokens.runCall] at hnext
  split at hnext
  case h_1 hi =>
    obtain rfl := of_whenReadable hnext
    exact h.pass (by rw [hi]; rfl) rfl (by simp [Phase.clean])
  case h_2 hi => exact h.run_reading hi hstep
  case h_3 hi =>
    have hclean := h.clean i
    cases hnext
    rw [hi] at hclean
    exact h.pass (by rw [hi]; rfl) (by split <;> rfl) fun _ => hclean rfl
  case h_4 hi =>
    have hclean := h.clean i
    cases hnext
    rw [hi] at hclean
    exact h.pass (by rw [hi]; rfl) (by split <;> rfl) fun _ => hclean rfl
  case h_5 hi => exact h.run_fresh hi hstep
  case h_6 hi =>
    cases hnext
    exact h.turn_claimed hi
  case h_7 j hi =>
    obtain ⟨r, -, hmove⟩ := Option.map_eq_some_iff.mp hnext
    cases hmove
    exact h.pass (by rw [hi]; rfl) rfl (by simp [Phase.clean])
  case h_8 hi => exact h.run_leading hi hstep
  case h_9 hi => exact h.run_swapping hi hstep
  case h_10 force error hi =>
    have hclean := h.clean i
    obtain rfl := of_whenReadable hnext
    rw [hi] at hclean
    exact h.walk (by rw [hi]; rfl) rfl (fun _ => hclean rfl) (by simp [hi, Phase.place])
  case h_11 force hi => exact h.run_locked hi hstep
  case h_12 force store hi =>
    obtain rfl := of_whenWritable hnext
    exact h.turn_copilot hi
  case h_13 force error hi =>
    have hclean := h.clean i
    obtain rfl := of_whenReadable hnext
    rw [hi] at hclean
    exact h.walk (by rw [hi]; rfl) rfl (fun _ => hclean rfl) (by simp [hi, Phase.place, Place.bare])
  case h_14 force hi => exact h.run_entering hi hstep
  case h_15 error hi =>
    have hclean := h.clean i
    obtain rfl := of_whenReadable hnext
    rw [hi] at hclean
    exact h.walk (by rw [hi]; rfl) rfl (fun _ => hclean rfl) (by simp [hi, Phase.place, Place.bare])
  case h_16 force error store hi =>
    have hclean := h.clean i
    obtain rfl := of_whenWritable hnext
    rw [hi] at hclean
    exact h.adoptOr (by rw [hi]; rfl) (by rw [hi]; rfl) (hclean rfl)
  case h_17 force response hi => exact h.run_writing hi hstep
  case h_18 force access expiresIn hi => exact h.run_clearing hi hstep
  case h_19 hi => exact h.run_persistReading hi hstep
  case h_20 force r hi => exact h.run_refreshed hi hstep
  case h_21 r hi => exact h.run_completing hi hstep
  case h_22 r hi => exact h.run_publishing hi hstep
  case h_23 hi => exact h.run_aborting hi hstep
  case h_24 => cases hnext

/-- What each step does to the place of the leader, the cached tokens and the log. -/
theorem Base.turn {pack : Pack} {s s' : State} {a : Action} (h : Base s) (hstep : step pack s a = some s') :
    Turn s s' a := by
  cases a with
  | markStale =>
    cases hstep
    exact ⟨⟨h.slot, h.fresh, h.clean⟩, .rest rfl rfl (Or.inl rfl)⟩
  | withoutHttpRefresh =>
    cases hstep
    exact ⟨⟨h.slot, h.fresh, h.clean⟩, .rest rfl rfl (Or.inl rfl)⟩
  | age =>
    cases hstep
    exact ⟨⟨h.slot, h.fresh, h.clean⟩, .rest rfl rfl (Or.inl rfl)⟩
  | begin =>
    cases hstep
    have hidle := h.fresh s.begun (Nat.le_refl _)
    have hcalls : ∀ k, (beginCall s).calls k = if k = s.begun then .called else s.calls k :=
      fun k => Function.update_apply ..
    refine ⟨⟨?_, ?_, ?_⟩, .rest rfl rfl (Or.inl ?_)⟩
    · intro k
      have := h.slot k
      have := h.slot s.begun
      grind [beginCall, Phase.leads, Phase.awaits]
    · intro k hk
      have := h.fresh k
      grind [beginCall]
    · intro k hk
      have := h.clean k
      grind [beginCall, Phase.clean]
    · rw [State.place, State.place, show (beginCall s).slot = s.slot from rfl]
      cases hs : s.slot with
      | none => rfl
      | some j =>
        have := (h.slot j).mpr hs
        simp only [Option.elim_some, hcalls]
        grind [Phase.leads, Phase.awaits]
  | run i => exact h.turn_run hstep
  | lock i error => exact h.turn_locked hstep
  | reload i outcome => exact h.turn_reloaded hstep
  | answer i outcome => exact h.turn_answered hstep
  | save i error => exact h.turn_saved hstep
  | drop i => exact h.turn_dropped hstep

end Wiremux.ProfileTokens
