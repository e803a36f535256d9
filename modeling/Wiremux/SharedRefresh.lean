import Wiremux.SharedStore

set_option autoImplicit false

/-!
# A refresh token is used once

The steps of one provider among those that share the store: most leave the entry and
the accepted tokens as they are, an accepted POST uses the entry's refresh token up,
and the save that follows puts a new one there before the lock is given again.
-/
namespace Wiremux.ProfileTokens
open JsonValue

variable {pack : Pack} {S : Shared} {p : ℕ} {a : Action} {s' : State}

theorem acceptedTokens_append (front back : List Event) :
    acceptedTokens (front ++ back) = acceptedTokens front ++ acceptedTokens back :=
  List.filterMap_append

theorem log_put {l : List Event} (h : s'.log = l ++ (S.providers p).log) :
    (S.put p a s').log = l ++ S.log := by
  rw [Shared.put, h, newEvents_append]

theorem providers_put (q : ℕ) :
    (S.put p a s').providers q = if q = p then s' else S.providers q :=
  Function.update_apply ..

theorem PlaceFact.congr {S' : Shared} {place : Place} (h : PlaceFact S place)
    (hentry : S'.access = S.access ∧ S'.refresh = S.refresh)
    (haccepted : acceptedTokens S'.log = acceptedTokens S.log) : PlaceFact S' place := by
  cases place <;> simp_all [PlaceFact]

theorem Member.congr {S' : Shared} {s : State} (h : Member S s)
    (hentry : S'.access = S.access ∧ S'.refresh = S.refresh)
    (haccepted : acceptedTokens S'.log = acceptedTokens S.log) : Member S' s where
  kept := h.kept
  fact := h.fact.congr hentry haccepted
  agree := by
    rw [hentry.1, hentry.2]
    exact h.agree
  saved := h.saved

/-- A provider whose leader has no lock fits any entry that it does not share a token with. -/
theorem Member.of_out {S' : Shared} {s : State} (h : Member S s) (hout : s.place.holds = false)
    (hagree : s.cached.access = S'.access → sentOf s.cached.refresh = sentOf S'.refresh) : Member S' s where
  kept := h.kept
  fact := by
    cases hplace : s.place with
    | out => trivial
    | _ => simp [hplace, Place.holds] at hout
  agree _ := hagree
  saved := h.saved

theorem Sound.local (h : Sound S) (hentry : entryAfter S p a = (S.access, S.refresh))
    (haccepted : acceptedTokens (S.put p a s').log = acceptedTokens S.log) (hmember : Member S s')
    (hholds : s'.place.holds → (S.providers p).place.holds ∨
      ∀ q < S.count, q ≠ p → (S.providers q).place.holds = false)
    (hp : p < S.count)
    (hunused : s'.place.busy = false → (S.providers p).place.busy = false) : Sound (S.put p a s') where
  member q hq := by
    have hsame : (S.put p a s').access = S.access ∧ (S.put p a s').refresh = S.refresh := by
      simp [Shared.put, hentry]
    rw [providers_put]
    split
    · exact hmember.congr hsame haccepted
    · exact (h.member q hq).congr hsame haccepted
  one q hq r hr hqh hrh := by
    rw [providers_put] at hqh hrh
    have hq' : q < S.count := hq
    have hr' : r < S.count := hr
    have := h.one q hq r hr
    have := h.one p hp
    have := h.one q hq p hp
    grind
  unused hquiet := by
    have hbefore : ∀ q < S.count, (S.providers q).place.busy = false := by
      intro q hq
      have := hquiet q hq
      rw [providers_put] at this
      split at this
      · rename_i hqp
        subst hqp
        exact hunused this
      · exact this
    have := h.unused hbefore
    rw [Unused, haccepted]
    simpa [Shared.put, hentry, Unused] using this
  nodup := haccepted ▸ h.nodup

theorem accepted_of_quiet {l : List Event} (h : s'.log = l ++ (S.providers p).log)
    (hnew : acceptedTokens l = []) : acceptedTokens (S.put p a s').log = acceptedTokens S.log := by
  rw [log_put h, acceptedTokens_append, hnew, List.nil_append]

theorem Sound.alone (h : Sound S) (hp : p < S.count) (hholds : (S.providers p).place.holds) {q : ℕ}
    (hq : q < S.count) (hqp : q ≠ p) : (S.providers q).place.holds = false := by
  have := h.one q hq p hp
  grind

/-- While a leader has the lock and nothing to save, the entry's refresh token is unused. -/
theorem Sound.unused_of_bare (h : Sound S) (hp : p < S.count) (hbare : (S.providers p).place.bare) :
    Unused S S.refresh := by
  have hholds : (S.providers p).place.holds ∧ (S.providers p).place.busy = false := by
    generalize (S.providers p).place = place at hbare
    cases place <;> simp_all [Place.bare, Place.holds, Place.busy]
  refine h.unused fun q hq => ?_
  by_cases hqp : q = p
  · exact hqp ▸ hholds.2
  · have := h.alone hp hholds.1 hq hqp
    generalize (S.providers q).place = place at this
    cases place <;> simp_all [Place.holds, Place.busy]

theorem Sound.accept (h : Sound S) (hp : p < S.count) {token fresh : String} {response : TokenResponse}
    (hkept : Kept s') (hcore : core s'.cached = core (S.providers p).cached)
    (hlog : s'.log = .accepted token :: (S.providers p).log)
    (hplace : (S.providers p).place = .posting token ∧ s'.place = .writing response)
    (hentry : entryAfter S p a = (S.access, S.refresh)) (hresponse : response.refresh = some fresh)
    (hunused : trim fresh ∉ acceptedTokens S.log) (hsent : trim fresh ≠ token)
    (hunsaved : (S.providers p).cached.unsaved = none) : Sound (S.put p a s') := by
  have hlogs : acceptedTokens (S.put p a s').log = token :: acceptedTokens S.log := by
    rw [log_put (l := [.accepted token]) hlog, acceptedTokens_append]
    rfl
  have hsame : (S.put p a s').access = S.access ∧ (S.put p a s').refresh = S.refresh := by
    simp [Shared.put, hentry]
  have hmember := h.member p hp
  have hholds : (S.providers p).place.holds := by rw [hplace.1]; rfl
  have hfact := hmember.fact
  rw [hplace.1] at hfact
  constructor
  · intro q hq
    rw [providers_put]
    split
    · refine ⟨hkept, ?_, fun _ haccess => ?_, fun hsome => ?_⟩
      · rw [hplace.2]
        refine ⟨fresh, hresponse, ?_⟩
        rw [hlogs]
        exact List.not_mem_cons_of_ne_of_not_mem hsent hunused
      · rw [access_of_core hcore, hsame.1] at haccess
        rw [refresh_of_core hcore, hsame.2]
        exact hmember.agree (by simp [hplace.1]) haccess
      · rw [unsaved_of_core hcore, hunsaved] at hsome
        cases hsome
    · rename_i hqp
      have hout := h.alone hp hholds hq hqp
      have := h.member q hq
      refine this.of_out hout fun haccess => ?_
      rw [hsame.1] at haccess
      rw [hsame.2]
      refine this.agree ?_ haccess
      intro access refresh expiresIn hsaving
      rw [hsaving] at hout
      cases hout
  · intro q hq r hr hqh hrh
    rw [providers_put] at hqh hrh
    have := fun hq' => h.alone hp hholds (q := q) hq'
    have := fun hr' => h.alone hp hholds (q := r) hr'
    have hq' : q < S.count := hq
    have hr' : r < S.count := hr
    grind
  · intro hquiet
    have := hquiet p hp
    rw [providers_put, if_pos rfl, hplace.2] at this
    cases this
  · rw [hlogs]
    exact List.nodup_cons.mpr ⟨hfact, h.nodup⟩

theorem Sound.save (h : Sound S) (hp : p < S.count) {i : ℕ} {access : String} {refresh : Option String}
    {expiresIn : ℕ} (hkept : Kept s') (hcore : core s'.cached = core (S.providers p).cached)
    (hlog : s'.log = .saved :: (S.providers p).log)
    (hplace : (S.providers p).place = .saving access refresh expiresIn ∧ s'.place = .clearing access expiresIn)
    (hdistinct : ∀ q < S.count, q ≠ p → (S.providers q).cached.access ≠ access) :
    Sound (S.put p (.save i none) s') := by
  have hlogs : acceptedTokens (S.put p (.save i none) s').log = acceptedTokens S.log :=
    accepted_of_quiet (l := [.saved]) hlog rfl
  have hmember := h.member p hp
  have hholds : (S.providers p).place.holds := by rw [hplace.1]; rfl
  have hfact := hmember.fact
  rw [hplace.1] at hfact
  obtain ⟨fresh, rfl, hunused⟩ := hfact
  have hentry : (S.put p (.save i none) s').access = access ∧
      (S.put p (.save i none) s').refresh = some fresh := by
    simp [Shared.put, entryAfter, hplace.1]
  have hcached := hmember.kept.saving _ _ _ hplace.1
  constructor
  · intro q hq
    rw [providers_put]
    split
    · refine ⟨hkept, ?_, fun _ _ => ?_, fun _ => Or.inr ⟨access, expiresIn, hplace.2⟩⟩
      · rw [hplace.2]
        trivial
      · have hrefresh := congrArg (fun t => t.2.1) (hcore.trans hcached)
        rw [hentry.2, show s'.cached.refresh = some fresh from hrefresh]
    · rename_i hqp
      refine (h.member q hq).of_out (h.alone hp hholds hq hqp) fun haccess => ?_
      rw [hentry.1] at haccess
      exact absurd haccess (hdistinct q hq hqp)
  · intro q hq r hr hqh hrh
    rw [providers_put] at hqh hrh
    have := fun hq' => h.alone hp hholds (q := q) hq'
    have := fun hr' => h.alone hp hholds (q := r) hr'
    have hq' : q < S.count := hq
    have hr' : r < S.count := hr
    grind
  · intro _ token htoken
    rw [hentry.2, sentOf, Option.map_some, Option.filter_eq_some_iff] at htoken
    rw [hlogs]
    exact Option.some.inj htoken.1 ▸ hunused
  · rw [hlogs]
    exact h.nodup

theorem refresh_of_adoptFromStore {cached adopted : CachedToken} {store : StoreTokens}
    (h : adoptFromStore cached store = some adopted) : adopted.refresh = store.refresh := by
  rw [adoptFromStore] at h
  split at h
  · cases h
  · cases h
    rfl

theorem saved_of_step {s : State} {i : ℕ} (h : Base s) (hstep : step pack s (.save i none) = some s') :
    ∃ access refresh expiresIn, core s'.cached = core s.cached ∧ s'.log = .saved :: s.log ∧
      s.place = .saving access refresh expiresIn ∧ s'.place = .clearing access expiresIn := by
  change saveAnswered pack s i none = some s' at hstep
  have hturn := h.turn_saved hstep
  unfold saveAnswered at hstep
  split at hstep
  case h_1 force access refresh expiresIn hi _ =>
    have hlead : (s.calls i).leads := by rw [hi]; rfl
    have hslot := (h.slot i).mp hlead
    have hplace := h.place_leader hlead
    rw [hi] at hplace
    cases hstep
    refine ⟨access, refresh, expiresIn, rfl, rfl, hplace, ?_⟩
    rw [State.place, show ((s.move i (.clearing force access expiresIn)).note .saved).slot = s.slot from rfl,
      hslot, Option.elim_some]
    change (((s.move i (.clearing force access expiresIn)).calls i).place) = _
    rw [move_calls, if_pos rfl]
    rfl
  case h_2 _ heq => cases heq
  case h_3 => cases hstep

theorem entryAfter_of_ne (h : ∀ i, a ≠ .save i none) : entryAfter S p a = (S.access, S.refresh) := by
  unfold entryAfter
  split
  · rename_i i
    exact absurd rfl (h i)
  · rfl

/-- A member whose tokens stay as they are, at a place that says no more of them. -/
theorem Member.stay (h : Member S (S.providers p)) (hkept : Kept s')
    (hcore : core s'.cached = core (S.providers p).cached)
    (hplace : s'.place = (S.providers p).place ∨ ((S.providers p).place.bare ∨ (S.providers p).place = .out) ∧
      (s'.place = .out ∨ s'.place = .locked)) : Member S s' where
  kept := hkept
  fact := by
    rcases hplace with hsame | ⟨-, hout | hlocked⟩
    · exact hsame ▸ h.fact
    · rw [hout]
      trivial
    · rw [hlocked]
      trivial
  agree hsaving haccess := by
    rw [refresh_of_core hcore]
    refine h.agree ?_ (access_of_core hcore ▸ haccess)
    grind [Place.bare]
  saved hsome := by
    rw [unsaved_of_core hcore] at hsome
    have := h.saved hsome
    grind [Place.bare]

theorem ok_of_toOption {outcome : Reloaded} (h : outcome.toOption.isSome) : ∃ found, outcome = .ok found := by
  cases outcome with
  | ok found => exact ⟨found, rfl⟩
  | error text => cases h

theorem holds_of_bare {place : Place} (h : place.bare) : place.holds := by
  cases place <;> simp_all [Place.bare, Place.holds]

theorem quiet_of_bare {place : Place} (h : place.bare) : place.busy = false := by
  cases place <;> simp_all [Place.bare, Place.busy]

theorem Sound.rest (h : Sound S) (hp : p < S.count) (hkept : Kept s')
    (hentry : entryAfter S p a = (S.access, S.refresh)) (hcore : core s'.cached = core (S.providers p).cached)
    (hlog : s'.log = (S.providers p).log) (hplace : s'.place = (S.providers p).place ∨
      (S.providers p).place.bare ∧ (s'.place = .out ∨ s'.place = .locked)) : Sound (S.put p a s') := by
  refine h.local hentry (accepted_of_quiet (l := []) hlog rfl) ?_ ?_ hp ?_
  · exact (h.member p hp).stay hkept hcore (hplace.imp_right fun hbare => ⟨Or.inl hbare.1, hbare.2⟩)
  · have := @holds_of_bare (S.providers p).place
    grind
  · have := @quiet_of_bare (S.providers p).place
    grind

theorem Sound.lock (h : Sound S) (hp : p < S.count) (hkept : Kept s')
    (hentry : entryAfter S p a = (S.access, S.refresh)) (hcore : core s'.cached = core (S.providers p).cached)
    (hlog : s'.log = (S.providers p).log) (hplace : (S.providers p).place = .out ∧ s'.place = .locked)
    (hfree : ∀ q < S.count, q ≠ p → (S.providers q).place.holds = false) : Sound (S.put p a s') := by
  refine h.local hentry (accepted_of_quiet (l := []) hlog rfl) ?_ (fun _ => Or.inr hfree) hp ?_
  · exact (h.member p hp).stay hkept hcore (Or.inr ⟨Or.inr hplace.1, Or.inr hplace.2⟩)
  · rw [hplace.1]
    intro _
    rfl

theorem Sound.abandon (h : Sound S) (hp : p < S.count) (hkept : Kept s')
    (hentry : entryAfter S p a = (S.access, S.refresh)) (hcore : core s'.cached = core (S.providers p).cached)
    (hlog : s'.log = (S.providers p).log)
    (hbare : (S.providers p).place.bare ∨ (S.providers p).place = .out) (hplace : s'.place = .out) :
    Sound (S.put p a s') := by
  refine h.local hentry (accepted_of_quiet (l := []) hlog rfl) ?_ ?_ hp ?_
  · exact (h.member p hp).stay hkept hcore (Or.inr ⟨hbare, Or.inl hplace⟩)
  · rw [hplace]
    intro hholds
    cases hholds
  · intro _
    rcases hbare with hbare | hout
    · exact quiet_of_bare hbare
    · rw [hout]
      rfl

theorem Sound.look (h : Sound S) (hp : p < S.count) (hkept : Kept s') {store : StoreTokens}
    (hentry : entryAfter S p a = (S.access, S.refresh)) (hcore : core s'.cached = core (S.providers p).cached)
    (hlog : s'.log = (S.providers p).log)
    (hplace : (S.providers p).place = .locked ∧ s'.place = .adopting store)
    (hstore : store.access = S.access ∧ store.refresh = S.refresh) : Sound (S.put p a s') := by
  have hmember := h.member p hp
  refine h.local hentry (accepted_of_quiet (l := []) hlog rfl) ?_ ?_ hp ?_
  · refine ⟨hkept, ?_, fun _ haccess => ?_, fun hsome => ?_⟩
    · rw [hplace.2]
      exact hstore
    · rw [refresh_of_core hcore]
      exact hmember.agree (by simp [hplace.1]) (access_of_core hcore ▸ haccess)
    · rw [unsaved_of_core hcore] at hsome
      have := hmember.saved hsome
      simp [hplace.1] at this
  · rw [hplace.1]
    intro _
    exact Or.inl rfl
  · rw [hplace.1]
    intro _
    rfl

theorem Sound.adopt (h : Sound S) (hp : p < S.count) (hkept : Kept s') {store : StoreTokens}
    (hentry : entryAfter S p a = (S.access, S.refresh))
    (hcached : adoptFromStore (S.providers p).cached store = some s'.cached)
    (hlog : s'.log = .adopted :: (S.providers p).log)
    (hplace : (S.providers p).place = .adopting store ∧ s'.place = .out) : Sound (S.put p a s') := by
  have hfact := (h.member p hp).fact
  rw [hplace.1] at hfact
  obtain ⟨-, hunsaved⟩ := access_of_adoptFromStore hcached
  refine h.local hentry (accepted_of_quiet (l := [.adopted]) hlog rfl) ?_ ?_ hp ?_
  · refine ⟨hkept, ?_, fun _ _ => ?_, fun hsome => ?_⟩
    · rw [hplace.2]
      trivial
    · rw [refresh_of_adoptFromStore hcached, hfact.2]
    · rw [hunsaved] at hsome
      cases hsome
  · rw [hplace.1]
    intro _
    exact Or.inl rfl
  · rw [hplace.1]
    intro _
    rfl

/-- Before the POST the entry was read: the cached refresh token is now the entry's. -/
theorem Sound.read (h : Sound S) (hp : p < S.count) {outcome : Reloaded} {log : List Event}
    (hplace : (S.providers p).place = .locked) (hsaved : (S.providers p).cached.unsaved = none)
    (hfound : ∃ store : StoreTokens, outcome = .ok (some store) ∧
      store.access = S.access ∧ store.refresh = S.refresh)
    (hcached : core s'.cached = core (S.providers p).cached ∧ log = (S.providers p).log ∧
        (∀ store, outcome = .ok (some store) → adoptFromStore (S.providers p).cached store = none) ∨
      ∃ store, outcome = .ok (some store) ∧ adoptFromStore (S.providers p).cached store = some s'.cached ∧
        log = .adopted :: (S.providers p).log) :
    sentOf s'.cached.refresh = sentOf S.refresh ∧ s'.cached.unsaved = none := by
  obtain ⟨store, rfl, haccess, hrefresh⟩ := hfound
  rcases hcached with ⟨hcore, -, hnone⟩ | ⟨other, hother, hadopted, -⟩
  · have hsame := access_of_adoptFromStore_none (hnone store rfl) hsaved
    rw [refresh_of_core hcore, unsaved_of_core hcore]
    refine ⟨(h.member p hp).agree (by simp [hplace]) ?_, hsaved⟩
    rw [← hsame, haccess]
  · cases hother
    rw [refresh_of_adoptFromStore hadopted, hrefresh]
    exact ⟨rfl, (access_of_adoptFromStore hadopted).2⟩

theorem Sound.ask (h : Sound S) (hp : p < S.count) (hkept : Kept s') {new : List Event}
    (hentry : entryAfter S p a = (S.access, S.refresh)) (hplace : (S.providers p).place = .locked)
    (hread : sentOf s'.cached.refresh = sentOf S.refresh ∧ s'.cached.unsaved = none)
    (hlog : s'.log = new ++ (S.providers p).log) (hquiet : acceptedTokens new = [])
    (hsent : s'.place = .out ∨ ∃ token, s'.place = .posting token ∧ sentRefresh s'.cached = some token) :
    Sound (S.put p a s') := by
  have hbare : (S.providers p).place.bare := by rw [hplace]; rfl
  refine h.local hentry (accepted_of_quiet hlog hquiet) ?_ ?_ hp ?_
  · refine ⟨hkept, ?_, fun _ _ => hread.1, fun hsome => ?_⟩
    · rcases hsent with hout | ⟨token, hposting, hsent⟩
      · rw [hout]
        trivial
      · rw [hposting]
        exact h.unused_of_bare hp hbare token (hread.1 ▸ hsent)
    · rw [hread.2] at hsome
      cases hsome
  · rw [hplace]
    intro _
    exact Or.inl rfl
  · rw [hplace]
    intro _
    rfl

theorem Sound.write (h : Sound S) (hp : p < S.count) (hkept : Kept s') {response : TokenResponse} {expiresIn : ℕ}
    (hentry : entryAfter S p a = (S.access, S.refresh)) (hlog : s'.log = (S.providers p).log)
    (hplace : (S.providers p).place = .writing response ∧ s'.place =
      .saving response.access (response.refresh.or (S.providers p).cached.refresh) expiresIn) :
    Sound (S.put p a s') := by
  have hfact := (h.member p hp).fact
  rw [hplace.1] at hfact
  obtain ⟨fresh, hfresh, hunused⟩ := hfact
  refine h.local hentry (accepted_of_quiet (l := []) hlog rfl) ?_ ?_ hp ?_
  · refine ⟨hkept, ?_, fun hsaving => absurd hplace.2 (hsaving _ _ _), fun _ => Or.inl ⟨_, _, _, hplace.2⟩⟩
    rw [hplace.2]
    exact ⟨fresh, by rw [hfresh]; rfl, hunused⟩
  · rw [hplace.1]
    intro _
    exact Or.inl rfl
  · rw [hplace.2]
    intro hbusy
    cases hbusy

theorem Sound.clear (h : Sound S) (hp : p < S.count) (hkept : Kept s') {access : String} {expiresIn : ℕ}
    (hentry : entryAfter S p a = (S.access, S.refresh)) (hlog : s'.log = (S.providers p).log)
    (haccess : s'.cached.access = (S.providers p).cached.access ∧
      s'.cached.refresh = (S.providers p).cached.refresh)
    (hunsaved : s'.cached.unsaved = if (S.providers p).cached.access = access ∧
      (S.providers p).cached.unsaved = some expiresIn then none else (S.providers p).cached.unsaved)
    (hplace : (S.providers p).place = .clearing access expiresIn ∧ s'.place = .out) :
    Sound (S.put p a s') := by
  have hmember := h.member p hp
  have hcached := hmember.kept.clearing _ _ hplace.1
  have hnone : s'.cached.unsaved = none := by
    rw [hunsaved, if_pos ⟨hcached.1, hcached.2.1⟩]
  refine h.local hentry (accepted_of_quiet (l := []) hlog rfl) ?_ ?_ hp ?_
  · refine ⟨hkept, ?_, fun _ hsame => ?_, fun hsome => ?_⟩
    · rw [hplace.2]
      trivial
    · rw [haccess.2]
      exact hmember.agree (by simp [hplace.1]) (haccess.1 ▸ hsame)
    · rw [hnone] at hsome
      cases hsome
  · rw [hplace.2]
    intro hholds
    cases hholds
  · rw [hplace.1]
    intro _
    rfl

theorem Sound.act (h : Sound S) (hp : p < S.count) (hallowed : allowed S p a = true)
    (hrotating : Rotating S (.act p a)) (hdistinct : Distinct S (.act p a))
    (hstep : step pack (S.providers p) a = some s') : Sound (S.put p a s') := by
  have hmember := h.member p hp
  have hkept := hmember.kept.step hdistinct.1 hstep
  by_cases hsave : ∃ i, a = .save i none
  · obtain ⟨i, rfl⟩ := hsave
    obtain ⟨access, refresh, expiresIn, hcore, hlog, hplace⟩ := saved_of_step hmember.kept.base hstep
    refine h.save hp hkept hcore hlog hplace fun q hq hqp => ?_
    have hother := hdistinct.2 q hq hqp
    simpa only [entryAfter, hplace.1] using hother
  have hentry : entryAfter S p a = (S.access, S.refresh) :=
    entryAfter_of_ne fun i hi => hsave ⟨i, hi⟩
  obtain ⟨-, heffect⟩ := hmember.kept.base.turn hstep
  cases heffect with
  | rest hcore hlog hplace => exact h.rest hp hkept hentry hcore hlog hplace
  | lock hcore hlog hplace =>
    exact h.lock hp hkept hentry hcore hlog hplace (by simpa [allowed] using hallowed)
  | abandon hcore hlog hplace =>
    rename_i i
    have hbare : (S.providers p).place.bare ∨ (S.providers p).place = .out := by
      rw [hplace.1]
      have hdrop : ((S.providers p).calls i).place.holds → ((S.providers p).calls i).place.bare := hdistinct.2
      generalize ((S.providers p).calls i).place = place at hdrop
      cases place <;> simp_all [Place.bare, Place.holds]
    exact h.abandon hp hkept hentry hcore hlog hbare hplace.2
  | returned hcore hlog hplace hsaved hout =>
    refine h.local hentry (accepted_of_quiet (l := [.returned]) hlog rfl) ?_ ?_ hp ?_
    · exact hmember.stay hkept hcore (Or.inl hplace)
    · rw [hplace]
      exact Or.inl
    · rw [hplace]
      exact id
  | looked hcore hlog hplace =>
    exact h.look hp hkept hentry hcore hlog hplace (by simpa [allowed] using hallowed)
  | adopted hcached hlog hplace => exact h.adopt hp hkept hentry hcached hlog hplace
  | asked hreloading hsaved hplace hcached hsent =>
    rename_i i outcome log
    obtain ⟨force, hreloading⟩ := hreloading
    obtain ⟨found, rfl⟩ := ok_of_toOption (hdistinct.2 (by rw [hreloading]; rfl))
    have hfound : ∃ store : StoreTokens, (Except.ok found : Reloaded) = .ok (some store) ∧
        store.access = S.access ∧ store.refresh = S.refresh := by
      cases found with
      | none => cases hallowed
      | some store => exact ⟨store, rfl, by simpa [allowed] using hallowed⟩
    have hread := h.read hp hplace hsaved hfound hcached
    obtain ⟨new, hlog, hquiet⟩ : ∃ new, s'.log = new ++ (S.providers p).log ∧ acceptedTokens new = [] := by
      rcases hcached with ⟨-, rfl, -⟩ | ⟨-, -, -, rfl⟩ <;> rcases hsent with ⟨-, hs⟩ | ⟨token, -, -, hs⟩
      · exact ⟨[], hs, rfl⟩
      · exact ⟨[.posted token], hs, rfl⟩
      · exact ⟨[.adopted], hs, rfl⟩
      · exact ⟨[.posted token, .adopted], hs, rfl⟩
    refine h.ask hp hkept hentry hplace hread hlog hquiet ?_
    rcases hsent with ⟨hreread, -⟩ | ⟨token, hposting, hsent, -⟩
    · exact .inl hreread
    · exact .inr ⟨token, hposting, hsent⟩
  | accepted hcore hlog hsaved hposting hplace =>
    obtain ⟨fresh, hresponse, hunused, hother⟩ := hrotating
    obtain ⟨force, hposting⟩ := hposting
    refine h.accept hp hkept hcore hlog hplace hentry hresponse hunused (fun hsame => ?_) hsaved
    rw [hposting, Phase.sent, hsame] at hother
    exact hother rfl
  | written hlog hcore hplace => exact h.write hp hkept hentry hlog hplace
  | saved => exact absurd ⟨_, rfl⟩ hsave
  | unsaved => cases hrotating
  | cleared hlog haccess hunsaved hplace => exact h.clear hp hkept hentry hlog haccess hunsaved hplace
  | retried hcore hlog hunsaved hplace =>
    have := hmember.saved (by rw [hunsaved]; rfl)
    simp [hplace.1] at this

theorem sentOf_filter (refresh : Option String) :
    sentOf (refresh.filter fun token => !isBlank token) = sentOf refresh := by
  cases refresh with
  | none => rfl
  | some token =>
    rw [Option.filter_some]
    split
    · rfl
    · rename_i hblank
      have hempty : trim token = "" := by simpa [isBlank] using hblank
      rw [sentOf, sentOf, Option.map_some, Option.filter_some, hempty]
      rfl

theorem Sound.load {needsRefresh : Bool} {S' : Shared} (h : Sound S)
    (hS : S' = { S with
      count := S.count + 1
      providers := Function.update S.providers S.count (start (loaded S needsRefresh)) }) : Sound S' := by
  have hproviders : ∀ q, S'.providers q =
      if q = S.count then start (loaded S needsRefresh) else S.providers q := by
    intro q
    rw [hS]
    exact Function.update_apply ..
  have hcount : S'.count = S.count + 1 := by rw [hS]
  have hentry : S'.access = S.access ∧ S'.refresh = S.refresh ∧ S'.log = S.log := by
    rw [hS]
    exact ⟨rfl, rfl, rfl⟩
  have hout : (start (loaded S needsRefresh)).place = .out := rfl
  constructor
  · intro q hq
    rw [hproviders]
    split
    · refine ⟨Kept.start _, ?_, fun _ _ => ?_, fun hsome => ?_⟩
      · rw [hout]
        trivial
      · rw [hentry.2.1]
        exact sentOf_filter S.refresh
      · cases hsome
    · exact (h.member q (by omega)).congr ⟨hentry.1, hentry.2.1⟩ (by rw [hentry.2.2])
  · intro q hq r hr hqh hrh
    rw [hproviders] at hqh hrh
    have := h.one q
    grind [Place.holds]
  · intro hquiet
    have hbefore : ∀ q < S.count, (S.providers q).place.busy = false := by
      intro q hq
      have := hquiet q (by omega)
      rw [hproviders, if_neg (by omega)] at this
      exact this
    have := h.unused hbefore
    rw [Unused, hentry.2.1, hentry.2.2]
    exact this
  · rw [hentry.2.2]
    exact h.nodup

theorem Sound.step {a : SharedAction} {S' : Shared} (h : Sound S) (hrotating : Rotating S a)
    (hdistinct : Distinct S a) (hstep : sharedStep pack S a = some S') : Sound S' := by
  cases a with
  | load needsRefresh =>
    rw [sharedStep] at hstep
    split at hstep
    · cases hstep
    · exact h.load (Option.some.inj hstep).symm
  | act p a =>
    rw [sharedStep] at hstep
    split at hstep
    · rename_i hallowed
      obtain ⟨s', hs, hput⟩ := Option.map_eq_some_iff.mp hstep
      exact hput ▸ h.act hallowed.1 hallowed.2 hrotating hdistinct hs
    · cases hstep

/-- An entry that no provider has loaded yet. -/
def entry (access : String) (refresh : Option String) : Shared := { access := access, refresh := refresh }

theorem Sound.entry (access : String) (refresh : Option String) : Sound (entry access refresh) where
  member _ hp := absurd hp (Nat.not_lt_zero _)
  one _ hp := absurd hp (Nat.not_lt_zero _)
  unused _ _ _ := List.not_mem_nil
  nodup := List.nodup_nil

/-- What a rotated refresh token is promised, of one provider and of all that share a store. -/
structure UsedOnce (S : Shared) : Prop where
  guarded : ∀ p < S.count, Guarded (S.providers p).log
  once : (acceptedTokens S.log).Nodup

theorem Sound.usedOnce (h : Sound S) : UsedOnce S :=
  ⟨fun p hp => (h.member p hp).kept.guarded, h.nodup⟩

/-- One provider in any run, and any number that share a store: between an accepted response
and its save nothing guarded happens, and no refresh token is accepted twice. -/
theorem refresh_used_once (pack : Pack) :
    (∀ cached s, GuardedRuns.Reached (ProfileTokens.step pack) SavesFirst (start cached) s → Guarded s.log) ∧
    ∀ access refresh S, GuardedRuns.Reached (sharedStep pack) (fun S a => Rotating S a ∧ Distinct S a)
      (ProfileTokens.entry access refresh) S → UsedOnce S := by
  refine ⟨fun cached s h => saved_before_use pack cached h, fun access refresh S h => ?_⟩
  have hsound : Sound S := h.keeps (Sound.entry access refresh)
    fun _ _ _ hsound hmeet hstep => hsound.step hmeet.1 hmeet.2 hstep
  exact hsound.usedOnce

/-- A refresh of one provider: what its reload gives, and the response. -/
def refreshOf (p : ℕ) (store : StoreTokens) (response : TokenResponse) : List SharedAction :=
  [.begin, .run 0, .run 0, .run 0, .run 0, .run 0, .run 0, .run 0, .lock 0 none, .run 0, .run 0,
    .reload 0 (.ok (some store)), .answer 0 (.accepted response), .run 0, .save 0 none, .run 0, .run 0].map
      fun a => .act p a

/-- Two providers refresh in turn, and each response has a new access token. -/
def newAccess : List SharedAction :=
  [.load true, .load true] ++
    refreshOf 0 { access := "a", refresh := some "r0", needsRefresh := true, nonempty := by decide }
      { access := "b", refresh := some "r1", expiresIn := none } ++
    refreshOf 1 { access := "b", refresh := some "r1", needsRefresh := true, nonempty := by decide }
      { access := "c", refresh := some "r2", expiresIn := none }

theorem refresh_used_once_in_turn : ∃ S,
    GuardedRuns.run (sharedStep {}) (entry "a" (some "r0")) newAccess = some S ∧
      acceptedTokens S.log = ["r1", "r0"] ∧ UsedOnce S :=
  ⟨_, rfl, by decide, (refresh_used_once {}).2 "a" (some "r0") _ (.run .start
    (rfl : GuardedRuns.run (sharedStep {}) (entry "a" (some "r0")) newAccess = some _) (by decide +kernel))⟩

/-- Two providers refresh in turn, and the vendor keeps the access token. -/
def sameAccess : List SharedAction :=
  [.load true, .load true] ++
    refreshOf 0 { access := "a", refresh := some "r0", needsRefresh := false, nonempty := by decide }
      { access := "a", refresh := some "r1", expiresIn := none } ++
    refreshOf 1 { access := "a", refresh := some "r1", needsRefresh := false, nonempty := by decide }
      { access := "a", refresh := some "r2", expiresIn := none }

/-- The second provider takes the entry for its own: it sends the used refresh token again. -/
theorem refresh_used_twice : ∃ S,
    GuardedRuns.Reached (sharedStep {}) Rotating (entry "a" (some "r0")) S ∧
      acceptedTokens S.log = ["r0", "r0"] ∧ ¬ UsedOnce S := by
  refine ⟨_, .run .start (rfl : GuardedRuns.run (sharedStep {}) (entry "a" (some "r0")) sameAccess = some _)
    (by decide +kernel), by decide, fun h => ?_⟩
  have htwice : ["r0", "r0"].Nodup := h.once
  simp at htwice

end Wiremux.ProfileTokens
