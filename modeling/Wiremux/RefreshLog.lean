import Wiremux.RefreshTurns

set_option autoImplicit false

/-!
# What happens between a token response and its save

Once a token response is accepted, its tokens are saved before the provider sends
another POST, adopts anything from the store or decides on a token to return.
-/
namespace Wiremux.ProfileTokens

/-- An accepted response whose tokens are not saved yet. The last event comes first. -/
def pending : List Event → Bool
  | [] => false
  | .accepted _ :: _ => true
  | .saved :: _ => false
  | _ :: rest => pending rest

/-- A POST, an adoption, a token decided on. -/
def Event.isGuarded : Event → Bool
  | .posted _ | .adopted | .returned => true
  | _ => false

/-- Nothing guarded happens while a save is pending. -/
def Guarded (log : List Event) : Prop :=
  ∀ newer e older, log = newer ++ e :: older → e.isGuarded → pending older = false

theorem Guarded.cons {e : Event} {log : List Event} (h : Guarded log)
    (he : e.isGuarded → pending log = false) : Guarded (e :: log) := by
  intro newer e' older hsplit hguarded
  cases newer with
  | nil =>
    obtain ⟨rfl, rfl⟩ := List.cons.inj hsplit
    exact he hguarded
  | cons _ newer => exact h newer e' older (List.cons.inj hsplit).2 hguarded

theorem guarded_nil : Guarded [] := by
  intro newer e older hsplit
  simp at hsplit

/-- The call has its first look at the cached tokens. -/
def Phase.looks : Phase → Bool
  | .reading => true
  | _ => false

def Place.isWriting : Place → Bool
  | .writing _ => true
  | _ => false

theorem not_writing_of_bare {p : Place} (h : p.bare) : p.isWriting = false := by
  cases p <;> simp_all [Place.bare, Place.isWriting]

theorem unsaved_of_adoptFromStore {cached adopted : CachedToken} {store : StoreTokens}
    (h : adoptFromStore cached store = some adopted) : cached.unsaved = none := by
  rw [adoptFromStore] at h
  split at h
  · cases h
  · rename_i hno
    simp_all

/-- The condition on a step: no leader is dropped between its response and the write of
the response's tokens, and no call is answered from the cache meanwhile because
`without_http_refresh` has been called. -/
def SavesFirst (s : State) : Action → Prop
  | .run i => (s.calls i).looks = true → s.skipHttpRefresh = true → s.place.isWriting = false
  | .drop i => (s.calls i).place.isWriting = false
  | _ => True

instance (s : State) : (a : Action) → Decidable (SavesFirst s a)
  | .run i => inferInstanceAs (Decidable ((s.calls i).looks = true → s.skipHttpRefresh = true →
      s.place.isWriting = false))
  | .drop i => inferInstanceAs (Decidable ((s.calls i).place.isWriting = false))
  | .markStale | .withoutHttpRefresh | .age | .begin | .lock _ _ | .reload _ _ | .answer _ _ | .save _ _ =>
    .isTrue trivial

structure Kept (s : State) : Prop where
  base : Base s
  held : pending s.log = true → s.cached.unsaved.isSome ∨ s.place.isWriting
  guarded : Guarded s.log
  saving : ∀ access refresh expiresIn, s.place = .saving access refresh expiresIn →
    core s.cached = (access, refresh, some expiresIn)
  clearing : ∀ access expiresIn, s.place = .clearing access expiresIn →
    s.cached.access = access ∧ s.cached.unsaved = some expiresIn ∧ pending s.log = false

theorem Kept.start (cached : CachedToken) : Kept (start cached) where
  base := Base.start
  held := by simp [ProfileTokens.start, pending]
  guarded := guarded_nil
  saving := by simp [ProfileTokens.start, State.place]
  clearing := by simp [ProfileTokens.start, State.place]

theorem unsaved_of_core {c c' : CachedToken} (h : core c' = core c) : c'.unsaved = c.unsaved :=
  congrArg (fun t => t.2.2) h

theorem access_of_core {c c' : CachedToken} (h : core c' = core c) : c'.access = c.access :=
  congrArg (fun t => t.1) h

theorem refresh_of_core {c c' : CachedToken} (h : core c' = core c) : c'.refresh = c.refresh :=
  congrArg (fun t => t.2.1) h

theorem Kept.not_pending {s : State} (h : Kept s) (hsaved : s.cached.unsaved = none)
    (hplace : s.place.isWriting = false) : pending s.log = false := by
  cases hpending : pending s.log with
  | false => rfl
  | true =>
    have := h.held hpending
    simp_all

theorem Kept.step {pack : Pack} {s s' : State} {a : Action} (h : Kept s) (hmeet : SavesFirst s a)
    (hstep : step pack s a = some s') : Kept s' := by
  obtain ⟨hbase, heffect⟩ := h.base.turn hstep
  have hheld := h.held
  have hguarded := h.guarded
  have hsaving := h.saving
  have hclearing := h.clearing
  cases heffect with
  | rest hcore hlog hplace =>
    have := unsaved_of_core hcore
    have := access_of_core hcore
    refine ⟨hbase, ?_, hlog ▸ hguarded, ?_, ?_⟩
    · have := fun hbare => @not_writing_of_bare s.place hbare
      grind
    · grind [Place.bare]
    · grind [Place.bare]
  | lock hcore hlog hplace =>
    have := unsaved_of_core hcore
    refine ⟨hbase, ?_, hlog ▸ hguarded, ?_, ?_⟩ <;> grind [Place.isWriting]
  | abandon hcore hlog hplace =>
    have := unsaved_of_core hcore
    have hnot : s.place.isWriting = false := by
      rw [hplace.1]
      exact hmeet
    refine ⟨hbase, ?_, hlog ▸ hguarded, ?_, ?_⟩ <;> grind [Place.isWriting]
  | returned hcore hlog hplace hsaved hout =>
    have := unsaved_of_core hcore
    have := access_of_core hcore
    have hnot : s.place.isWriting = false := by
      rcases hout with hout | ⟨i, rfl, hreading, hskip⟩
      · rw [hout]
        rfl
      · exact hmeet (by rw [hreading]; rfl) hskip
    have hpending := h.not_pending hsaved hnot
    have hguard := hguarded.cons (e := .returned) fun _ => hpending
    refine ⟨hbase, ?_, hlog ▸ hguard, ?_, ?_⟩
    · grind [pending]
    · grind
    · grind [pending]
  | looked hcore hlog hplace =>
    have := unsaved_of_core hcore
    refine ⟨hbase, ?_, hlog ▸ hguarded, ?_, ?_⟩ <;> grind [Place.isWriting]
  | adopted hcached hlog hplace =>
    have hsaved := unsaved_of_adoptFromStore hcached
    have hpending := h.not_pending hsaved (by rw [hplace.1]; rfl)
    have hguard := hguarded.cons (e := .adopted) fun _ => hpending
    refine ⟨hbase, ?_, hlog ▸ hguard, ?_, ?_⟩ <;> grind [pending]
  | asked hreloading hsaved hplace hcached hsent =>
    rename_i i outcome log
    have hpending := h.not_pending hsaved (by rw [hplace]; rfl)
    have hlog : pending log = false ∧ Guarded log := by
      rcases hcached with ⟨-, rfl, -⟩ | ⟨store, -, -, rfl⟩
      · exact ⟨hpending, hguarded⟩
      · exact ⟨hpending, hguarded.cons fun _ => hpending⟩
    have hlast : pending s'.log = false ∧ Guarded s'.log := by
      rcases hsent with ⟨-, hs⟩ | ⟨token, -, -, hs⟩
      · exact hs ▸ hlog
      · exact hs ▸ ⟨hlog.1, hlog.2.cons fun _ => hlog.1⟩
    refine ⟨hbase, ?_, hlast.2, ?_, ?_⟩ <;> grind
  | accepted hcore hlog hsaved hposting hplace =>
    have hguard : ∀ token, Guarded (.accepted token :: s.log) := fun token => hguarded.cons (by simp [Event.isGuarded])
    refine ⟨hbase, ?_, hlog ▸ hguard _, ?_, ?_⟩ <;> grind [Place.isWriting]
  | written hlog hcore hplace =>
    have hunsaved := congrArg (fun t => t.2.2) hcore
    refine ⟨hbase, ?_, hlog ▸ hguarded, ?_, ?_⟩
    · intro _
      exact Or.inl (by rw [show s'.cached.unsaved = _ from hunsaved]; rfl)
    · grind
    · grind
  | saved hcore hlog hplace =>
    have := unsaved_of_core hcore
    have := access_of_core hcore
    have := hsaving _ _ _ hplace.1
    have hguard := hguarded.cons (e := .saved) (by simp [Event.isGuarded])
    refine ⟨hbase, ?_, hlog ▸ hguard, ?_, ?_⟩ <;> grind [pending, core]
  | unsaved hcore hlog hplace =>
    have := unsaved_of_core hcore
    refine ⟨hbase, ?_, hlog ▸ hguarded, ?_, ?_⟩ <;> grind [Place.isWriting]
  | cleared hlog haccess hunsaved hplace =>
    have := hclearing _ _ hplace.1
    refine ⟨hbase, ?_, hlog ▸ hguarded, ?_, ?_⟩ <;> grind
  | retried hcore hlog hunsaved hplace =>
    have := unsaved_of_core hcore
    refine ⟨hbase, ?_, hlog ▸ hguarded, ?_, ?_⟩ <;> grind [core]

/-- In each run of one provider whose steps meet the condition, nothing guarded happens
between an accepted response and its save. -/
theorem saved_before_use (pack : Pack) (cached : CachedToken) {s : State}
    (h : GuardedRuns.Reached (step pack) SavesFirst (start cached) s) : Guarded s.log :=
  (h.keeps (Kept.start cached) fun _ _ _ hkept hmeet hstep => hkept.step hmeet hstep).guarded

end Wiremux.ProfileTokens
