import Wiremux.CloudTokens

set_option autoImplicit false

/-!
# The invariant of a cloud token provider

What the marks are promised, the condition on each step, and the invariant that the
marks, the clock, new calls and the calls outside the in-flight slot keep.
-/
namespace Wiremux.CloudTokens
open StaleMarks

variable {κ : Type}

def Phase.leads : Phase κ → Bool
  | .leading | .swapped _ | .posting _ | .writing _ _ | .refreshed _ _ | .completing _ => true
  | _ => false

def Phase.posts : Phase κ → Bool
  | .posting _ => true
  | _ => false

/-- The call took a force flag that it has neither served nor set again. -/
def Phase.owes : Phase κ → Bool
  | .swapped force | .posting force | .writing force _ => force
  | .refreshed force (.error _) => force
  | _ => false

def Phase.over : Phase κ → Bool
  | .rereading | .done _ | .dropped => true
  | _ => false

def Phase.waits : Phase κ → Bool
  | .called | .reading | .checked | .fresh _ | .claiming | .following _ | .rereading => true
  | _ => false

/-- The call is outside the slot, and waits for no leader. -/
def Phase.plain : Phase κ → Bool
  | .called | .reading | .checked | .fresh _ | .claiming | .rereading | .done _ | .dropped => true
  | _ => false

/-- The token that a leader has decided on. -/
def inHand (s : State κ) (j : ℕ) : Option κ :=
  match s.calls j with
  | .swapped false => freshToken s
  | .writing _ token => some token
  | .refreshed _ result | .completing result | .publishing result => result.toOption
  | _ => none

/-- No POST that started after the last mark has succeeded, or the cache still holds a
token that was marked and not delivered since. -/
def Owed (s : State κ) : Prop :=
  s.served < s.ledger.marks ∨
    ∃ token, cachedToken s = some token ∧ s.ledger.Stale s.ledger.marks token

/-- The condition on a step. A call that passes the fast path finds the flag still clear,
or a token that is not stale for it; a call joins no leader that has already decided on a
token stale for the call; a leader that took the flag is dropped only once the flag is
set again, or nothing is owed. -/
def Meets (s : State κ) : Action κ → Prop
  | .run i =>
    match s.calls i with
    | .fresh token => s.slot = none → s.forceRefresh = false ∨ ¬ s.ledger.Stale (s.started i) token
    | .claiming => ∀ j token, s.slot = some j → inHand s j = some token →
        ¬ s.ledger.Stale (s.started i) token
    | _ => True
  | .drop i => (s.calls i).owes → s.forceRefresh = true ∨ ¬ Owed s
  | _ => True

/-- What the marks are promised. -/
structure Honoured (s : State κ) : Prop where
  onePost : ∀ i j, (s.calls i).posts → (s.calls j).posts → i = j
  served : ∀ m < s.ledger.marks, s.slot = none → s.forceRefresh = true ∨ m < s.served
  honest : ∀ i token, s.calls i = .done (.ok token) → ¬ s.ledger.Stale (s.started i) token

/-- The leader's result is `Ok`, and it is on its way to the followers or there. -/
def Finished (s : State κ) (j : ℕ) : Prop :=
  (∃ token, s.calls j = .publishing (.ok token)) ∨ ∃ token, s.results j = some (.ok token)

def Hears (s : State κ) (i j : ℕ) : Prop := i = j ∨ s.calls i = .following j

/-- The call's refresh is over with `Ok`; an STS call may still read the cache. -/
def Settled (s : State κ) (i : ℕ) : Prop :=
  s.calls i = .rereading ∨ ∃ j, Hears s i j ∧ Finished s j

structure Inv (s : State κ) : Prop where
  slot : ∀ i, (s.calls i).leads ↔ s.slot = some i
  unpublished : ∀ i result, s.results i = some result → (s.calls i).over
  fresh : ∀ i, s.begun ≤ i → s.calls i = .idle
  started : ∀ i, s.started i ≤ s.ledger.marks
  looked : ∀ i token, s.calls i = .fresh token → cachedToken s = some token
  kept : ∀ i token, (∃ force, s.calls i = .refreshed force (.ok token)) ∨
    s.calls i = .completing (.ok token) → cachedToken s = some token
  owed : Owed s → s.forceRefresh = true ∨ ∃ i, (s.calls i).owes
  posted : ∀ i, s.calls i = .posting true → s.forceRefresh = true ∨ s.posted = s.ledger.marks
  answered : ∀ i force token, s.calls i = .writing force token → s.forceRefresh = true ∨
    ¬ s.ledger.Stale s.ledger.marks token ∧ (force = true → s.ledger.marks ≤ s.served)
  pending : ∀ i force token, s.calls i = .writing force token → ∀ k, Settled s k →
    ¬ s.ledger.Stale (s.started k) token
  offers : ∀ i j token, Hears s i j → inHand s j = some token ∨ s.results j = some (.ok token) →
    ¬ s.ledger.Stale (s.started i) token
  settled : ∀ i token, Settled s i → cachedToken s = some token →
    ¬ s.ledger.Stale (s.started i) token
  honest : ∀ i token, s.calls i = .done (.ok token) → ¬ s.ledger.Stale (s.started i) token

theorem Inv.init : Inv ({} : State κ) where
  slot := by simp [Phase.leads]
  unpublished := by simp
  fresh := by simp
  started := by simp
  looked := by simp
  kept := by simp
  owed := by simp [Owed, cachedToken, Ledger.marks]
  posted := by simp
  answered := by simp
  pending := by simp
  offers := by simp [inHand]
  settled := by simp [cachedToken]
  honest := by simp

@[simp, grind =] theorem move_forceRefresh (s : State κ) (i : ℕ) (p : Phase κ) :
    (s.move i p).forceRefresh = s.forceRefresh := rfl

@[simp, grind =] theorem move_slot (s : State κ) (i : ℕ) (p : Phase κ) : (s.move i p).slot = s.slot := rfl

@[simp, grind =] theorem move_cached (s : State κ) (i : ℕ) (p : Phase κ) :
    (s.move i p).cached = s.cached := rfl

@[simp, grind =] theorem move_begun (s : State κ) (i : ℕ) (p : Phase κ) : (s.move i p).begun = s.begun := rfl

@[simp, grind =] theorem move_results (s : State κ) (i : ℕ) (p : Phase κ) :
    (s.move i p).results = s.results := rfl

@[simp, grind =] theorem move_ledger (s : State κ) (i : ℕ) (p : Phase κ) :
    (s.move i p).ledger = s.ledger := rfl

@[simp, grind =] theorem move_started (s : State κ) (i : ℕ) (p : Phase κ) :
    (s.move i p).started = s.started := rfl

@[simp, grind =] theorem move_posted (s : State κ) (i : ℕ) (p : Phase κ) :
    (s.move i p).posted = s.posted := rfl

@[simp, grind =] theorem move_served (s : State κ) (i : ℕ) (p : Phase κ) :
    (s.move i p).served = s.served := rfl

theorem leads_of_posts {p : Phase κ} (h : p.posts) : p.leads := by
  cases p <;> simp_all [Phase.posts, Phase.leads]

theorem leads_of_owes {p : Phase κ} (h : p.owes) : p.leads := by
  cases p <;> simp_all [Phase.owes, Phase.leads]

theorem not_leads_of_over {p : Phase κ} (h : p.over) : p.leads = false := by
  cases p <;> simp_all [Phase.over, Phase.leads]

theorem waits_spec {p : Phase κ} (h : p.waits) : p ≠ .idle ∧ p.leads = false ∧
    (∀ r, p ≠ .publishing r) ∧ (p.over → p = .rereading) := by
  cases p <;> simp_all [Phase.waits, Phase.leads, Phase.over]

theorem plain_spec {p : Phase κ} (h : p.plain) : p.leads = false ∧
    (∀ r, p ≠ .publishing r) ∧ ∀ j, p ≠ .following j := by
  cases p <;> simp_all [Phase.plain, Phase.leads]

theorem cachedToken_of_fresh {s : State κ} {token : κ} (h : freshToken s = some token) :
    cachedToken s = some token := by
  simp only [freshToken] at h
  split at h
  · rename_i t hcached
    simpa only [cachedToken, hcached, Option.map_some] using h
  · cases h

theorem not_stale_of_not_owed {s : State κ} (h : ¬ Owed s) {n : ℕ} {token : κ}
    (hn : n ≤ s.ledger.marks) (hcached : cachedToken s = some token) : ¬ s.ledger.Stale n token :=
  fun hstale => h (Or.inr ⟨token, hcached, hstale.mono hn⟩)

theorem Inv.not_owed {s : State κ} (h : Inv s) (hslot : s.slot = none) :
    s.forceRefresh = true ∨ ¬ Owed s := by
  by_cases howed : Owed s
  · rcases h.owed howed with hforce | ⟨i, hi⟩
    · exact Or.inl hforce
    · have hlead := (h.slot i).mp (leads_of_owes hi)
      rw [hslot] at hlead
      cases hlead
  · exact Or.inr howed

theorem Inv.honoured {s : State κ} (h : Inv s) : Honoured s where
  onePost i j hi hj := by
    have hi' := (h.slot i).mp (leads_of_posts hi)
    have hj' := (h.slot j).mp (leads_of_posts hj)
    exact Option.some.inj (hi'.symm.trans hj')
  served m hm hslot := by
    rcases h.not_owed hslot with hforce | hnot
    · exact Or.inl hforce
    · have hserved : ¬ s.served < s.ledger.marks := fun hlt => hnot (Or.inl hlt)
      exact Or.inr (by omega)
  honest := h.honest

/-- A call that moves on settles no other call, and itself only by what it moves to. -/
theorem Settled.of_move {s s' : State κ} {i k : ℕ} {p : Phase κ} (hk : Settled s' k)
    (hcalls : s'.calls = (s.move i p).calls) (hresults : s'.results = s.results)
    (hpub : ∀ r, p ≠ .publishing r) (hfollow : ∀ j, p ≠ .following j)
    (hread : p = .rereading → Settled s i) : Settled s k := by
  simp only [Settled, Hears, Finished, hcalls, hresults, move_calls] at hk
  by_cases hki : k = i
  · subst hki
    rcases hk with hre | ⟨j, hj, hfinished⟩
    · exact hread (by simpa using hre)
    · obtain rfl : k = j := by grind
      refine Or.inr ⟨k, Or.inl rfl, ?_⟩
      grind [Finished]
  · simp only [Settled, Hears, Finished]
    grind

theorem Inv.quiet {s : State κ} (h : Inv s) {i : ℕ} {p : Phase κ} (hfrom : (s.calls i).waits)
    (hto : p.plain) (hover : s.calls i = .rereading → p.over) (hread : p = .rereading → Settled s i)
    (hfresh : ∀ token, p = .fresh token → cachedToken s = some token)
    (hdone : ∀ token, p = .done (.ok token) → ¬ s.ledger.Stale (s.started i) token) :
    Inv (s.move i p) := by
  obtain ⟨hbegun, hquiet, hpub, hwas⟩ := waits_spec hfrom
  obtain ⟨hlead, hpub', hfollow⟩ := plain_spec hto
  have hsettled : ∀ k, Settled (s.move i p) k → Settled s k :=
    fun k hk => hk.of_move rfl rfl hpub' hfollow hread
  constructor
  · intro k
    have := h.slot k
    have := h.slot i
    grind
  · intro k r
    have := h.unpublished k r
    grind
  · intro k hk
    have := h.fresh k
    grind
  · exact h.started
  · intro k token
    have := h.looked k token
    grind [cachedToken]
  · intro k token
    have := h.kept k token
    grind [cachedToken, Phase.leads]
  · intro how
    rcases h.owed how with hforce | ⟨w, hw⟩
    · exact Or.inl hforce
    · refine Or.inr ⟨w, ?_⟩
      have := leads_of_owes hw
      grind
  · intro k
    have := h.posted k
    grind [Phase.leads]
  · intro k force token
    have := h.answered k force token
    grind [Phase.leads]
  · intro k force token hk
    have := h.pending k force token
    grind [Phase.leads]
  · intro k j token
    have := h.offers k j token
    grind [Hears, inHand, Phase.leads, freshToken]
  · intro k token hk
    have := h.settled k token (hsettled k hk)
    exact this
  · intro k token
    have := h.honest k token
    grind

theorem Inv.markStale {s : State κ} (h : Inv s) : Inv (markStale s) := by
  have hstale : ∀ n token, n ≤ s.ledger.marks →
      ((s.ledger.mark (cachedToken s)).Stale n token ↔ s.ledger.Stale n token) :=
    fun n token hn => Ledger.stale_mark hn
  have hsettled : ∀ k, Settled (CloudTokens.markStale s) k ↔ Settled s k := fun k => Iff.rfl
  have hstarted := h.started
  constructor
  · exact h.slot
  · exact h.unpublished
  · exact h.fresh
  · intro k
    have := h.started k
    simp only [CloudTokens.markStale, Ledger.marks_mark]
    omega
  · exact h.looked
  · exact h.kept
  · intro _
    exact Or.inl rfl
  · intro _ _
    exact Or.inl rfl
  · intro _ _ _ _
    exact Or.inl rfl
  · intro i force token hi k hk
    rw [show (CloudTokens.markStale s).ledger = s.ledger.mark (cachedToken s) from rfl]
    have := h.pending i force token hi k ((hsettled k).mp hk)
    grind [CloudTokens.markStale]
  · intro i j token hij hoffer
    have hnot := h.offers i j token hij hoffer
    exact fun hstale' => hnot ((hstale _ _ (h.started i)).mp hstale')
  · intro i token hi
    have := h.settled i token hi
    grind [CloudTokens.markStale, cachedToken]
  · intro i token
    have := h.honest i token
    grind [CloudTokens.markStale]

theorem Inv.age {s : State κ} (h : Inv s) : Inv (age s) := by
  have hcached : cachedToken (CloudTokens.age s) = cachedToken s := by
    simp [cachedToken, CloudTokens.age]
    rfl
  have hnone : freshToken (CloudTokens.age s) = none := by
    simp only [freshToken, CloudTokens.age]
    cases s.cached <;> simp
  have hsettled : ∀ k, Settled (CloudTokens.age s) k ↔ Settled s k := fun k => Iff.rfl
  have hhand : ∀ j token, inHand (CloudTokens.age s) j = some token → inHand s j = some token := by
    intro j token
    simp only [inHand, hnone]
    simp only [CloudTokens.age]
    grind
  constructor
  · exact h.slot
  · exact h.unpublished
  · exact h.fresh
  · exact h.started
  · intro i token hi
    exact hcached.trans (h.looked i token hi)
  · intro i token hi
    exact hcached.trans (h.kept i token hi)
  · intro how
    rw [Owed, hcached] at how
    exact h.owed how
  · exact h.posted
  · exact h.answered
  · exact h.pending
  · intro i j token hij hoffer
    exact h.offers i j token hij (hoffer.imp_left (hhand j token))
  · intro i token hi hc
    exact h.settled i token hi (hcached ▸ hc)
  · exact h.honest

theorem Inv.beginCall {s : State κ} (h : Inv s) : Inv (beginCall s) := by
  have hidle := h.fresh s.begun (Nat.le_refl _)
  have hresult : s.results s.begun = none := by
    cases hr : s.results s.begun with
    | none => rfl
    | some r =>
      have := h.unpublished _ _ hr
      simp [hidle, Phase.over] at this
  have hcalls : ∀ k, (CloudTokens.beginCall s).calls k = if k = s.begun then .called else s.calls k :=
    fun k => Function.update_apply ..
  have hstarted : ∀ k, (CloudTokens.beginCall s).started k =
      if k = s.begun then s.ledger.marks else s.started k := fun k => Function.update_apply ..
  have hsettled : ∀ k, Settled (CloudTokens.beginCall s) k → Settled s k ∧ k ≠ s.begun := by
    intro k hk
    simp only [Settled, Hears, Finished, hcalls] at *
    simp only [CloudTokens.beginCall] at *
    grind
  constructor
  · intro k
    have := h.slot k
    have := h.slot s.begun
    grind [CloudTokens.beginCall, Phase.leads]
  · intro k r
    have := h.unpublished k r
    grind [CloudTokens.beginCall]
  · intro k hk
    have := h.fresh k
    grind [CloudTokens.beginCall]
  · intro k
    have := h.started k
    grind [CloudTokens.beginCall]
  · intro k token
    have := h.looked k token
    grind [CloudTokens.beginCall, cachedToken]
  · intro k token
    have := h.kept k token
    grind [CloudTokens.beginCall, cachedToken]
  · intro how
    rcases h.owed how with hforce | ⟨w, hw⟩
    · exact Or.inl hforce
    · refine Or.inr ⟨w, ?_⟩
      have := leads_of_owes hw
      grind [Phase.leads]
  · intro k
    have := h.posted k
    grind [CloudTokens.beginCall]
  · intro k force token
    have := h.answered k force token
    grind [CloudTokens.beginCall]
  · intro k force token hk j hj
    have := h.pending k force token
    have := hsettled j hj
    grind [CloudTokens.beginCall]
  · intro k j token
    have := h.offers k j token
    grind [CloudTokens.beginCall, Hears, inHand, freshToken]
  · intro k token hk
    have := h.settled k token (hsettled k hk).1
    have := (hsettled k hk).2
    grind [CloudTokens.beginCall, cachedToken]
  · intro k token
    have := h.honest k token
    grind [CloudTokens.beginCall]

end Wiremux.CloudTokens
