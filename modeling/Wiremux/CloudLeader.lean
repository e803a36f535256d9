import Wiremux.CloudInvariant

set_option autoImplicit false

/-!
# The leader's steps

From the claim of the in-flight slot to the result that its followers are told, each
step of the one call that leads keeps the invariant.
-/
namespace Wiremux.CloudTokens
open StaleMarks

variable {κ : Type}

theorem Inv.others {s : State κ} (h : Inv s) {i : ℕ} (hi : (s.calls i).leads) {k : ℕ}
    (hk : k ≠ i) : (s.calls k).leads = false := by
  have := h.slot k
  have := (h.slot i).mp hi
  grind

theorem Inv.silent {s : State κ} (h : Inv s) {i : ℕ} (hi : (s.calls i).leads) :
    s.results i = none := by
  cases hr : s.results i with
  | none => rfl
  | some r =>
    have := not_leads_of_over (h.unpublished _ _ hr)
    simp_all

theorem Inv.follow {s : State κ} (h : Inv s) {i j : ℕ} (hi : s.calls i = .claiming)
    (hj : s.slot = some j)
    (hmeet : ∀ token, inHand s j = some token → ¬ s.ledger.Stale (s.started i) token) :
    Inv (s.move i (.following j)) := by
  have hlead := (h.slot j).mpr hj
  have hresult := h.silent hlead
  have hsettled : ∀ k, Settled (s.move i (.following j)) k → Settled s k := by
    intro k hk
    simp only [Settled, Hears, Finished, move_calls, move_results] at hk ⊢
    grind [Phase.leads]
  constructor
  · intro k
    have := h.slot k
    grind [Phase.leads]
  · intro k r
    have := h.unpublished k r
    grind [Phase.over]
  · intro k hk
    have := h.fresh k
    grind
  · exact h.started
  · intro k token
    have := h.looked k token
    grind [cachedToken]
  · intro k token
    have := h.kept k token
    grind [cachedToken]
  · intro how
    rcases h.owed how with hforce | ⟨w, hw⟩
    · exact Or.inl hforce
    · refine Or.inr ⟨w, ?_⟩
      have := leads_of_owes hw
      grind [Phase.leads]
  · intro k
    have := h.posted k
    grind
  · intro k force token
    have := h.answered k force token
    grind
  · intro k force token hk n hn
    have := h.pending k force token
    have := hsettled n hn
    grind
  · intro k n token
    have := h.offers k n token
    grind [Hears, inHand, freshToken]
  · intro k token hk
    exact h.settled k token (hsettled k hk)
  · intro k token
    have := h.honest k token
    grind

theorem Inv.lead {s : State κ} (h : Inv s) {i : ℕ} (hi : s.calls i = .claiming)
    (hslot : s.slot = none) : Inv { s.move i .leading with slot := some i } := by
  have hquiet : ∀ k, (s.calls k).leads = false := by
    intro k
    have := h.slot k
    grind
  have hsettled : ∀ k, Settled { s.move i .leading with slot := some i } k → Settled s k :=
    fun k hk => hk.of_move rfl rfl (by simp) (by simp) (by simp)
  constructor
  · intro k
    have := hquiet k
    grind [Phase.leads]
  · intro k r
    have := h.unpublished k r
    grind [Phase.over]
  · intro k hk
    have := h.fresh k
    grind
  · exact h.started
  · intro k token
    have := h.looked k token
    grind [cachedToken]
  · intro k token
    have := h.kept k token
    grind [cachedToken]
  · intro how
    rcases h.not_owed hslot with hforce | hnot
    · exact Or.inl hforce
    · exact absurd how hnot
  · intro k
    have := h.posted k
    grind
  · intro k force token
    have := h.answered k force token
    grind
  · intro k force token hk
    have := hquiet k
    grind [Phase.leads]
  · intro k j token
    have := h.offers k j token
    grind [Hears, inHand, freshToken]
  · intro k token hk
    exact h.settled k token (hsettled k hk)
  · intro k token
    have := h.honest k token
    grind

theorem Inv.goOn {s : State κ} (h : Inv s) {i : ℕ} {p : Phase κ} {f : Bool} {n : ℕ}
    (hlead : (s.calls i).leads) (hto : p.leads) (hwriting : ∀ force token, p ≠ .writing force token)
    (hkept : ∀ token, (∃ force, p = .refreshed force (.ok token)) ∨ p = .completing (.ok token) →
      cachedToken s = some token)
    (howed : Owed s → f = true ∨ p.owes)
    (hposted : p = .posting true → f = true ∨ n = s.ledger.marks)
    (hhand : ∀ k token, Hears s k i →
      inHand { s.move i p with forceRefresh := f, posted := n } i = some token →
        ¬ s.ledger.Stale (s.started k) token) :
    Inv { s.move i p with forceRefresh := f, posted := n } := by
  have hothers := fun k (hk : k ≠ i) => h.others hlead hk
  have hsilent := h.silent hlead
  have hp : (∀ r, p ≠ .publishing r) ∧ (∀ j, p ≠ .following j) ∧ p ≠ .rereading := by
    cases p <;> simp_all [Phase.leads]
  have hsettled : ∀ k, Settled { s.move i p with forceRefresh := f, posted := n } k → Settled s k :=
    fun k hk => hk.of_move rfl rfl hp.1 hp.2.1 fun hre => absurd hre hp.2.2
  constructor
  · intro k
    have := h.slot k
    grind
  · intro k r
    have := h.unpublished k r
    grind
  · intro k hk
    have := h.fresh k
    grind [Phase.leads]
  · exact h.started
  · intro k token
    have := h.looked k token
    grind [cachedToken, Phase.leads]
  · intro k token
    have := h.kept k token
    have := hkept token
    grind [cachedToken]
  · intro how
    refine (howed how).imp_right fun hp => ⟨i, ?_⟩
    simpa using hp
  · intro k
    have := hothers k
    grind [Phase.leads]
  · intro k force token
    have := hothers k
    grind [Phase.leads]
  · intro k force token hk
    have := hothers k
    grind [Phase.leads]
  · intro k j token hkj hoffer
    have hears : Hears s k j := by grind [Hears]
    by_cases hj : j = i
    · subst hj
      rcases hoffer with hin | hr
      · exact hhand k token hears hin
      · exact h.offers k j token hears (Or.inr hr)
    · refine h.offers k j token hears ?_
      grind [inHand, freshToken]
  · intro k token hk
    exact h.settled k token (hsettled k hk)
  · intro k token
    have := h.honest k token
    grind [Phase.leads]

theorem Inv.owed_leader {s : State κ} (h : Inv s) {i : ℕ} (hlead : (s.calls i).leads) (howed : Owed s) :
    s.forceRefresh = true ∨ (s.calls i).owes := by
  rcases h.owed howed with hforce | ⟨w, hw⟩
  · exact Or.inl hforce
  · refine Or.inr ?_
    have hother := h.others hlead (k := w)
    have := leads_of_owes hw
    obtain rfl : w = i := by grind
    exact hw

theorem Inv.swap {s : State κ} (h : Inv s) {i : ℕ} (hi : s.calls i = .leading) :
    Inv { s.move i (.swapped s.forceRefresh) with forceRefresh := false } := by
  have hlead : (s.calls i).leads := by rw [hi]; rfl
  have howed : Owed s → s.forceRefresh = true := by
    intro how
    have := h.owed_leader hlead how
    grind [Phase.owes]
  refine h.goOn hlead rfl (by simp) (by simp) (fun how => Or.inr (howed how)) (by simp) ?_
  intro k token _ hin
  have hforce : s.forceRefresh = false ∧ freshToken s = some token := by grind [inHand, freshToken]
  have hnot : ¬ Owed s := by grind
  exact not_stale_of_not_owed hnot (h.started k) (cachedToken_of_fresh hforce.2)

theorem Inv.keep {s : State κ} (h : Inv s) {i : ℕ} {t : κ} (hi : s.calls i = .swapped false)
    (ht : freshToken s = some t) : Inv (s.move i (.refreshed false (.ok t))) := by
  have hlead : (s.calls i).leads := by rw [hi]; rfl
  refine h.goOn hlead rfl (by simp) (by simpa using cachedToken_of_fresh ht) ?_ (by simp) ?_
  · intro how
    have := h.owed_leader hlead how
    grind [Phase.owes]
  · intro k token hears hin
    refine h.offers k i token hears (Or.inl ?_)
    obtain rfl : t = token := by simpa [inHand, Except.toOption] using hin
    rw [inHand, hi]
    exact ht

theorem Inv.post {s : State κ} (h : Inv s) {i : ℕ} {force : Bool} (hi : s.calls i = .swapped force) :
    Inv { s.move i (.posting force) with posted := s.ledger.marks } := by
  have hlead : (s.calls i).leads := by rw [hi]; rfl
  refine h.goOn hlead rfl (by simp) (by simp) ?_ (fun _ => Or.inr rfl) ?_
  · intro how
    have := h.owed_leader hlead how
    grind [Phase.owes]
  · intro k token _ hin
    simp [inHand] at hin

theorem Inv.refuse {s : State κ} (h : Inv s) {i : ℕ} {force : Bool} {text : String}
    (hi : s.calls i = .posting force) : Inv (s.move i (.refreshed force (.error text))) := by
  have hlead : (s.calls i).leads := by rw [hi]; rfl
  refine h.goOn hlead rfl (by simp) (by simp) ?_ (by simp) ?_
  · intro how
    have := h.owed_leader hlead how
    grind [Phase.owes]
  · intro k token _ hin
    simp [inHand, Except.toOption] at hin

theorem Inv.rearm {s : State κ} (h : Inv s) {i : ℕ} {force : Bool} {r : Except String κ}
    (hi : s.calls i = .refreshed force r) :
    Inv { s.move i (.completing r) with forceRefresh := s.forceRefresh || (isError r && force) } := by
  have hlead : (s.calls i).leads := by rw [hi]; rfl
  refine h.goOn hlead rfl (by simp) ?_ ?_ (by simp) ?_
  · intro token hr
    have := h.kept i token
    grind
  · intro how
    refine Or.inl ?_
    rcases h.owed_leader hlead how with hforce | howes
    · simp only [hforce, Bool.true_or]
    · rw [hi] at howes
      cases r with
      | ok t => simp [Phase.owes] at howes
      | error text => simpa [isError, Phase.owes] using Or.inr howes
  · intro k token hears hin
    refine h.offers k i token hears (Or.inl ?_)
    rw [inHand, hi]
    simpa [inHand] using hin

theorem Inv.deliver {s : State κ} (h : Inv s) {i : ℕ} {force : Bool} {t : κ}
    (hi : s.calls i = .posting force) :
    Inv { s.move i (.writing force t) with
      ledger := s.ledger.deliver t, served := max s.served s.posted } := by
  have hlead : (s.calls i).leads := by rw [hi]; rfl
  have hothers := fun k (hk : k ≠ i) => h.others hlead hk
  have hsilent := h.silent hlead
  have hnot : ∀ n ≤ s.ledger.marks, ¬ (s.ledger.deliver t).Stale n t :=
    fun n hn => Ledger.not_stale_deliver hn
  have hsettled : ∀ k, Settled { s.move i (.writing force t) with
      ledger := s.ledger.deliver t, served := max s.served s.posted } k → Settled s k :=
    fun k hk => hk.of_move rfl rfl (by simp) (by simp) (by simp)
  constructor
  · intro k
    have := h.slot k
    grind [Phase.leads]
  · intro k r
    have := h.unpublished k r
    grind [Phase.over]
  · intro k hk
    have := h.fresh k
    grind
  · exact h.started
  · intro k token
    have := h.looked k token
    grind [cachedToken]
  · intro k token
    have := h.kept k token
    grind [cachedToken]
  · intro how
    by_cases hforce : force = true
    · refine Or.inr ⟨i, ?_⟩
      grind [Phase.owes]
    · have hbefore : Owed s := by
        rcases how with hlt | ⟨token, hcached, hstale⟩
        · exact Or.inl (Nat.lt_of_le_of_lt (Nat.le_max_left ..) hlt)
        · exact Or.inr ⟨token, hcached, hstale.of_deliver⟩
      have := h.owed_leader hlead hbefore
      grind [Phase.owes]
  · intro k
    have := hothers k
    grind [Phase.leads]
  · intro k force token
    have := hothers k
    have hposted := h.posted i
    have := hnot s.ledger.marks (Nat.le_refl _)
    have : s.posted ≤ max s.served s.posted := Nat.le_max_right ..
    grind [Phase.leads, Ledger.marks_deliver]
  · intro k force token hk n hn
    have := hothers k
    have := hnot (s.started n) (h.started n)
    grind [Phase.leads]
  · intro k j token
    have := hnot (s.started k) (h.started k)
    have := h.offers k j token
    have := fun hstale : (s.ledger.deliver t).Stale (s.started k) token => hstale.of_deliver
    have hhand : inHand { s.move i (.writing force t) with
        ledger := s.ledger.deliver t, served := max s.served s.posted } j =
          if j = i then some t else inHand s j := by
      by_cases hj : j = i
      · simp only [inHand, move_calls, if_pos hj]
      · simp only [inHand, move_calls, if_neg hj]
        rfl
    grind [Hears]
  · intro k token hk hcached hstale
    exact h.settled k token (hsettled k hk) hcached hstale.of_deliver
  · intro k token
    have := h.honest k token
    have := fun hstale : (s.ledger.deliver t).Stale (s.started k) token => hstale.of_deliver
    grind

theorem Inv.write {s : State κ} (h : Inv s) {i : ℕ} {force : Bool} {t : κ}
    (hi : s.calls i = .writing force t) (hread : ∀ k < s.begun, (s.calls k).reads = false) :
    Inv { s.move i (.refreshed force (.ok t)) with cached := some (t, false) } := by
  have hlead : (s.calls i).leads := by rw [hi]; rfl
  have hothers := fun k (hk : k ≠ i) => h.others hlead hk
  have hsilent := h.silent hlead
  have hsettled : ∀ k, Settled { s.move i (.refreshed force (.ok t)) with cached := some (t, false) } k →
      Settled s k := fun k hk => hk.of_move rfl rfl (by simp) (by simp) (by simp)
  constructor
  · intro k
    have := h.slot k
    grind [Phase.leads]
  · intro k r
    have := h.unpublished k r
    grind [Phase.over]
  · intro k hk
    have := h.fresh k
    grind
  · exact h.started
  · intro k token
    have := hread k
    have := h.fresh k
    grind [Phase.reads]
  · intro k token
    have := hothers k
    grind [cachedToken, Phase.leads]
  · intro how
    rcases h.answered i force t hi with hflag | ⟨hnot, hserved⟩
    · exact Or.inl hflag
    · have hlt : s.served < s.ledger.marks := by
        rcases how with hlt | ⟨token, hcached, hstale⟩
        · exact hlt
        · obtain rfl : t = token := Option.some.inj hcached
          exact absurd hstale hnot
      have := h.owed_leader hlead (Or.inl hlt)
      have : ¬ s.ledger.marks ≤ s.served := by omega
      grind [Phase.owes]
  · intro k
    have := hothers k
    grind [Phase.leads]
  · intro k force token
    have := hothers k
    grind [Phase.leads]
  · intro k force token hk n hn
    have := hothers k
    grind [Phase.leads]
  · intro k j token
    have := h.offers k j token
    have := hothers j
    grind [Hears, inHand, Phase.leads, Except.toOption]
  · intro k token hk hcached
    obtain rfl : t = token := Option.some.inj hcached
    exact h.pending i force t hi k (hsettled k hk)
  · intro k token
    have := h.honest k token
    grind

theorem Inv.complete {s : State κ} (h : Inv s) {i : ℕ} {r : Except String κ}
    (hi : s.calls i = .completing r) :
    Inv { s.move i (.publishing r) with slot := none } := by
  have hlead : (s.calls i).leads := by rw [hi]; rfl
  have hothers := fun k (hk : k ≠ i) => h.others hlead hk
  have hsilent := h.silent hlead
  have hsettled : ∀ k, Settled { s.move i (.publishing r) with slot := none } k →
      Settled s k ∨ Hears s k i ∧ ∃ t, r = .ok t := by
    intro k hk
    simp only [Settled, Hears, Finished, move_calls, move_results] at hk ⊢
    grind
  constructor
  · intro k
    have := h.slot k
    grind [Phase.leads]
  · intro k r
    have := h.unpublished k r
    grind [Phase.over]
  · intro k hk
    have := h.fresh k
    grind
  · exact h.started
  · intro k token
    have := h.looked k token
    grind [cachedToken]
  · intro k token
    have := h.kept k token
    grind [cachedToken]
  · intro how
    have := h.owed_leader hlead how
    grind [Phase.owes]
  · intro k
    have := h.posted k
    grind
  · intro k force token
    have := h.answered k force token
    grind
  · intro k force token hk n hn
    have := hothers k
    grind [Phase.leads]
  · intro k j token
    have := h.offers k j token
    grind [Hears, inHand, freshToken, Except.toOption]
  · intro k token hk hcached
    rcases hsettled k hk with hbefore | ⟨hears, t, rfl⟩
    · exact h.settled k token hbefore hcached
    · obtain rfl : t = token :=
        Option.some.inj ((h.kept i t (Or.inr hi)).symm.trans hcached)
      exact h.offers k i t hears (Or.inl (by rw [inHand, hi]; rfl))
  · intro k token
    have := h.honest k token
    grind

theorem Inv.dropLeader {s : State κ} (h : Inv s) {i : ℕ} (hlead : (s.calls i).leads)
    (hmeet : (s.calls i).owes → s.forceRefresh = true ∨ ¬ Owed s) :
    Inv { s.move i .aborting with slot := none } := by
  have hothers := fun k (hk : k ≠ i) => h.others hlead hk
  have hsettled : ∀ k, Settled { s.move i .aborting with slot := none } k → Settled s k :=
    fun k hk => hk.of_move rfl rfl (by simp) (by simp) (by simp)
  constructor
  · intro k
    have := hothers k
    grind [Phase.leads]
  · intro k r
    have := h.unpublished k r
    have := h.silent hlead
    grind
  · intro k hk
    have := h.fresh k
    grind [Phase.leads]
  · exact h.started
  · intro k token
    have := h.looked k token
    grind [cachedToken]
  · intro k token
    have := h.kept k token
    grind [cachedToken]
  · intro how
    rcases h.owed_leader hlead how with hforce | howes
    · exact Or.inl hforce
    · exact (hmeet howes).imp_right (absurd how)
  · intro k
    have := h.posted k
    grind
  · intro k force token
    have := h.answered k force token
    grind
  · intro k force token hk n hn
    have := h.pending k force token
    have := hsettled n hn
    grind
  · intro k j token
    have := h.offers k j token
    grind [Hears, inHand, freshToken]
  · intro k token hk
    exact h.settled k token (hsettled k hk)
  · intro k token
    have := h.honest k token
    grind

/-- A call that has cleared the slot tells its followers, and goes on to `p`. -/
theorem Inv.publish {s : State κ} (h : Inv s) {i : ℕ} {p : Phase κ} {r : Except String κ}
    (hquiet : (s.calls i).leads = false) (hbegun : s.calls i ≠ .idle) (hover : p.over)
    (hok : ∀ token, r = .ok token → s.calls i = .publishing (.ok token))
    (hread : p = .rereading → ∃ token, r = .ok token)
    (hdone : ∀ token, p = .done (.ok token) → r = .ok token) :
    Inv { s.move i p with results := Function.update s.results i (some r) } := by
  have hto := not_leads_of_over hover
  have hresults : ∀ k, Function.update s.results i (some r) k = if k = i then some r else s.results k :=
    fun k => Function.update_apply ..
  have hsettled : ∀ k, Settled { s.move i p with results := Function.update s.results i (some r) } k →
      Settled s k := by
    intro k hk
    simp only [Settled, Hears, Finished, move_calls, hresults] at hk ⊢
    by_cases hki : k = i
    · subst hki
      refine Or.inr ⟨k, Or.inl rfl, ?_⟩
      grind [Phase.over]
    · grind [Phase.over]
  constructor
  · intro k
    have := h.slot k
    have := h.slot i
    grind
  · intro k result
    have := h.unpublished k result
    grind
  · intro k hk
    have := h.fresh k
    grind
  · exact h.started
  · intro k token
    have := h.looked k token
    grind [cachedToken, Phase.over]
  · intro k token
    have := h.kept k token
    grind [cachedToken, Phase.leads]
  · intro how
    rcases h.owed how with hforce | ⟨w, hw⟩
    · exact Or.inl hforce
    · refine Or.inr ⟨w, ?_⟩
      have := leads_of_owes hw
      grind
  · intro k
    have := h.posted k
    grind [Phase.leads]
  · intro k force token
    have := h.answered k force token
    grind [Phase.leads]
  · intro k force token hk n hn
    have := h.pending k force token
    have := hsettled n hn
    grind [Phase.leads]
  · intro k j token hkj hoffer
    have hears : Hears s k j := by grind [Hears, Phase.over]
    refine h.offers k j token hears ?_
    by_cases hj : j = i
    · subst hj
      have hr : r = .ok token := by
        cases p <;> simp_all [inHand, Phase.over]
      rw [inHand, hok token hr]
      exact Or.inl rfl
    · grind [inHand, freshToken]
  · intro k token hk
    exact h.settled k token (hsettled k hk)
  · intro k token hk
    have := h.honest k token
    have := h.offers i i token (Or.inl rfl)
    have : s.calls i = .publishing (.ok token) → inHand s i = some token := by
      intro hi
      rw [inHand, hi]
      rfl
    grind

end Wiremux.CloudTokens
