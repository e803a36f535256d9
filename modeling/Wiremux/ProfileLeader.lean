import Wiremux.ProfileInvariant

set_option autoImplicit false

/-!
# The leader's steps

From the claim of the in-flight slot to the result that its followers are told, each
step of the one call that leads keeps the invariant.
-/
namespace Wiremux.ProfileTokens
open JsonValue StaleMarks

theorem Inv.others {s : State} (h : Inv s) {i : ℕ} (hi : (s.calls i).leads) {k : ℕ} (hk : k ≠ i) :
    (s.calls k).leads = false := by
  have := h.slot k
  have := (h.slot i).mp hi
  grind

theorem Inv.silent {s : State} (h : Inv s) {i : ℕ} (hi : (s.calls i).leads) : s.results i = none := by
  cases hr : s.results i with
  | none => rfl
  | some r =>
    have := not_leads_of_over (h.unpublished _ _ hr)
    simp_all

/-- What is owed while a call leads, that call owes, or the flag is set. -/
theorem Inv.owed_leader {s : State} (h : Inv s) {i : ℕ} (hlead : (s.calls i).leads) (howed : Owed s) :
    s.forceRefresh = true ∨ (s.calls i).owes := by
  rcases h.owed howed with hforce | ⟨w, hw⟩
  · exact Or.inl hforce
  · refine Or.inr ?_
    have hother := h.others hlead (k := w)
    have := leads_of_owes hw
    obtain rfl : w = i := by grind
    exact hw

theorem Inv.follow {s : State} (h : Inv s) {i j : ℕ} (hi : s.calls i = .claiming) (hj : s.slot = some j)
    (hmeet : ∀ token, (s.calls j).inHand = some token → ¬ s.ledger.Stale (s.started i) token) :
    Inv (s.move i (.following j)) := by
  have hlead := (h.slot j).mpr hj
  have hresult := h.silent hlead
  have hquiet : (s.calls i).leads = false := by rw [hi]; rfl
  constructor
  · intro k
    have := h.slot k
    grind [State.move, Phase.leads, Phase.awaits]
  · intro k r
    have := h.unpublished k r
    grind [State.move, Phase.over]
  · intro k
    have := h.fresh k
    grind [State.move]
  · exact h.started
  · intro how
    rcases h.owed how with hforce | ⟨w, hw⟩
    · exact Or.inl hforce
    · refine Or.inr ⟨w, ?_⟩
      have := leads_of_owes hw
      grind
  · intro k
    rw [move_calls]
    split
    · exact fact_of_not_leads rfl
    · exact h.facts k
  · intro k n token
    have := h.offers k n token
    grind [State.move, Hears, Phase.inHand]
  · intro k token
    have := h.honest k token
    grind [State.move]

theorem Inv.lead {s : State} (h : Inv s) {i : ℕ} (hi : s.calls i = .claiming) (hslot : s.slot = none) :
    Inv { s.move i .leading with slot := some i } := by
  have hquiet : ∀ k, (s.calls k).leads = false := by
    intro k
    have := h.slot k
    grind
  constructor
  · intro k
    have := hquiet k
    grind [Phase.leads, Phase.awaits]
  · intro k r
    have := h.unpublished k r
    grind [State.move, Phase.over]
  · intro k
    have := h.fresh k
    grind [State.move]
  · exact h.started
  · intro how
    rcases h.not_owed hslot with hforce | hnot
    · exact Or.inl hforce
    · exact absurd how hnot
  · intro k
    rw [move_calls]
    split
    · trivial
    · exact fact_of_not_leads (hquiet k)
  · intro k j token
    have := h.offers k j token
    grind [State.move, Hears, Phase.inHand]
  · intro k token
    have := h.honest k token
    grind [State.move]

/-- A leader gives the slot up, to publish its result or because it is dropped. -/
theorem Inv.release {s : State} (h : Inv s) {i : ℕ} {p : Phase} (hlead : (s.calls i).leads)
    (hto : p.leads = false) (hidle : p ≠ .idle ∧ (∀ j, p ≠ .following j) ∧ ∀ r, p ≠ .done r)
    (hhand : ∀ token, p.inHand = some token → (s.calls i).inHand = some token)
    (hmeet : (s.calls i).owes → s.forceRefresh = true ∨ ¬ Owed s) :
    Inv { s.move i p with slot := none } := by
  have hothers := fun k (hk : k ≠ i) => h.others hlead hk
  have hsilent := h.silent hlead
  constructor
  · intro k
    have := hothers k
    grind
  · intro k r
    have := h.unpublished k r
    grind [State.move]
  · intro k
    have := h.fresh k
    grind [State.move, Phase.leads, Phase.awaits]
  · exact h.started
  · intro how
    rcases h.owed_leader hlead how with hforce | howes
    · exact Or.inl hforce
    · exact (hmeet howes).imp_right (absurd how)
  · intro k
    rw [move_calls]
    split
    · exact fact_of_not_leads hto
    · rename_i hk
      exact fact_of_not_leads (hothers k hk)
  · intro k j token
    have := h.offers k j token
    have := hhand token
    grind [State.move, Hears]
  · intro k token
    have := h.honest k token
    grind [State.move]

theorem Inv.publish {s : State} (h : Inv s) {i : ℕ} {p : Phase} {r : Refreshed}
    (hquiet : (s.calls i).leads = false) (hbegun : s.calls i ≠ .idle) (hover : p.over)
    (hok : ∀ token, r = .ok token → (s.calls i).inHand = some token)
    (hdone : ∀ token, p = .done (.ok token) → r = .ok token) :
    Inv { s.move i p with results := Function.update s.results i (some r) } := by
  have hto := not_leads_of_over hover
  have hp : p.inHand = none ∧ p ≠ .idle ∧ ∀ j, p ≠ .following j := by
    cases p <;> simp_all [Phase.over, Phase.inHand]
  have hresults : ∀ k, Function.update s.results i (some r) k = if k = i then some r else s.results k :=
    fun k => Function.update_apply ..
  constructor
  · intro k
    have := h.slot k
    have := h.slot i
    grind [State.move]
  · intro k result
    have := h.unpublished k result
    grind [State.move]
  · intro k
    have := h.fresh k
    grind [State.move]
  · exact h.started
  · intro how
    rcases h.owed how with hforce | ⟨w, hw⟩
    · exact Or.inl hforce
    · refine Or.inr ⟨w, ?_⟩
      have := leads_of_owes hw
      grind
  · intro k
    rw [move_calls]
    split
    · exact fact_of_not_leads hto
    · exact h.facts k
  · intro k j token hkj hoffer
    have hears : Hears s k j := by grind [Hears]
    refine h.offers k j token hears ?_
    have := hok token
    grind [State.move]
  · intro k token hk
    have := h.honest k token
    have := h.offers i i token (Or.inl rfl)
    have := hok token
    grind [State.move]

/-- What each step of a leader leaves as it is: the other calls, the slot, the marks. -/
structure Onward (s s' : State) (i : ℕ) (p : Phase) : Prop where
  calls : s'.calls = (s.move i p).calls
  slot : s'.slot = s.slot
  results : s'.results = s.results
  begun : s'.begun = s.begun
  started : s'.started = s.started
  marks : s'.ledger.marks = s.ledger.marks
  stale : ∀ n token, s'.ledger.Stale n token → s.ledger.Stale n token

theorem Onward.move (s : State) (i : ℕ) (p : Phase) : Onward s (s.move i p) i p :=
  ⟨rfl, rfl, rfl, rfl, rfl, rfl, fun _ _ h => h⟩

theorem Inv.goOn {s s' : State} (h : Inv s) {i : ℕ} {p : Phase} (hon : Onward s s' i p)
    (hlead : (s.calls i).leads) (hto : p.leads) (howed : Owed s' → s'.forceRefresh = true ∨ p.owes)
    (hfact : Fact s' p)
    (hhand : ∀ k token, Hears s k i → p.inHand = some token → ¬ s'.ledger.Stale (s.started k) token) :
    Inv s' := by
  have hothers := fun k (hk : k ≠ i) => h.others hlead hk
  have hsilent := h.silent hlead
  have hcalls : ∀ k, s'.calls k = if k = i then p else s.calls k := by
    intro k
    rw [hon.calls, move_calls]
  have hp : p ≠ .idle ∧ p.over = false ∧ (∀ j, p ≠ .following j) ∧ ∀ r, p ≠ .done r := by
    cases p <;> simp_all [Phase.leads, Phase.awaits, Phase.over]
  constructor
  · intro k
    have := h.slot k
    have := hon.slot
    grind
  · intro k r
    have := h.unpublished k r
    have := hon.results
    grind
  · intro k
    have := h.fresh k
    have := hon.begun
    grind [Phase.leads, Phase.awaits]
  · intro k
    rw [hon.started, hon.marks]
    exact h.started k
  · intro how
    refine (howed how).imp_right fun hp => ⟨i, ?_⟩
    rw [hcalls, if_pos rfl]
    exact hp
  · intro k
    rw [hcalls]
    split
    · exact hfact
    · rename_i hk
      exact fact_of_not_leads (hothers k hk)
  · intro k j token hkj hoffer
    have hears : Hears s k j := by grind [Hears]
    rw [hon.started]
    rw [hcalls, hon.results] at hoffer
    by_cases hj : j = i
    · subst hj
      rcases hoffer with hin | hr
      · exact hhand k token hears (by simpa using hin)
      · exact fun hstale => h.offers k j token hears (Or.inr hr) (hon.stale _ _ hstale)
    · rw [if_neg hj] at hoffer
      exact fun hstale => h.offers k j token hears hoffer (hon.stale _ _ hstale)
  · intro k token hk hstale
    rw [hon.started] at hstale
    have := h.honest k token
    have := hon.stale _ _ hstale
    grind

theorem Inv.walk {s : State} (h : Inv s) {i : ℕ} {p : Phase} (hlead : (s.calls i).leads) (hto : p.leads)
    (howes : (s.calls i).owes → p.owes) (hfact : Fact s p)
    (hhand : ∀ k token, Hears s k i → p.inHand = some token → ¬ s.ledger.Stale (s.started k) token) :
    Inv (s.move i p) :=
  h.goOn (.move s i p) hlead hto (fun how => (h.owed_leader hlead how).imp_right howes)
    (by cases p <;> exact hfact) hhand

theorem Inv.stroll {s : State} (h : Inv s) {i : ℕ} {p : Phase} (hlead : (s.calls i).leads) (hto : p.leads)
    (howes : (s.calls i).owes → p.owes) (hfact : Fact s p) (hnone : p.inHand = none) :
    Inv (s.move i p) :=
  h.walk hlead hto howes hfact fun k token _ hin => by
    rw [hnone] at hin
    cases hin

theorem Inv.keepCached {s : State} (h : Inv s) {i : ℕ} {force : Bool} (hlead : (s.calls i).leads)
    (hfits : Fits s i) (howes : (s.calls i).owes → s.forceRefresh = true ∨ ¬ Owed s) :
    Inv (s.move i (.refreshed force (.ok s.cached.access))) := by
  refine h.goOn (.move s i _) hlead rfl ?_ trivial ?_
  · intro how
    rcases h.owed_leader hlead how with hforce | howing
    · exact Or.inl hforce
    · exact Or.inl ((howes howing).resolve_right (absurd how))
  · intro k token hears hin
    obtain rfl : s.cached.access = token := by simpa [Phase.inHand, Except.toOption] using hin
    exact hfits k hears

theorem Inv.swap {s : State} (h : Inv s) {i : ℕ} (hi : s.calls i = .swapping) :
    Inv { s.move i (.locking s.forceRefresh) with forceRefresh := false } := by
  have hlead : (s.calls i).leads := by rw [hi]; rfl
  refine h.goOn ⟨rfl, rfl, rfl, rfl, rfl, rfl, fun _ _ h => h⟩ hlead rfl ?_ ?_ (by simp [Phase.inHand])
  · intro how
    have := h.owed_leader hlead how
    rw [hi] at this
    simpa [Phase.owes] using this
  · have := h.facts i
    rw [hi] at this
    exact this

theorem Inv.rearm {s : State} (h : Inv s) {i : ℕ} {force : Bool} {r : Refreshed} {log : List Event}
    (hi : s.calls i = .refreshed force r) :
    Inv { s.move i (.completing r) with forceRefresh := s.forceRefresh || rearms force r, log := log } := by
  have hlead : (s.calls i).leads := by rw [hi]; rfl
  refine h.goOn ⟨rfl, rfl, rfl, rfl, rfl, rfl, fun _ _ h => h⟩ hlead rfl ?_ trivial ?_
  · intro how
    refine Or.inl ?_
    rcases h.owed_leader hlead how with hforce | howes
    · simp only [hforce, Bool.true_or]
    · rw [hi] at howes
      simp only [Phase.owes] at howes
      simp only [howes, Bool.or_true]
  · intro k token hears hin
    refine h.offers k i token hears (Or.inl ?_)
    rw [hi]
    exact hin

end Wiremux.ProfileTokens
