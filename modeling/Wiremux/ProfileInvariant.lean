import Wiremux.ProfileTokens

set_option autoImplicit false

/-!
# The invariant of the profile token provider

What the marks are promised, the condition on each step, and the invariant that the
marks, the clock, new calls and the calls outside the in-flight slot keep.
-/
namespace Wiremux.ProfileTokens
open JsonValue StaleMarks

def Phase.leads : Phase → Bool
  | .swapping | .locked _ | .refreshed _ _ | .completing _ => true
  | p => p.awaits

/-- The call took a force flag that it has neither served nor set again. -/
def Phase.owes : Phase → Bool
  | .locking force | .unlocked force _ | .locked force | .copilotReloading force | .copilotAdopting force _
  | .copilotKeeping force _ | .entering force | .reloading force | .posting force _ | .rotated force _
  | .adopting force _ _ | .writing force _ => force
  | .refreshed force result => rearms force result
  | _ => false

def Phase.over : Phase → Bool
  | .done _ | .dropped => true
  | _ => false

def Phase.waits : Phase → Bool
  | .called | .reading | .unskipped | .unforced | .fresh | .claiming | .following _ => true
  | _ => false

/-- The call is outside the slot, and waits for no leader. -/
def Phase.plain : Phase → Bool
  | .called | .reading | .unskipped | .unforced | .fresh | .claiming | .done _ | .dropped => true
  | _ => false

/-- The token that a leader has decided on. -/
def Phase.inHand : Phase → Option String
  | .copilotAdopting _ store | .adopting _ _ store => some store.access
  | .writing _ response => some response.access
  | .saving _ access _ _ | .clearing _ access _ => some access
  | .refreshed _ result | .completing result | .publishing result => result.toOption
  | _ => none

/-- The leader is about to end with the cached token. -/
def keepsCached (s : State) : Phase → Bool
  | .unlocked force _ => !force && s.cached.unsaved.isNone && s.cached.access ≠ ""
  | .entering force => !force && !s.cached.needsRefresh
  | .copilotKeeping _ _ | .keeping _ => !isBlank s.cached.access
  | .persistReading => true
  | _ => false

/-- Since the last mark no refresh or adoption has given the provider its tokens, or the
cached token was marked and not delivered since. -/
def Owed (s : State) : Prop :=
  s.served < s.ledger.marks ∨ s.ledger.Stale s.ledger.marks s.cached.access

/-- The call waits for the result of `j`, or is `j`. -/
def Hears (s : State) (i j : ℕ) : Prop := i = j ∨ s.calls i = .following j

/-- The cached token is stale for no call that would get it from `j`. -/
def Fits (s : State) (j : ℕ) : Prop :=
  ∀ i, Hears s i j → ¬ s.ledger.Stale (s.started i) s.cached.access

/-- The condition on a step. A call that skips the refresh, or passes the fast path once
the flag is set again, finds a token not stale for it; a call joins no leader that has
decided on a token stale for the call; a leader ends with the cached token only where it
fits all that wait; a leader that took the flag is dropped, or keeps the token of the
hosts file that it cannot read, only once the flag is set again or nothing is owed. -/
def Meets (s : State) : Action → Prop
  | .run i =>
    match s.calls i with
    | .reading => s.cached.unsaved = none → s.skipHttpRefresh = true → isBlank s.cached.access = false →
        ¬ s.ledger.Stale (s.started i) s.cached.access
    | .fresh => s.slot = none → s.forceRefresh = false ∨ ¬ s.ledger.Stale (s.started i) s.cached.access
    | .claiming => ∀ j token, s.slot = some j → (s.calls j).inHand = some token →
        ¬ s.ledger.Stale (s.started i) token
    | .copilotKeeping force error => keepsCached s (.copilotKeeping force error) →
        Fits s i ∧ (force → s.forceRefresh = true ∨ ¬ Owed s)
    | p => keepsCached s p → Fits s i
  | .drop i => (s.calls i).owes → s.forceRefresh = true ∨ ¬ Owed s
  | _ => True

/-- What the marks are promised. -/
structure Honoured (s : State) : Prop where
  oneRefresh : ∀ i j, (s.calls i).leads → (s.calls j).leads → i = j
  kept : ∀ m < s.ledger.marks, (∀ i, (s.calls i).owes = false) → s.forceRefresh = true ∨ m < s.served
  honest : ∀ i token, s.calls i = .done (.ok token) → ¬ s.ledger.Stale (s.started i) token

/-- What the store or the token URL gave is as new as the marks, unless the flag is set. -/
def Recent (s : State) (force : Bool) (token : String) : Prop :=
  s.forceRefresh = true ∨
    ¬ s.ledger.Stale s.ledger.marks token ∧ (force = true → s.ledger.marks ≤ s.asked)

/-- What holds of the cells while a leader is at its place. -/
def Fact (s : State) : Phase → Prop
  | .swapping | .locking _ | .unlocked _ _ | .locked _ | .copilotReloading _ | .copilotKeeping _ _
  | .entering _ | .keeping _ | .rotated _ _ => s.cached.unsaved = none
  | .copilotAdopting force store | .adopting force _ store =>
    s.cached.unsaved = none ∧ Recent s force store.access
  | .reloading force => s.cached.unsaved = none ∧ (force = false → s.cached.needsRefresh = true)
  | .posting force _ => s.cached.unsaved = none ∧
      (force = true → s.forceRefresh = true ∨ s.ledger.marks ≤ s.asked)
  | .writing force response => s.cached.unsaved = none ∧ Recent s force response.access ∧
      (force = true → s.forceRefresh = true ∨ s.ledger.marks ≤ s.served)
  | _ => True

structure Inv (s : State) : Prop where
  slot : ∀ i, (s.calls i).leads ↔ s.slot = some i
  unpublished : ∀ i result, s.results i = some result → (s.calls i).over
  fresh : ∀ i, s.begun ≤ i → s.calls i = .idle
  started : ∀ i, s.started i ≤ s.ledger.marks
  owed : Owed s → s.forceRefresh = true ∨ ∃ i, (s.calls i).owes
  facts : ∀ i, Fact s (s.calls i)
  offers : ∀ i j token, Hears s i j → (s.calls j).inHand = some token ∨ s.results j = some (.ok token) →
    ¬ s.ledger.Stale (s.started i) token
  honest : ∀ i token, s.calls i = .done (.ok token) → ¬ s.ledger.Stale (s.started i) token

/-- A provider that has loaded its token, and that no one has called yet. -/
def start (cached : CachedToken) : State := { cached := cached }

section
attribute [local simp] Phase.leads Phase.awaits Phase.owes Phase.over Phase.waits Phase.plain Phase.inHand Fact

theorem Inv.start (cached : CachedToken) : Inv (start cached) where
  slot := by simp [ProfileTokens.start]
  unpublished := by simp [ProfileTokens.start]
  fresh := by simp [ProfileTokens.start]
  started := by simp [ProfileTokens.start]
  owed how := by
    rcases how with hlt | hstale
    · cases hlt
    · exact absurd hstale Ledger.not_stale_zero
  facts _ := trivial
  offers := by simp [ProfileTokens.start]
  honest := by simp [ProfileTokens.start]

@[simp, grind =] theorem move_calls (s : State) (i : ℕ) (p : Phase) (k : ℕ) :
    (s.move i p).calls k = if k = i then p else s.calls k :=
  Function.update_apply s.calls i p k

theorem leads_of_owes {p : Phase} (h : p.owes) : p.leads := by
  cases p <;> simp_all

theorem not_leads_of_over {p : Phase} (h : p.over) : p.leads = false := by
  cases p <;> simp_all

theorem waits_spec {p : Phase} (h : p.waits) : p ≠ .idle ∧ p.leads = false ∧ p.over = false ∧
    p.inHand = none ∧ ∀ r, p ≠ .done r := by
  cases p <;> simp_all

theorem plain_spec {p : Phase} (h : p.plain) : p.leads = false ∧ p.inHand = none ∧ ∀ j, p ≠ .following j := by
  cases p <;> simp_all

theorem fact_of_not_leads {s : State} {p : Phase} (h : p.leads = false) : Fact s p := by
  cases p <;> simp_all

end

theorem not_stale_of_not_owed {s : State} (h : ¬ Owed s) {n : ℕ} (hn : n ≤ s.ledger.marks) :
    ¬ s.ledger.Stale n s.cached.access :=
  fun hstale => h (Or.inr (hstale.mono hn))

theorem Inv.not_owed {s : State} (h : Inv s) (hslot : s.slot = none) :
    s.forceRefresh = true ∨ ¬ Owed s := by
  by_cases howed : Owed s
  · rcases h.owed howed with hforce | ⟨i, hi⟩
    · exact Or.inl hforce
    · have hlead := (h.slot i).mp (leads_of_owes hi)
      rw [hslot] at hlead
      cases hlead
  · exact Or.inr howed

theorem Inv.honoured {s : State} (h : Inv s) : Honoured s where
  oneRefresh i j hi hj := Option.some.inj (((h.slot i).mp hi).symm.trans ((h.slot j).mp hj))
  kept m hm hnone := by
    by_cases hserved : m < s.served
    · exact Or.inr hserved
    · rcases h.owed (Or.inl (by omega)) with hforce | ⟨i, hi⟩
      · exact Or.inl hforce
      · rw [hnone i] at hi
        cases hi
  honest := h.honest

theorem Inv.quiet {s : State} (h : Inv s) {i : ℕ} {p : Phase} (hfrom : (s.calls i).waits) (hto : p.plain)
    (hdone : ∀ token, p = .done (.ok token) → ¬ s.ledger.Stale (s.started i) token) :
    Inv (s.move i p) := by
  obtain ⟨hbegun, hquiet, hwas, -, -⟩ := waits_spec hfrom
  obtain ⟨hlead, hhand, hfollow⟩ := plain_spec hto
  constructor
  · intro k
    have := h.slot k
    have := h.slot i
    grind [State.move]
  · intro k r
    have := h.unpublished k r
    grind [State.move]
  · intro k
    have := h.fresh k
    grind [State.move]
  · exact h.started
  · intro how
    rcases h.owed how with hforce | ⟨w, hw⟩
    · exact Or.inl hforce
    · refine Or.inr ⟨w, ?_⟩
      have := leads_of_owes hw
      grind
  · intro k
    rw [move_calls]
    split
    · exact fact_of_not_leads hlead
    · exact h.facts k
  · intro k j token hkj hoffer
    have hears : Hears s k j := by grind [Hears]
    refine h.offers k j token hears ?_
    grind [State.move]
  · intro k token
    have := h.honest k token
    grind [State.move]

theorem Inv.note {s : State} (h : Inv s) (e : Event) : Inv (s.note e) :=
  ⟨h.slot, h.unpublished, h.fresh, h.started, h.owed, h.facts, h.offers, h.honest⟩

theorem Inv.withoutHttpRefresh {s : State} (h : Inv s) : Inv { s with skipHttpRefresh := true } :=
  ⟨h.slot, h.unpublished, h.fresh, h.started, h.owed, h.facts, h.offers, h.honest⟩

theorem Fact.markStale {s : State} {p : Phase} (h : Fact s p) : Fact (markStale s) p := by
  cases p <;> simp_all [Fact, ProfileTokens.markStale, Recent]

theorem Inv.markStale {s : State} (h : Inv s) : Inv (markStale s) := by
  have hstale : ∀ n token, n ≤ s.ledger.marks →
      ((s.ledger.mark (some s.cached.access)).Stale n token ↔ s.ledger.Stale n token) :=
    fun n token hn => Ledger.stale_mark hn
  constructor
  · exact h.slot
  · exact h.unpublished
  · exact h.fresh
  · intro k
    have := h.started k
    simp only [ProfileTokens.markStale, Ledger.marks_mark]
    omega
  · intro _
    exact Or.inl rfl
  · intro k
    exact (h.facts k).markStale
  · intro i j token hij hoffer hstale'
    exact h.offers i j token hij hoffer ((hstale _ _ (h.started i)).mp hstale')
  · intro i token hi hstale'
    exact h.honest i token hi ((hstale _ _ (h.started i)).mp hstale')

theorem Fact.age {s : State} {p : Phase} (h : Fact s p) : Fact (age s) p := by
  cases p <;> simp_all [Fact, ProfileTokens.age, Recent]

theorem Inv.age {s : State} (h : Inv s) : Inv (age s) :=
  ⟨h.slot, h.unpublished, h.fresh, h.started, h.owed, fun k => (h.facts k).age, h.offers, h.honest⟩

theorem Inv.beginCall {s : State} (h : Inv s) : Inv (beginCall s) := by
  have hidle := h.fresh s.begun (Nat.le_refl _)
  have hresult : s.results s.begun = none := by
    cases hr : s.results s.begun with
    | none => rfl
    | some r =>
      have := h.unpublished _ _ hr
      simp [hidle, Phase.over] at this
  have hcalls : ∀ k, (ProfileTokens.beginCall s).calls k = if k = s.begun then .called else s.calls k :=
    fun k => Function.update_apply ..
  have hstarted : ∀ k, (ProfileTokens.beginCall s).started k =
      if k = s.begun then s.ledger.marks else s.started k := fun k => Function.update_apply ..
  constructor
  · intro k
    have := h.slot k
    have := h.slot s.begun
    grind [ProfileTokens.beginCall, Phase.leads, Phase.awaits]
  · intro k r
    have := h.unpublished k r
    grind [ProfileTokens.beginCall]
  · intro k hk
    have := h.fresh k
    grind [ProfileTokens.beginCall]
  · intro k
    have := h.started k
    grind [ProfileTokens.beginCall]
  · intro how
    rcases h.owed how with hforce | ⟨w, hw⟩
    · exact Or.inl hforce
    · refine Or.inr ⟨w, ?_⟩
      have := leads_of_owes hw
      grind [Phase.leads, Phase.awaits]
  · intro k
    rw [hcalls]
    split
    · exact fact_of_not_leads rfl
    · exact h.facts k
  · intro k j token
    have := h.offers k j token
    grind [ProfileTokens.beginCall, Hears, Phase.inHand]
  · intro k token
    have := h.honest k token
    grind [ProfileTokens.beginCall]

end Wiremux.ProfileTokens
