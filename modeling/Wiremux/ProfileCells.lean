import Wiremux.ProfileLeader

set_option autoImplicit false

/-!
# The leader's tokens

The steps of a leader that change the cached token: the response of the POST, its
write to the cache, the save, and the adoption of what the store holds.
-/
namespace Wiremux.ProfileTokens
open JsonValue StaleMarks

theorem Inv.accept {s : State} (h : Inv s) {i : ℕ} {force : Bool} {token : String}
    {response : TokenResponse} {log : List Event} (hi : s.calls i = .posting force token) :
    Inv { s.move i (.writing force response) with
      ledger := s.ledger.deliver response.access, served := max s.served s.asked, log := log } := by
  have hlead : (s.calls i).leads := by rw [hi]; rfl
  have hnot : ∀ n ≤ s.ledger.marks, ¬ (s.ledger.deliver response.access).Stale n response.access :=
    fun n hn => Ledger.not_stale_deliver hn
  have hfact := h.facts i
  rw [hi] at hfact
  obtain ⟨hunsaved, hasked⟩ := hfact
  refine h.goOn ⟨rfl, rfl, rfl, rfl, rfl, rfl, fun _ _ hstale => hstale.of_deliver⟩ hlead rfl ?_ ?_ ?_
  · intro how
    have hbefore : Owed s := by
      refine how.imp (fun hlt => ?_) fun hstale => hstale.of_deliver
      exact Nat.lt_of_le_of_lt (Nat.le_max_left ..) hlt
    have := h.owed_leader hlead hbefore
    rw [hi] at this
    exact this
  · refine ⟨hunsaved, ?_, fun hforce => ?_⟩
    · by_cases hforce : force = true
      · refine (hasked hforce).imp_right fun hle => ⟨hnot _ (Nat.le_refl _), fun _ => hle⟩
      · exact Or.inr ⟨hnot _ (Nat.le_refl _), fun htrue => absurd htrue hforce⟩
    · exact (hasked hforce).imp_right fun hle => Nat.le_trans hle (Nat.le_max_right ..)
  · intro k t _ hin
    obtain rfl : response.access = t := by simpa [Phase.inHand] using hin
    exact hnot _ (h.started k)

theorem Inv.answerCall {s s' : State} {i : ℕ} {outcome : Posted} (h : Inv s)
    (hstep : answerCall s i outcome = some s') : Inv s' := by
  rw [ProfileTokens.answerCall] at hstep
  split at hstep
  · rename_i force token hi
    cases hstep
    have hlead : (s.calls i).leads := by rw [hi]; rfl
    have hunsaved : s.cached.unsaved = none := by
      have := h.facts i
      rw [hi] at this
      exact this.1
    cases outcome with
    | accepted response =>
      rw [answered]
      split
      · exact h.stroll hlead rfl (by simp [hi, Phase.owes, rearms]) trivial rfl
      · exact h.accept hi
    | rejected rotation text =>
      cases rotation with
      | true => exact h.stroll hlead rfl (by simp [hi, Phase.owes]) hunsaved rfl
      | false => exact h.stroll hlead rfl (by simp [hi, Phase.owes, rearms]) trivial rfl
    | transport text =>
      cases force with
      | true => exact h.stroll hlead rfl (by simp [Phase.owes, rearms]) trivial rfl
      | false => exact h.stroll hlead rfl (by simp [hi, Phase.owes]) hunsaved rfl
    | failed text => exact h.stroll hlead rfl (by simp [hi, Phase.owes, rearms]) trivial rfl
  · cases hstep

theorem Inv.write {s : State} (h : Inv s) {i : ℕ} {force : Bool} {response : TokenResponse}
    (hi : s.calls i = .writing force response) : Inv (write s i force response) := by
  have hlead : (s.calls i).leads := by rw [hi]; rfl
  have hfact := h.facts i
  rw [hi] at hfact
  obtain ⟨-, hrecent, hserved⟩ := hfact
  refine h.goOn ⟨rfl, rfl, rfl, rfl, rfl, rfl, fun _ _ h => h⟩ hlead rfl ?_ trivial ?_
  · intro how
    refine Or.inl ?_
    rcases hrecent with hforce | ⟨hnot, -⟩
    · exact hforce
    · have hlt : s.served < s.ledger.marks := how.resolve_right hnot
      rcases h.owed_leader hlead (Or.inl hlt) with hforce | howes
      · exact hforce
      · rw [hi] at howes
        exact (hserved howes).resolve_right (by omega)
  · intro k t hears hin
    refine h.offers k i t hears (Or.inl ?_)
    rw [hi]
    exact hin

theorem Inv.clear {pack : Pack} {s : State} (h : Inv s) {i : ℕ} {force : Bool} {access : String}
    {expiresIn : ℕ} (hi : s.calls i = .clearing force access expiresIn) :
    Inv (clear pack s i force access expiresIn) := by
  have hlead : (s.calls i).leads := by rw [hi]; rfl
  rw [ProfileTokens.clear]
  refine h.goOn ⟨rfl, rfl, rfl, rfl, rfl, rfl, fun _ _ h => h⟩ hlead rfl ?_ trivial ?_
  · intro how
    have := h.owed_leader hlead how
    rw [hi] at this
    exact Or.inl (this.resolve_right (by simp [Phase.owes]))
  · intro k t hears hin
    have hsame : access = t := by
      rw [Phase.inHand] at hin
      split at hin <;> split at hin <;> simp_all [Except.toOption]
    refine h.offers k i t hears (Or.inl ?_)
    rw [hi, Phase.inHand, hsame]

theorem access_of_adoptFromStore {cached adopted : CachedToken} {store : StoreTokens}
    (h : adoptFromStore cached store = some adopted) :
    adopted.access = store.access ∧ adopted.unsaved = none := by
  rw [adoptFromStore] at h
  split at h
  · cases h
  · cases h
    exact ⟨rfl, rfl⟩

theorem access_of_adoptFromStore_none {cached : CachedToken} {store : StoreTokens}
    (h : adoptFromStore cached store = none) (hunsaved : cached.unsaved = none) :
    store.access = cached.access := by
  have := store.nonempty
  simp_all [adoptFromStore]

/-- A token the store gave is taken: nothing is owed any more, unless the flag is set or
the leader took none. -/
theorem Inv.take {s s' : State} (h : Inv s) {i : ℕ} {force : Bool} {token : String}
    (hlead : (s.calls i).leads) (howes : (s.calls i).owes = force) (hrecent : Recent s force token)
    (hcached : s'.cached.access = token) (hflag : s'.forceRefresh = s.forceRefresh)
    (hledger : s'.ledger = s.ledger) (hserved : s'.served = max s.served s.asked) (howed : Owed s') :
    s'.forceRefresh = true := by
  rw [hflag]
  rcases hrecent with hforce | ⟨hnot, hasked⟩
  · exact hforce
  · rw [Owed, hcached, hledger, hserved] at howed
    have hlt := howed.resolve_right hnot
    have hbefore : Owed s := Or.inl (by omega)
    refine (h.owed_leader hlead hbefore).resolve_right fun howing => ?_
    have := hasked (howes ▸ howing)
    omega

theorem Inv.adoptOr {s : State} (h : Inv s) {i : ℕ} {force : Bool} {store : StoreTokens} {kept : Refreshed}
    (hlead : (s.calls i).leads) (howes : (s.calls i).owes = force)
    (hhand : (s.calls i).inHand = some store.access) (hrecent : Recent s force store.access)
    (hkept : adoptFromStore s.cached store = none → Inv (s.move i (.refreshed force kept))) :
    Inv (adoptOr s i force store kept) := by
  rw [ProfileTokens.adoptOr]
  split
  · rename_i adopted hadopted
    obtain ⟨haccess, -⟩ := access_of_adoptFromStore hadopted
    refine h.goOn ⟨rfl, rfl, rfl, rfl, rfl, rfl, fun _ _ h => h⟩ hlead rfl ?_ trivial ?_
    · intro how
      exact Or.inl (h.take hlead howes hrecent haccess rfl rfl rfl how)
    · intro k t hears hin
      obtain rfl : adopted.access = t := by simpa [Phase.inHand, Except.toOption] using hin
      exact h.offers k i _ hears (Or.inl (haccess ▸ hhand))
  · rename_i hnone
    exact hkept hnone

theorem Inv.copilotAdopt {s : State} (h : Inv s) {i : ℕ} {force : Bool} {store : StoreTokens}
    (hi : s.calls i = .copilotAdopting force store) :
    Inv (ProfileTokens.adoptOr (confirm s store) i force store (.ok s.cached.access)) := by
  have hlead : (s.calls i).leads := by rw [hi]; rfl
  have hfact := h.facts i
  rw [hi] at hfact
  obtain ⟨hunsaved, hrecent⟩ := hfact
  by_cases hsame : store.access = s.cached.access
  · have hnone : adoptFromStore s.cached store = none := by simp [adoptFromStore, hsame]
    have hcached : (confirm s store).cached = s.cached := by rw [confirm, if_pos hsame]
    rw [ProfileTokens.adoptOr, hcached, hnone, confirm, if_pos hsame]
    refine h.goOn ⟨rfl, rfl, rfl, rfl, rfl, rfl, fun _ _ h => h⟩ hlead rfl ?_ trivial ?_
    · intro how
      exact Or.inl (h.take hlead (by rw [hi]; rfl) hrecent hsame.symm rfl rfl rfl how)
    · intro k t hears hin
      obtain rfl : s.cached.access = t := by simpa [Phase.inHand, Except.toOption] using hin
      refine h.offers k i _ hears (Or.inl ?_)
      rw [hi]
      exact congrArg some hsame
  · rw [confirm, if_neg hsame]
    refine h.adoptOr hlead (by rw [hi]; rfl) (by rw [hi]; rfl) hrecent fun hnone => ?_
    exact absurd (access_of_adoptFromStore_none hnone hunsaved) hsame

theorem Inv.adopting {s : State} (h : Inv s) {i : ℕ} {force : Bool} {error : String} {store : StoreTokens}
    (hi : s.calls i = .adopting force error store) :
    Inv (ProfileTokens.adoptOr s i force store (.error (.other error))) := by
  have hlead : (s.calls i).leads := by rw [hi]; rfl
  have hfact := h.facts i
  rw [hi] at hfact
  refine h.adoptOr hlead (by rw [hi]; rfl) (by rw [hi]; rfl) hfact.2 fun _ => ?_
  exact h.stroll hlead rfl (by simp [hi, Phase.owes, rearms]) trivial rfl

theorem Inv.noteStore {s : State} (h : Inv s) {i : ℕ} {p : Phase} {force : Bool} {store : StoreTokens}
    (hlead : (s.calls i).leads) (hto : p.leads) (howes : (s.calls i).owes → p.owes)
    (hhand : p.inHand = some store.access)
    (hfact : ∀ s', s'.cached = s.cached → Recent s' force store.access → Fact s' p) :
    Inv ((noteStore s (.ok (some store))).move i p) := by
  have hnot : ∀ n ≤ s.ledger.marks, ¬ (s.ledger.deliver store.access).Stale n store.access :=
    fun n hn => Ledger.not_stale_deliver hn
  refine h.goOn ⟨rfl, rfl, rfl, rfl, rfl, rfl, fun _ _ hstale => hstale.of_deliver⟩ hlead hto ?_ ?_ ?_
  · intro how
    exact (h.owed_leader hlead (how.imp_right fun hstale => hstale.of_deliver)).imp_right howes
  · exact hfact _ rfl (Or.inr ⟨hnot _ (Nat.le_refl _), fun _ => Nat.le_refl _⟩)
  · intro k t _ hin
    obtain rfl : store.access = t := by simpa [hhand] using hin
    exact hnot _ (h.started k)

end Wiremux.ProfileTokens
