import Wiremux.ProfileCells

set_option autoImplicit false

/-!
# Stale marks over the runs of the profile token provider

In each run whose steps meet the condition at most one refresh runs, a mark is served
or still flagged, and no call that starts after it gets the token it was put on.
-/
namespace Wiremux.ProfileTokens
open JsonValue StaleMarks

/-- What a reload that ended well has left of the cells. -/
structure Looked (s s' : State) : Prop where
  calls : s'.calls = s.calls
  slot : s'.slot = s.slot
  results : s'.results = s.results
  begun : s'.begun = s.begun
  started : s'.started = s.started
  flag : s'.forceRefresh = s.forceRefresh
  marks : s'.ledger.marks = s.ledger.marks
  stale : ∀ n token, s'.ledger.Stale n token → s.ledger.Stale n token
  unsaved : s'.cached.unsaved = none
  owed : Owed s' → Owed s
  /-- the cached token is the one before, or just adopted -/
  cached : s'.cached = s.cached ∨
    (∀ n ≤ s.ledger.marks, ¬ s'.ledger.Stale n s'.cached.access) ∧ ¬ Owed s'

theorem looked_adoptReloaded {s : State} (outcome : Reloaded) (hunsaved : s.cached.unsaved = none) :
    Looked s (adoptReloaded (noteStore s outcome) outcome) := by
  cases outcome with
  | error text => exact ⟨rfl, rfl, rfl, rfl, rfl, rfl, rfl, fun _ _ h => h, hunsaved, fun h => h, Or.inl rfl⟩
  | ok found =>
    cases found with
    | none => exact ⟨rfl, rfl, rfl, rfl, rfl, rfl, rfl, fun _ _ h => h, hunsaved, fun h => h, Or.inl rfl⟩
    | some store =>
      rw [adoptReloaded]
      cases hadopt : adoptFromStore (noteStore s (.ok (some store))).cached store with
      | none =>
        exact ⟨rfl, rfl, rfl, rfl, rfl, rfl, rfl, fun _ _ h => h.of_deliver, hunsaved,
          fun h => h.imp_right fun hstale => hstale.of_deliver, Or.inl rfl⟩
      | some adopted =>
        obtain ⟨haccess, hnone⟩ := access_of_adoptFromStore hadopt
        have hnot : ∀ n ≤ s.ledger.marks, ¬ (s.ledger.deliver store.access).Stale n adopted.access := by
          intro n hn
          rw [haccess]
          exact Ledger.not_stale_deliver hn
        have howed : ¬ Owed (adopt (noteStore s (.ok (some store))) adopted) := by
          rintro (hlt | hstale)
          · have : s.ledger.marks ≤ max s.served s.ledger.marks := Nat.le_max_right ..
            exact absurd hlt (Nat.not_lt.mpr this)
          · exact hnot _ (Nat.le_refl _) hstale
        exact ⟨rfl, rfl, rfl, rfl, rfl, rfl, rfl, fun _ _ h => h.of_deliver, hnone,
          fun h => absurd h howed, Or.inr ⟨hnot, howed⟩⟩

/-- From the reload under the write guard a leader ends, or goes on to its POST. -/
theorem Inv.refreshFrom {pack : Pack} {s s' : State} (h : Inv s) {i : ℕ} {force : Bool}
    (hi : s.calls i = .reloading force) (hlooked : Looked s s') : Inv (refreshFrom pack s' i force) := by
  have hlead : (s.calls i).leads := by rw [hi]; rfl
  have hfact := h.facts i
  rw [hi] at hfact
  have honward : ∀ p, Onward s (s'.move i p) i p := fun p =>
    ⟨by rw [State.move, State.move, hlooked.calls], hlooked.slot, hlooked.results, hlooked.begun,
      hlooked.started, hlooked.marks, hlooked.stale⟩
  have howed : Owed s' → s'.forceRefresh = true ∨ force = true := by
    intro how
    rw [hlooked.flag]
    have := h.owed_leader hlead (hlooked.owed how)
    rw [hi] at this
    exact this
  rw [ProfileTokens.refreshFrom]
  split
  · rename_i hkeep
    simp only [Bool.and_eq_true, Bool.not_eq_true'] at hkeep
    rcases hlooked.cached with hsame | ⟨hnot, hpaid⟩
    · -- nothing was adopted: the cached token still needs the refresh
      have := hfact.2 hkeep.1
      rw [hsame] at hkeep
      exact absurd hkeep.2 (by simp [this])
    · refine h.goOn (honward _) hlead rfl (fun how => absurd how hpaid) trivial ?_
      intro k t _ hin
      obtain rfl : s'.cached.access = t := by simpa [Phase.inHand, Except.toOption] using hin
      exact hnot _ (h.started k)
  · split
    · refine h.goOn (honward _) hlead rfl (fun how => (howed how).imp_right fun hforce => ?_) trivial
        (by simp [Phase.inHand, Except.toOption])
      simpa [Phase.owes, rearms] using hforce
    · rename_i token _
      have hon := honward (.posting force token)
      refine h.goOn ⟨hon.calls, hon.slot, hon.results, hon.begun, hon.started, hon.marks, hon.stale⟩
        hlead rfl howed ⟨hlooked.unsaved, fun _ => Or.inr (Nat.le_refl _)⟩ (by simp [Phase.inHand])

theorem Inv.reloaded {pack : Pack} {s s' : State} {i : ℕ} {outcome : Reloaded} (h : Inv s)
    (hstep : reloaded pack s i outcome = some s') : Inv s' := by
  have hfact := h.facts i
  rw [ProfileTokens.reloaded] at hstep
  split at hstep
  case h_1 force hi =>
    cases hstep
    have hlead : (s.calls i).leads := by rw [hi]; rfl
    rw [hi] at hfact
    match outcome with
    | .ok (some store) =>
      exact h.noteStore hlead rfl (by simp [hi, Phase.owes]) rfl fun s' hcached hrecent =>
        ⟨hcached ▸ hfact, hrecent⟩
    | .ok none => exact h.stroll hlead rfl (by simp [hi, Phase.owes]) hfact rfl
    | .error text => exact h.stroll hlead rfl (by simp [hi, Phase.owes]) hfact rfl
  case h_2 force hi =>
    cases hstep
    rw [hi] at hfact
    exact h.refreshFrom hi (looked_adoptReloaded outcome hfact.1)
  case h_3 force error hi =>
    cases hstep
    have hlead : (s.calls i).leads := by rw [hi]; rfl
    rw [hi] at hfact
    match outcome with
    | .ok (some store) =>
      exact h.noteStore hlead rfl (by simp [hi, Phase.owes]) rfl fun s' hcached hrecent =>
        ⟨hcached ▸ hfact, hrecent⟩
    | .ok none => exact h.stroll hlead rfl (by simp [hi, Phase.owes, rearms]) trivial rfl
    | .error text => exact h.stroll hlead rfl (by simp [hi, Phase.owes, rearms]) trivial rfl
  case h_4 => cases hstep

theorem Inv.lockAnswered {pack : Pack} {s s' : State} {i : ℕ} {error : Option String} (h : Inv s)
    (hstep : lockAnswered pack s i error = some s') : Inv s' := by
  have hfact := h.facts i
  unfold ProfileTokens.lockAnswered at hstep
  split at hstep
  case h_1 force hi =>
    cases hstep
    rw [hi] at hfact
    exact h.stroll (by rw [hi]; rfl) rfl (by simp [hi, Phase.owes]) hfact rfl
  case h_2 force text hi =>
    cases hstep
    rw [hi] at hfact
    exact h.stroll (by rw [hi]; rfl) rfl (by simp [hi, Phase.owes]) hfact rfl
  case h_3 hi =>
    cases hstep
    exact h.stroll (by rw [hi]; rfl) rfl (by simp [hi, Phase.owes]) trivial rfl
  case h_4 text hi =>
    cases hstep
    exact h.stroll (by rw [hi]; rfl) rfl (by simp [hi, Phase.owes]) trivial rfl
  case h_5 => cases hstep

theorem Inv.saveAnswered {pack : Pack} {s s' : State} {i : ℕ} {error : Option AuthError} (h : Inv s)
    (hstep : saveAnswered pack s i error = some s') : Inv s' := by
  unfold ProfileTokens.saveAnswered at hstep
  split at hstep
  case h_1 force access refresh expiresIn hi =>
    cases hstep
    refine Inv.note (h.walk (p := .clearing force access expiresIn) (by rw [hi]; rfl) rfl (by simp [hi, Phase.owes]) trivial ?_) _
    intro k token hears hin
    refine h.offers k i token hears (Or.inl ?_)
    rw [hi]
    exact hin
  case h_2 force access refresh expiresIn e hi =>
    cases hstep
    exact h.stroll (by rw [hi]; rfl) rfl (by simp [hi, Phase.owes]) trivial rfl
  case h_3 => cases hstep

theorem Inv.dropCall {s s' : State} {i : ℕ} (h : Inv s) (hmeet : Meets s (.drop i))
    (hstep : dropCall s i = some s') : Inv s' := by
  rw [ProfileTokens.dropCall] at hstep
  split at hstep
  case h_1 hi =>
    cases hstep
    exact h.quiet (by rw [hi]; rfl) rfl (by simp)
  case h_2 hi =>
    cases hstep
    exact h.quiet (by rw [hi]; rfl) rfl (by simp)
  case h_3 =>
    split at hstep
    · rename_i hawaits
      cases hstep
      have hlead : (s.calls i).leads := by
        generalize s.calls i = p at hawaits
        cases p <;> simp_all [Phase.leads, Phase.awaits]
      exact h.release hlead rfl (by simp) (by simp [Phase.inHand]) hmeet
    · cases hstep

theorem of_whenReadable {s next s' : State} (h : whenReadable s next = some s') : s' = next := by
  rw [whenReadable] at h
  split at h <;> cases h
  rfl

theorem of_whenWritable {s next s' : State} (h : whenWritable s next = some s') : s' = next := by
  rw [whenWritable] at h
  split at h <;> cases h
  rfl

theorem Inv.run_reading {pack : Pack} {s s' : State} {i : ℕ} (h : Inv s)
    (hi : s.calls i = .reading) (hmeet : Meets s (.run i))
    (hstep : ProfileTokens.runCall pack s i = some s') : Inv s' := by
  rw [ProfileTokens.runCall, hi] at hstep
  rw [Meets, hi] at hmeet
  cases hstep
  split
  · exact h.quiet (by rw [hi]; rfl) rfl (by simp)
  · rename_i hunsaved
    split
    · rename_i hskip
      split
      · exact h.quiet (by rw [hi]; rfl) rfl (by simp)
      · rename_i hblank
        refine Inv.note (h.quiet (by rw [hi]; rfl) rfl ?_) _
        intro token hdone
        obtain rfl : s.cached.access = token := by simpa using hdone
        exact hmeet (by simpa using hunsaved) hskip (by simpa using hblank)
    · exact h.quiet (by rw [hi]; rfl) rfl (by simp)

theorem Inv.run_fresh {pack : Pack} {s s' : State} {i : ℕ} (h : Inv s)
    (hi : s.calls i = .fresh) (hmeet : Meets s (.run i))
    (hstep : ProfileTokens.runCall pack s i = some s') : Inv s' := by
  rw [ProfileTokens.runCall, hi] at hstep
  rw [Meets, hi] at hmeet
  cases hstep
  split
  · exact h.quiet (by rw [hi]; rfl) rfl (by simp)
  · rename_i hslot
    replace hslot : s.slot = none := by simpa using hslot
    refine Inv.note (h.quiet (by rw [hi]; rfl) rfl ?_) _
    intro token hdone
    obtain rfl : s.cached.access = token := by simpa using hdone
    rcases hmeet hslot with hforce | hnot
    · have hnot := (h.not_owed hslot).resolve_left (by simp [hforce])
      exact not_stale_of_not_owed hnot (h.started i)
    · exact hnot

theorem Inv.run_claiming {pack : Pack} {s s' : State} {i : ℕ} (h : Inv s)
    (hi : s.calls i = .claiming) (hmeet : Meets s (.run i))
    (hstep : ProfileTokens.runCall pack s i = some s') : Inv s' := by
  rw [ProfileTokens.runCall, hi] at hstep
  rw [Meets, hi] at hmeet
  cases hstep
  rw [claim]
  split
  · rename_i j hj
    exact h.follow hi hj fun token => hmeet j token hj
  · rename_i hslot
    exact h.lead hi hslot

theorem Inv.run_following {pack : Pack} {s s' : State} {i : ℕ} {j : ℕ} (h : Inv s)
    (hi : s.calls i = .following j) (hstep : ProfileTokens.runCall pack s i = some s') : Inv s' := by
  rw [ProfileTokens.runCall, hi] at hstep
  obtain ⟨r, hr, hmove⟩ := Option.map_eq_some_iff.mp hstep
  cases hmove
  refine h.quiet (by rw [hi]; rfl) rfl fun token hdone => ?_
  refine h.offers i j token (Or.inr hi) (Or.inr ?_)
  cases r with
  | ok t => simpa [share, Except.mapError, hr] using hdone
  | error e => simp [share, Except.mapError] at hdone

theorem Inv.run_leading {pack : Pack} {s s' : State} {i : ℕ} (h : Inv s)
    (hi : s.calls i = .leading) (hstep : ProfileTokens.runCall pack s i = some s') : Inv s' := by
  rw [ProfileTokens.runCall, hi] at hstep
  obtain rfl := of_whenReadable hstep
  split
  · exact h.stroll (by rw [hi]; rfl) rfl (by simp [hi, Phase.owes]) trivial rfl
  · rename_i hsaved
    have hunsaved : s.cached.unsaved = none := by simpa using hsaved
    exact h.stroll (by rw [hi]; rfl) rfl (by simp [hi, Phase.owes]) hunsaved rfl

theorem Inv.run_unlocked {pack : Pack} {s s' : State} {i : ℕ} {force : Bool} {error : String} (h : Inv s)
    (hi : s.calls i = .unlocked force error) (hmeet : Meets s (.run i))
    (hstep : ProfileTokens.runCall pack s i = some s') : Inv s' := by
  rw [ProfileTokens.runCall, hi] at hstep
  rw [Meets, hi] at hmeet
  have hfact := h.facts i
  obtain rfl := of_whenReadable hstep
  rw [hi] at hfact
  have hunsaved : s.cached.unsaved = none := hfact
  have hlead : (s.calls i).leads := by rw [hi]; rfl
  rw [if_neg (by simp [hunsaved]), cachedTokenOnLockFailure]
  split
  · rename_i hkeep
    refine h.keepCached hlead (hmeet (by simpa [keepsCached, hunsaved] using hkeep)) ?_
    rw [hi]
    intro howes
    simp only [Phase.owes] at howes
    simp [howes] at hkeep
  · exact h.stroll hlead rfl (by simp [hi, Phase.owes, rearms]) trivial rfl

theorem Inv.run_locked {pack : Pack} {s s' : State} {i : ℕ} {force : Bool} (h : Inv s)
    (hi : s.calls i = .locked force) (hstep : ProfileTokens.runCall pack s i = some s') : Inv s' := by
  rw [ProfileTokens.runCall, hi] at hstep
  have hfact := h.facts i
  cases hstep
  rw [hi] at hfact
  split
  · exact h.stroll (by rw [hi]; rfl) rfl (by simp [hi, Phase.owes]) hfact rfl
  · exact h.stroll (by rw [hi]; rfl) rfl (by simp [hi, Phase.owes]) hfact rfl

theorem Inv.run_copilotKeeping {pack : Pack} {s s' : State} {i : ℕ} {force : Bool} {error : Option String}
    (h : Inv s)
    (hi : s.calls i = .copilotKeeping force error) (hmeet : Meets s (.run i))
    (hstep : ProfileTokens.runCall pack s i = some s') : Inv s' := by
  rw [ProfileTokens.runCall, hi] at hstep
  rw [Meets, hi] at hmeet
  obtain rfl := of_whenReadable hstep
  have hlead : (s.calls i).leads := by rw [hi]; rfl
  rw [cachedOr]
  split
  · exact h.stroll hlead rfl (by simp [hi, Phase.owes, rearms]) trivial rfl
  · rename_i hblank
    obtain ⟨hfits, howes⟩ := hmeet (by simpa [keepsCached] using hblank)
    exact h.keepCached hlead hfits (by simpa [hi, Phase.owes] using howes)

theorem Inv.run_entering {pack : Pack} {s s' : State} {i : ℕ} {force : Bool} (h : Inv s)
    (hi : s.calls i = .entering force) (hmeet : Meets s (.run i))
    (hstep : ProfileTokens.runCall pack s i = some s') : Inv s' := by
  rw [ProfileTokens.runCall, hi] at hstep
  rw [Meets, hi] at hmeet
  have hfact := h.facts i
  obtain rfl := of_whenWritable hstep
  rw [hi] at hfact
  have hunsaved : s.cached.unsaved = none := hfact
  have hlead : (s.calls i).leads := by rw [hi]; rfl
  rw [if_neg (by simp [hunsaved])]
  split
  · rename_i hkeep
    refine h.keepCached hlead (hmeet hkeep) ?_
    rw [hi]
    intro howes
    simp only [Phase.owes] at howes
    simp [howes] at hkeep
  · rename_i hgo
    refine h.stroll hlead rfl (by simp [hi, Phase.owes]) ⟨hunsaved, fun hforce => ?_⟩ rfl
    simpa [hforce] using hgo

theorem Inv.run_keeping {pack : Pack} {s s' : State} {i : ℕ} {error : String} (h : Inv s)
    (hi : s.calls i = .keeping error) (hmeet : Meets s (.run i))
    (hstep : ProfileTokens.runCall pack s i = some s') : Inv s' := by
  rw [ProfileTokens.runCall, hi] at hstep
  rw [Meets, hi] at hmeet
  obtain rfl := of_whenReadable hstep
  have hlead : (s.calls i).leads := by rw [hi]; rfl
  rw [cachedOr]
  split
  · exact h.stroll hlead rfl (by simp [hi, Phase.owes]) trivial rfl
  · rename_i hblank
    exact h.keepCached hlead (hmeet (by simpa [keepsCached] using hblank)) (by simp [hi, Phase.owes])

theorem Inv.run_persistReading {pack : Pack} {s s' : State} {i : ℕ} (h : Inv s)
    (hi : s.calls i = .persistReading) (hmeet : Meets s (.run i))
    (hstep : ProfileTokens.runCall pack s i = some s') : Inv s' := by
  rw [ProfileTokens.runCall, hi] at hstep
  rw [Meets, hi] at hmeet
  obtain rfl := of_whenReadable hstep
  have hfits := hmeet rfl
  have hlead : (s.calls i).leads := by rw [hi]; rfl
  split
  · exact h.keepCached hlead hfits (by simp [hi, Phase.owes])
  · refine h.walk hlead rfl (by simp [hi, Phase.owes]) trivial fun k token hears hin => ?_
    obtain rfl : s.cached.access = token := by simpa [Phase.inHand] using hin
    exact hfits k hears

theorem Inv.run_publishing {pack : Pack} {s s' : State} {i : ℕ} {r : Refreshed} (h : Inv s)
    (hi : s.calls i = .publishing r) (hstep : ProfileTokens.runCall pack s i = some s') : Inv s' := by
  rw [ProfileTokens.runCall, hi] at hstep
  cases hstep
  refine h.publish (by rw [hi]; rfl) (by simp [hi]) rfl ?_ (by simp)
  rintro token rfl
  rw [hi]
  rfl

theorem Inv.runCall {pack : Pack} {s s' : State} {i : ℕ} (h : Inv s) (hmeet : Meets s (.run i))
    (hstep : runCall pack s i = some s') : Inv s' := by
  have hnext := hstep
  rw [ProfileTokens.runCall] at hnext
  split at hnext
  case h_1 hi =>
    obtain rfl := of_whenReadable hnext
    exact h.quiet (by rw [hi]; rfl) rfl (by simp)
  case h_2 hi => exact h.run_reading hi hmeet hstep
  case h_3 hi =>
    cases hnext
    refine h.quiet (by rw [hi]; rfl) ?_ ?_ <;> split <;> simp [Phase.plain]
  case h_4 hi =>
    cases hnext
    refine h.quiet (by rw [hi]; rfl) ?_ ?_ <;> split <;> simp [Phase.plain]
  case h_5 hi => exact h.run_fresh hi hmeet hstep
  case h_6 hi => exact h.run_claiming hi hmeet hstep
  case h_7 j hi => exact h.run_following hi hstep
  case h_8 hi => exact h.run_leading hi hstep
  case h_9 hi =>
    cases hnext
    exact h.swap hi
  case h_10 force error hi => exact h.run_unlocked hi hmeet hstep
  case h_11 force hi => exact h.run_locked hi hstep
  case h_12 force store hi =>
    obtain rfl := of_whenWritable hnext
    exact h.copilotAdopt hi
  case h_13 force error hi => exact h.run_copilotKeeping hi hmeet hstep
  case h_14 force hi => exact h.run_entering hi hmeet hstep
  case h_15 error hi => exact h.run_keeping hi hmeet hstep
  case h_16 force error store hi =>
    obtain rfl := of_whenWritable hnext
    exact h.adopting hi
  case h_17 force response hi =>
    obtain rfl := of_whenWritable hnext
    exact h.write hi
  case h_18 force access expiresIn hi =>
    obtain rfl := of_whenWritable hnext
    exact h.clear hi
  case h_19 hi => exact h.run_persistReading hi hmeet hstep
  case h_20 force r hi =>
    cases hnext
    exact h.rearm hi
  case h_21 r hi =>
    cases hnext
    refine h.release (by rw [hi]; rfl) rfl (by simp) ?_ (by simp [hi, Phase.owes])
    rw [hi]
    exact fun _ hin => hin
  case h_22 r hi => exact h.run_publishing hi hstep
  case h_23 hi =>
    cases hnext
    exact h.publish (by rw [hi]; rfl) (by simp [hi]) rfl (by simp) (by simp)
  case h_24 => cases hnext

theorem Inv.step {pack : Pack} {s s' : State} {a : Action} (h : Inv s) (hmeet : Meets s a)
    (hstep : step pack s a = some s') : Inv s' := by
  cases a with
  | markStale =>
    cases hstep
    exact h.markStale
  | withoutHttpRefresh =>
    cases hstep
    exact h.withoutHttpRefresh
  | age =>
    cases hstep
    exact h.age
  | begin =>
    cases hstep
    exact h.beginCall
  | run i => exact h.runCall hmeet hstep
  | lock i error => exact h.lockAnswered hstep
  | reload i outcome => exact h.reloaded hstep
  | answer i outcome => exact h.answerCall hstep
  | save i error => exact h.saveAnswered hstep
  | drop i => exact h.dropCall hmeet hstep

/-- In each state that a run of steps meeting the condition reaches, at most one refresh
runs, each mark is served, flagged or in the hands of a leader, and no call that started
after a mark has the token it was put on, unless that was delivered since. -/
theorem profile_marks_honoured (pack : Pack) (cached : CachedToken) {s : State}
    (h : GuardedRuns.Reached (ProfileTokens.step pack) Meets (start cached) s) : Honoured s :=
  (h.keeps (Inv.start cached) fun _ _ _ hinv hmeet hstep => hinv.step hmeet hstep).honoured

/-- A token "a" that needs no refresh. -/
def loadedToken : CachedToken :=
  { access := "a", refresh := some "r", needsRefresh := false, unsaved := none }

/-- A mark, and a call that gets "b" for it. -/
def servedMark : List Action :=
  [.markStale, .begin, .run 0, .run 0, .run 0, .run 0, .run 0, .run 0, .lock 0 none, .run 0, .run 0,
    .reload 0 (.ok none), .answer 0 (.accepted { access := "b", refresh := some "r2", expiresIn := none }),
    .run 0, .save 0 none, .run 0, .run 0, .run 0, .run 0]

theorem servedMark_meets :
    GuardedRuns.AllMeet (ProfileTokens.step {}) Meets (start loadedToken) servedMark := by
  repeat' refine GuardedRuns.AllMeet.cons ?_ ?_ rfl
  all_goals solve
    | trivial
    | (intro h; cases h)
    | (intro _ h; cases h)
    | (intro _ _ h; cases h)

theorem profile_marks_honoured_served :
    ∃ s, GuardedRuns.run (ProfileTokens.step {}) (start loadedToken) servedMark = some s ∧
      s.calls 0 = .done (.ok "b") ∧ Honoured s :=
  ⟨_, rfl, rfl, profile_marks_honoured {} loadedToken (.run .start
    (rfl : GuardedRuns.run (ProfileTokens.step {}) (start loadedToken) servedMark = some _) servedMark_meets)⟩

/-- A mark, a leader that is dropped once it took the flag, and one more call. -/
def forgottenMark : List Action :=
  [.markStale, .begin, .run 0, .run 0, .run 0, .run 0, .run 0, .run 0, .drop 0, .run 0,
    .begin, .run 1, .run 1, .run 1, .run 1, .run 1]

/-- The dropped leader's flag is lost: the next call gets the marked token. -/
theorem profile_mark_forgotten :
    ∃ s, GuardedRuns.run (ProfileTokens.step {}) (start loadedToken) forgottenMark = some s ∧
      s.calls 1 = .done (.ok "a") ∧ ¬ Honoured s := by
  refine ⟨_, rfl, rfl, fun h => h.honest 1 "a" rfl ⟨0, by decide, rfl, fun e he => ?_⟩⟩
  cases he

end Wiremux.ProfileTokens
