import Wiremux.CloudLeader

set_option autoImplicit false

/-!
# Stale marks over the runs of a cloud token provider

In each run whose steps meet the condition a mark is served or still flagged, and no
call that starts after it gets the token it was put on.
-/
namespace Wiremux.CloudTokens

variable {κ : Type}

theorem over_settle (provider : Provider) (r : Except String κ) : (settle provider r).over := by
  cases provider <;> cases r <;> rfl

theorem settle_rereading {provider : Provider} {r : Except String κ}
    (h : settle provider r = .rereading) : ∃ token, r = .ok token := by
  cases r with
  | ok token => exact ⟨token, rfl⟩
  | error text => cases provider <;> cases h

theorem settle_done {provider : Provider} {r : Except String κ} {token : κ}
    (h : settle provider r = .done (.ok token)) : r = .ok token := by
  cases provider <;> cases r <;> simp_all [settle]

theorem Inv.runCall {provider : Provider} {s s' : State κ} {i : ℕ} (h : Inv s)
    (hmeet : Meets s (.run i)) (hstep : runCall provider s i = some s') : Inv s' := by
  rw [CloudTokens.runCall] at hstep
  split at hstep
  case h_1 hi =>
    cases hstep
    exact h.quiet (by rw [hi]; rfl) rfl (by simp [hi]) (by simp) (by simp) (by simp)
  case h_2 hi =>
    cases hstep
    refine h.quiet (by rw [hi]; rfl) ?_ (by simp [hi]) ?_ ?_ ?_ <;> split <;> simp [Phase.plain]
  case h_3 hi =>
    cases hstep
    cases hfresh : freshToken s with
    | none => exact h.quiet (by rw [hi]; rfl) rfl (by simp [hi]) (by simp) (by simp) (by simp)
    | some token =>
      exact h.quiet (by rw [hi]; rfl) rfl (by simp [hi]) (by simp)
        (by simpa using cachedToken_of_fresh hfresh) (by simp)
  case h_4 token hi =>
    cases hstep
    cases hslot : s.slot with
    | some j => exact h.quiet (by rw [hi]; rfl) rfl (by simp [hi]) (by simp) (by simp) (by simp)
    | none =>
      have hnot : ¬ s.ledger.Stale (s.started i) token := by
        rw [Meets, hi] at hmeet
        rcases hmeet hslot with hforce | hnot
        · have hnot := (h.not_owed hslot).resolve_left (by simp [hforce])
          exact not_stale_of_not_owed hnot (h.started i) (h.looked i token hi)
        · exact hnot
      exact h.quiet (by rw [hi]; rfl) rfl (by simp [hi]) (by simp) (by simp) (by simpa using hnot)
  case h_5 hi =>
    cases hstep
    rw [claim]
    split
    · rename_i j hj
      rw [Meets, hi] at hmeet
      exact h.follow hi hj fun token => hmeet j token hj
    · rename_i hslot
      exact h.lead hi hslot
  case h_6 j hi =>
    obtain ⟨r, hr, hmove⟩ := Option.map_eq_some_iff.mp hstep
    cases hmove
    have hears : Hears s i j := Or.inr hi
    refine h.quiet (by rw [hi]; rfl) ?_ (by simp [hi]) ?_ ?_ ?_
    · cases provider <;> cases r <;> rfl
    · intro hread
      obtain ⟨token, rfl⟩ := settle_rereading hread
      exact Or.inr ⟨j, hears, Or.inr ⟨token, hr⟩⟩
    · intro token hfresh
      have := over_settle provider r
      simp [hfresh, Phase.over] at this
    · intro token hdone
      obtain rfl := settle_done hdone
      exact h.offers i j token hears (Or.inr hr)
  case h_7 hi =>
    cases hstep
    exact h.swap hi
  case h_8 force hi =>
    cases hstep
    rw [refresh]
    split
    · rename_i token htoken
      cases force with
      | true => cases htoken
      | false => exact h.keep hi htoken
    · exact h.post hi
  case h_9 force token hi =>
    rw [CloudTokens.write] at hstep
    split at hstep
    · cases hstep
    · rename_i hreads
      cases hstep
      refine h.write hi fun k hk => ?_
      by_contra hread
      exact hreads ⟨k, hk, by simpa using hread⟩
  case h_10 force r hi =>
    cases hstep
    exact h.rearm hi
  case h_11 r hi =>
    cases hstep
    exact h.complete hi
  case h_12 r hi =>
    cases hstep
    exact h.publish (by rw [hi]; rfl) (by simp [hi]) (over_settle provider r) (by simp [hi])
      settle_rereading fun token => settle_done
  case h_13 hi =>
    cases hstep
    exact h.publish (by rw [hi]; rfl) (by simp [hi]) rfl (by simp) (by simp) (by simp)
  case h_14 hi =>
    cases hstep
    refine h.quiet (by rw [hi]; rfl) ?_ (fun _ => rfl) (by simp) (by simp) ?_
    · rfl
    · intro token hdone
      cases hcached : cachedToken s with
      | none => simp [hcached] at hdone
      | some t =>
        obtain rfl : t = token := by simpa [hcached] using hdone
        exact h.settled i t (Or.inl hi) hcached
  all_goals cases hstep

theorem Inv.dropCall {s s' : State κ} {i : ℕ} (h : Inv s) (hmeet : Meets s (.drop i))
    (hstep : dropCall s i = some s') : Inv s' := by
  rw [CloudTokens.dropCall] at hstep
  split at hstep
  all_goals first
    | cases hstep
      rename_i hi
      exact h.quiet (by rw [hi]; rfl) rfl (fun _ => rfl) (by simp) (by simp) (by simp)
    | cases hstep
      rename_i hi
      exact h.dropLeader (by rw [hi]; rfl) hmeet
    | cases hstep

theorem Inv.step {provider : Provider} {s s' : State κ} {a : Action κ} (h : Inv s)
    (hmeet : Meets s a) (hstep : step provider s a = some s') : Inv s' := by
  cases a with
  | markStale =>
    cases hstep
    exact h.markStale
  | age =>
    cases hstep
    exact h.age
  | begin =>
    cases hstep
    exact h.beginCall
  | run i => exact h.runCall hmeet hstep
  | answer i outcome =>
    rw [CloudTokens.step] at hstep
    split at hstep
    · rename_i force hi
      cases hstep
      cases outcome with
      | ok token => exact h.deliver hi
      | error text => exact h.refuse hi
    · cases hstep
  | drop i => exact h.dropCall hmeet hstep

/-- In each state that a run of steps meeting the condition reaches, at most one POST is
under way, each mark is served or flagged when no call leads, and no call that started
after a mark has the token it was put on, unless that was delivered since. -/
theorem cloud_marks_honoured (provider : Provider) {s : State κ}
    (h : GuardedRuns.Reached (CloudTokens.step provider) Meets ({} : State κ) s) : Honoured s :=
  (h.keeps Inv.init fun _ _ _ hinv hmeet hstep => hinv.step hmeet hstep).honoured

/-- A token "a", a mark, and a call that gets "b" for it. -/
def servedMark : List (Action String) :=
  [.begin, .run 0, .run 0, .run 0, .run 0, .run 0, .run 0, .answer 0 (.ok "a"), .run 0, .run 0, .run 0, .run 0,
    .markStale, .begin, .run 1, .run 1, .run 1, .run 1, .run 1, .answer 1 (.ok "b"), .run 1, .run 1, .run 1, .run 1]

theorem servedMark_meets :
    GuardedRuns.AllMeet (CloudTokens.step .azure) Meets ({} : State String) servedMark := by
  repeat' refine GuardedRuns.AllMeet.cons ?_ ?_ rfl
  all_goals try trivial
  all_goals intro _ _ h
  all_goals cases h

theorem cloud_marks_honoured_served :
    ∃ s, GuardedRuns.run (CloudTokens.step .azure) {} servedMark = some s ∧
      s.calls 1 = .done (.ok "b") ∧ Honoured s :=
  ⟨_, rfl, rfl, cloud_marks_honoured .azure (.run .start
    (rfl : GuardedRuns.run (CloudTokens.step .azure) {} servedMark = some _) servedMark_meets)⟩

/-- A token "a", a mark, a leader that is dropped once it took the flag, and one more call. -/
def forgottenMark : List (Action String) :=
  [.begin, .run 0, .run 0, .run 0, .run 0, .run 0, .run 0, .answer 0 (.ok "a"), .run 0, .run 0, .run 0, .run 0,
    .markStale, .begin, .run 1, .run 1, .run 1, .run 1, .drop 1, .run 1,
    .begin, .run 2, .run 2, .run 2, .run 2]

/-- The dropped leader's flag is lost: the next call gets the marked token. -/
theorem cloud_mark_forgotten : ∃ s, GuardedRuns.run (step .azure) {} forgottenMark = some s ∧
    s.calls 2 = .done (.ok "a") ∧ ¬ Honoured s := by
  refine ⟨_, rfl, rfl, fun h => h.honest 2 "a" rfl ⟨0, by decide, rfl, fun e he => ?_⟩⟩
  have hdelivered : ("a", e) ∈ [("a", 0)] := he
  simp_all

end Wiremux.CloudTokens
