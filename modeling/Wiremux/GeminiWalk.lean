import Wiremux.GeminiCallIds

set_option autoImplicit false

/-!
# The walk backwards

Where the items of a turn end in a way that the walk expects, it comes to the
calls of the turn; where they do not, it finds nothing.
-/
namespace Wiremux.GeminiWalk
open JsonValue RequestParts MessagesItems GeminiContents GeminiMatching

/-- The items that are searched, when the walk begins with the list `behind`. -/
def reach (behind : List IrItem) : List IrItem :=
  let front := behind.dropWhile IrItem.isOutput
  let turn := if front.length < behind.length then dropTurnUser front else front
  (turn.takeWhile fun item => !isBoundary item).reverse

theorem unmatched_plain (items : List IrItem) (name : String) :
    unmatchedCallId items name false =
      (reach items.reverse).findSome? (unmatchedId name (outputIds items)) := rfl

theorem unmatched_flushed (items : List IrItem) (name : String) {user : IrItem}
    (h : isUser user = true) :
    unmatchedCallId (items ++ [user]) name true =
      (reach items.reverse).findSome? (unmatchedId name (outputIds (items ++ [user]))) := by
  have hdrop : dropUser (items ++ [user]).reverse = items.reverse := by
    rw [List.reverse_concat, dropUser, if_pos h]
  rw [unmatchedCallId, if_pos rfl, hdrop]
  rfl

/-- The items that the user contents of a turn have given. -/
def Fits : Phase → List IrItem → Prop
  | .start, tail => tail = []
  | .opened, tail => ∃ user, isUser user = true ∧ tail = [user]
  | .answering, tail => ∃ lead outs, (lead = [] ∨ ∃ user, isUser user = true ∧ lead = [user]) ∧
      outs ≠ [] ∧ (∀ item ∈ outs, item.isOutput = true) ∧ tail = lead ++ outs
  | .closed, tail => ∃ before last user outs, isBoundary last = true ∧ isUser user = true ∧
      (∀ item ∈ outs, item.isOutput = true) ∧ tail = before ++ last :: user :: outs

def Closed (base : List IrItem) : Prop :=
  base = [] ∨ ∃ before last, isBoundary last = true ∧ base = before ++ [last]

theorem isOutput_boundary {item : IrItem} (h : item.isOutput = true) : isBoundary item = true := by
  cases item <;> first | rfl | cases h

theorem isUser_boundary {item : IrItem} (h : isUser item = true) : isBoundary item = true := by
  cases item <;> first | rfl | cases h

theorem isUser_not_output {item : IrItem} (h : isUser item = true) : item.isOutput = false := by
  cases item <;> first | rfl | cases h

theorem not_boundary {item : IrItem} (h : isBoundary item = false) :
    item.isOutput = false ∧ isUser item = false := by
  cases item <;> first | exact ⟨rfl, rfl⟩ | cases h

theorem takeWhile_turn {base open' : List IrItem} (hbase : Closed base)
    (hopen : ∀ item ∈ open', isBoundary item = false) :
    ((base ++ open').reverse.takeWhile fun item => !isBoundary item).reverse = open' := by
  have hall : ∀ item ∈ open'.reverse, (!isBoundary item) = true := by
    intro item hmem
    rw [hopen item (List.mem_reverse.mp hmem)]
    rfl
  rw [List.reverse_append, List.takeWhile_append_of_pos hall]
  have hnone : base.reverse.takeWhile (fun item => !isBoundary item) = [] := by
    rcases hbase with rfl | ⟨before, last, hlast, rfl⟩
    · rfl
    · rw [List.reverse_concat, List.takeWhile_cons_of_neg (by simp [hlast])]
  rw [hnone, List.append_nil, List.reverse_reverse]

theorem dropWhile_outputs {outs rest : List IrItem} (houts : ∀ item ∈ outs, item.isOutput = true)
    (hrest : ∀ item ∈ rest.head?, item.isOutput = false) :
    (outs.reverse ++ rest).dropWhile IrItem.isOutput = rest := by
  rw [List.dropWhile_append_of_pos fun item hmem => houts item (List.mem_reverse.mp hmem)]
  cases rest with
  | nil => rfl
  | cons item rest => rw [List.dropWhile_cons_of_neg (by simp [hrest item rfl])]

variable {base turn tail : List IrItem}

theorem reverse_head (hturn : turn ≠ []) (hopen : ∀ item ∈ turn, isBoundary item = false) :
    ∃ item rest, (base ++ turn).reverse = item :: rest ∧ isBoundary item = false := by
  obtain ⟨init, last, rfl⟩ := (List.eq_nil_or_concat turn).resolve_left hturn
  rw [List.concat_eq_append] at hopen ⊢
  exact ⟨last, (base ++ init).reverse, by rw [← List.append_assoc, List.reverse_concat],
    hopen last (by simp)⟩

theorem reach_turn {phase : Phase} (hphase : phase.reached = true) (hfits : Fits phase tail)
    (hbase : Closed base) (hturn : turn ≠ []) (hopen : ∀ item ∈ turn, isBoundary item = false) :
    reach (base ++ turn ++ tail).reverse = turn := by
  obtain ⟨last, rest, hlist, hlast⟩ := reverse_head hturn hopen
  have htake := takeWhile_turn hbase hopen
  rw [List.reverse_append, hlist]
  rw [hlist] at htake
  cases phase with
  | start =>
    obtain rfl : tail = [] := hfits
    rw [reach, List.reverse_nil, List.nil_append,
      List.dropWhile_cons_of_neg (by simp [(not_boundary hlast).1])]
    rw [if_neg (lt_irrefl _)]
    exact htake
  | answering =>
    obtain ⟨lead, outs, hlead, hne, houts, rfl⟩ := hfits
    rw [List.reverse_append, List.append_assoc]
    have hdrop : (outs.reverse ++ (lead.reverse ++ last :: rest)).dropWhile IrItem.isOutput =
        lead.reverse ++ last :: rest := by
      refine dropWhile_outputs houts fun item hitem => ?_
      rcases hlead with rfl | ⟨user, huser, rfl⟩
      · obtain rfl := Option.some.inj hitem
        exact (not_boundary hlast).1
      · obtain rfl := Option.some.inj hitem
        exact isUser_not_output huser
    have hshort : (lead.reverse ++ last :: rest).length <
        (outs.reverse ++ (lead.reverse ++ last :: rest)).length := by
      have := List.length_pos_iff.mpr hne
      simp only [List.length_append, List.length_reverse, List.length_cons]
      omega
    have huserless : dropTurnUser (lead.reverse ++ last :: rest) = last :: rest := by
      rcases hlead with rfl | ⟨user, huser, rfl⟩
      · cases rest with
        | nil => rfl
        | cons before more =>
          rw [List.reverse_nil, List.nil_append, dropTurnUser, (not_boundary hlast).2]
          rfl
      · rw [List.reverse_singleton, List.singleton_append, dropTurnUser, huser, hlast]
        rfl
    rw [reach, hdrop]
    rw [if_pos hshort, huserless]
    exact htake
  | opened => cases hphase
  | closed => cases hphase

theorem reach_none {phase : Phase} (hphase : phase.reached = false) (hfits : Fits phase tail) :
    reach (base ++ tail).reverse = [] := by
  have huser : ∀ (user : IrItem) (rest : List IrItem), isUser user = true →
      ((user :: rest).takeWhile fun item => !isBoundary item).reverse = [] := by
    intro user rest h
    rw [List.takeWhile_cons_of_neg (by simp [isUser_boundary h])]
    rfl
  rw [List.reverse_append]
  cases phase with
  | start => cases hphase
  | answering => cases hphase
  | opened =>
    obtain ⟨user, hisUser, rfl⟩ := hfits
    rw [reach, List.reverse_singleton, List.singleton_append,
      List.dropWhile_cons_of_neg (by simp [isUser_not_output hisUser])]
    rw [if_neg (lt_irrefl _)]
    exact huser user _ hisUser
  | closed =>
    obtain ⟨before, last, user, outs, hlast, hisUser, houts, rfl⟩ := hfits
    have hlist : (before ++ last :: user :: outs).reverse ++ base.reverse =
        outs.reverse ++ user :: last :: (before.reverse ++ base.reverse) := by simp
    rw [hlist, reach, dropWhile_outputs houts fun item hitem => by
      obtain rfl := Option.some.inj hitem
      exact isUser_not_output hisUser]
    split
    · rw [dropTurnUser, hlast, Bool.not_true, Bool.and_false, if_neg (by decide)]
      exact huser user _ hisUser
    · exact huser user _ hisUser

end Wiremux.GeminiWalk
