import Mathlib.Data.List.Chain

set_option autoImplicit false

/-!
# Turns that are joined by role

New content goes to the last turn when it has the same role, and to a turn of its
own when not. Turns then alternate, and what holds of each turn is kept.
-/
namespace Wiremux.TurnLists

structure Turn (ρ β : Type*) where
  role : ρ
  content : List β

variable {ρ β : Type*}

def lastRole (turns : List (Turn ρ β)) : Option ρ := turns.getLast?.map Turn.role

def joinOrPush [DecidableEq ρ] (role : ρ) (finish : List β → List β) (content : List β) (turns : List (Turn ρ β)) :
    List (Turn ρ β) :=
  match turns.getLast? with
  | some last =>
    if last.role = role then
      turns.dropLast ++ [{ last with content := finish (last.content ++ content) }]
    else turns ++ [⟨role, finish content⟩]
  | none => turns ++ [⟨role, finish content⟩]

/-- Neighbours have different roles, roles that stand apart excepted. -/
def Alternating (apart : ρ → Prop) (turns : List (Turn ρ β)) : Prop :=
  turns.IsChain fun first second => first.role = second.role → apart first.role

variable {apart : ρ → Prop} {role : ρ} {finish : List β → List β} {content : List β}
  {turns : List (Turn ρ β)}

theorem alternating_push {turn : Turn ρ β} (h : Alternating apart turns)
    (hlast : ∀ last, turns.getLast? = some last → last.role = turn.role → apart last.role) :
    Alternating apart (turns ++ [turn]) := by
  refine List.isChain_append.mpr ⟨h, List.isChain_singleton _, fun last hmem first hfirst => ?_⟩
  obtain rfl := Option.some.inj hfirst
  exact hlast last hmem

theorem joinOrPush_alternating [DecidableEq ρ] (h : Alternating apart turns) :
    Alternating apart (joinOrPush role finish content turns) := by
  unfold joinOrPush
  cases hlast : turns.getLast? with
  | none =>
    refine alternating_push h fun last hget => ?_
    rw [hlast] at hget
    cases hget
  | some last =>
    dsimp only
    split
    · have hsplit : turns.dropLast ++ [last] = turns := List.dropLast_append_getLast? last hlast
      rw [← hsplit] at h
      obtain ⟨hfront, _, hjoin⟩ := List.isChain_append.mp h
      refine List.isChain_append.mpr ⟨hfront, List.isChain_singleton _, fun first hmem second hsecond => ?_⟩
      obtain rfl := Option.some.inj hsecond
      exact hjoin first hmem last rfl
    · rename_i hrole
      refine alternating_push h fun other hget heq => ?_
      rw [hlast] at hget
      obtain rfl := Option.some.inj hget
      exact absurd heq hrole

theorem joinOrPush_forall [DecidableEq ρ] {P : Turn ρ β → Prop} (h : ∀ turn ∈ turns, P turn)
    (hnew : P ⟨role, finish content⟩)
    (hjoin : ∀ own, P ⟨role, own⟩ → P ⟨role, finish (own ++ content)⟩) :
    ∀ turn ∈ joinOrPush role finish content turns, P turn := by
  intro turn hmem
  unfold joinOrPush at hmem
  cases hlast : turns.getLast? with
  | none =>
    rw [hlast] at hmem
    rcases List.mem_append.mp hmem with hmem | hmem
    · exact h turn hmem
    · obtain rfl := List.mem_singleton.mp hmem
      exact hnew
  | some last =>
    rw [hlast] at hmem
    dsimp only at hmem
    split at hmem
    · rename_i hrole
      rcases List.mem_append.mp hmem with hmem | hmem
      · exact h turn (List.dropLast_subset _ hmem)
      · obtain rfl := List.mem_singleton.mp hmem
        have hown := h last (List.mem_of_getLast? hlast)
        obtain ⟨own, own_content⟩ := last
        subst hrole
        exact hjoin own_content hown
    · rcases List.mem_append.mp hmem with hmem | hmem
      · exact h turn hmem
      · obtain rfl := List.mem_singleton.mp hmem
        exact hnew

end Wiremux.TurnLists
