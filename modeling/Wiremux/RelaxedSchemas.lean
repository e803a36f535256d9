import Mathlib.Logic.Relation
import Wiremux.RelaxedNodes

set_option autoImplicit false

/-!
# Relaxed schemas

The nodes that the walk visits. The walk ends, no place of the result has a key that
Gemini rejects, and what goes from a visited node is reported.
-/
namespace Wiremux.RelaxedSchemas
open JsonValue Losses SchemaWalks GeminiSchemas RelaxedNodes

/-- A node with the path of its report and the definitions that are being replaced. -/
structure Visit where
  stack : List String
  path : String
  schema : Value

/-- One step of the walk: a node becomes its definition, or is edited and its places visited. -/
inductive Next (defs : Fields) : Visit → Visit → Prop where
  | inlined {stack path fields name map} (h : inlineTarget? defs stack fields = some (name, map)) :
      Next defs ⟨stack, path, .object fields⟩ ⟨name :: stack, path, .object (mergeDefinition fields map)⟩
  | below {stack path fields step u} (h : inlineTarget? defs stack fields = none)
      (hstep : step? geminiSlot (.object fields) step = some u) :
      Next defs ⟨stack, path, .object fields⟩ ⟨stack, stepPath path step, u⟩

def Visited (defs : Fields) : Visit → Visit → Prop := Relation.ReflTransGen (Next defs)

variable {defs : Fields} {a b c : Visit} {fields map : Fields} {name key : String} {u v w : Value}

theorem sizeOf_lookup {fields : Fields} {key : String} {v : Value} (h : fields.lookup key = some v) : sizeOf v < sizeOf fields := by
  have hsmaller := List.sizeOf_lt_of_mem (mem_of_lookup h)
  have hpair : sizeOf (key, v) = 1 + sizeOf key + sizeOf v := rfl
  omega

theorem sizeOf_step {step : Step} (h : step? geminiSlot (.object fields) step = some u) :
    sizeOf u < sizeOf (Value.object fields) := by
  have hobject : sizeOf (Value.object fields) = 1 + sizeOf fields := Value.object.sizeOf_spec fields
  cases step with
  | named key name =>
    rw [step?] at h
    split at h
    · obtain ⟨x, hx, hu⟩ := Option.bind_eq_some_iff.mp h
      have hsmaller := sizeOf_lookup hx
      cases x with
      | object named =>
        have hinner : sizeOf u < sizeOf named := sizeOf_lookup hu
        have hsize : sizeOf (Value.object named) = 1 + sizeOf named := Value.object.sizeOf_spec named
        omega
      | _ => cases hu
    · cases h
  | item key i =>
    rw [step?] at h
    split at h
    · obtain ⟨x, hx, hu⟩ := Option.bind_eq_some_iff.mp h
      have hsmaller := sizeOf_lookup hx
      cases x with
      | array list =>
        have hinner := List.sizeOf_lt_of_mem (List.mem_of_getElem? (l := list) (i := i) (a := u) hu)
        have hsize : sizeOf (Value.array list) = 1 + sizeOf list := Value.array.sizeOf_spec list
        omega
      | _ => cases hu
    · cases h
  | nested key =>
    rw [step?] at h
    split at h
    · obtain ⟨hx, _⟩ := Option.filter_eq_some_iff.mp h
      have hsmaller : sizeOf u < sizeOf fields := sizeOf_lookup hx
      omega
    · cases h

theorem walk_ends (defs : Fields) : WellFounded fun b a => Next defs a b := by
  apply Subrelation.wf (r := InvImage (Prod.Lex (· < ·) (· < ·))
    fun a : Visit => (free defs a.stack, sizeOf a.schema))
  · intro b a hnext
    cases hnext with
    | inlined h => exact Prod.Lex.left _ _ (free_lt h)
    | below h hstep => exact Prod.Lex.right _ (sizeOf_step hstep)
  · exact InvImage.wf _ (Prod.lex Nat.lt_wfRel Nat.lt_wfRel).wf

/-- A node without the keys that Gemini rejects; a ref that is left is no text. -/
def CleanNode (v : Value) : Prop := (∀ key ∈ goneKeys, v.get? key = none) ∧ v.strAt? "$ref" = none

theorem clean_plain {stack : List String} (h : inlineTarget? defs stack fields = none) (path : String) :
    CleanNode (relaxGeminiNode defs stack path (.object fields)).1 := by
  constructor
  · intro key hkey
    have hgone : isGone fields key = true := by
      rw [isGone, List.contains_iff_mem.mpr hkey, Bool.true_or]
    rw [get?_plain h, if_pos hgone]
  · rw [Value.strAt?, get?_plain h]
    cases href : refOf fields with
    | some reference =>
      have hgone : isGone fields "$ref" = true := by simp [isGone, href]
      rw [if_pos hgone]
      rfl
    | none =>
      have hkept : isGone fields "$ref" = false := by
        rw [isGone, href]
        rfl
      rw [hkept, if_neg Bool.false_ne_true, if_neg (by simp)]
      unfold refOf at href
      cases hvalue : fields.lookup "$ref" with
      | none => rfl
      | some x =>
        rw [hvalue] at href
        have hsame : (slotNode defs stack (geminiSlot "$ref") (path ++ "." ++ "$ref") x).1 = x := by
          cases x <;> rfl
        rw [Option.map_some, hsame]
        exact href

theorem clean_at (steps : List Step) (stack : List String) (path : String) (v node : Value)
    (h : at? geminiSlot (relaxGeminiNode defs stack path v).1 steps = some node) : CleanNode node := by
  have hleaf (v : Value) (hv : ∀ key, v.get? key = none) : CleanNode v := by
    refine ⟨fun key _ => hv key, ?_⟩
    rw [Value.strAt?, hv]
    rfl
  induction steps generalizing stack path v with
  | nil =>
    obtain rfl := Option.some.inj h
    cases v with
    | object fields =>
      obtain ⟨stack', fields', hplain, heq⟩ := settles defs stack fields
      rw [heq]
      exact clean_plain hplain path
    | _ =>
      rw [relaxGeminiNode]
      exact hleaf _ fun _ => rfl
  | cons step rest ih =>
    obtain ⟨u, hu, hrest⟩ := Option.bind_eq_some_iff.mp h
    cases v with
    | object fields =>
      obtain ⟨stack', fields', hplain, heq⟩ := settles defs stack fields
      rw [heq, step?_plain hplain] at hu
      split at hu
      · obtain rfl := Option.some.inj hu
        cases rest with
        | nil =>
          obtain rfl := Option.some.inj hrest
          exact hleaf _ fun _ => rfl
        | cons next more => cases next <;> simp [at?, step?, Value.get?] at hrest
      · obtain ⟨x, hx, rfl⟩ := Option.map_eq_some_iff.mp hu
        exact ih _ _ _ hrest
    | _ =>
      rw [relaxGeminiNode] at hu
      cases step <;> simp [step?, relaxIn, Value.get?] at hu

theorem report_next (h : Next defs a b) :
    (relaxGeminiNode defs b.stack b.path b.schema).2 ⊆ (relaxGeminiNode defs a.stack a.path a.schema).2 := by
  cases h with
  | inlined h => rw [relax_inlined h]; exact List.Subset.refl _
  | below h hstep => exact report_plain h hstep _

theorem report_visited (h : Visited defs a b) :
    (relaxGeminiNode defs b.stack b.path b.schema).2 ⊆ (relaxGeminiNode defs a.stack a.path a.schema).2 := by
  induction h with
  | refl => exact List.Subset.refl _
  | tail _ hnext ih => exact List.Subset.trans (report_next hnext) ih

theorem dropped_reported {path detail : String} (h : (fields.lookup key).isSome = true) :
    (⟨path ++ "." ++ key, .drop, detail⟩ : LossEvent) ∈ dropped path fields key detail := by
  rw [dropped, if_pos h]
  exact List.mem_singleton_self _

theorem key_accounted {stack : List String} (h : inlineTarget? defs stack fields = none) (path : String)
    (hkey : (fields.lookup key).isSome = true) :
    ((relaxGeminiNode defs stack path (.object fields)).1.get? key).isSome = true ∨
      key ∈ ["$defs", "definitions"] ∨ ∃ detail,
        (⟨path ++ "." ++ key, .drop, detail⟩ : LossEvent) ∈
          (relaxGeminiNode defs stack path (.object fields)).2 := by
  cases hgone : isGone fields key with
  | false =>
    refine .inl ?_
    rw [get?_plain h, hgone, if_neg Bool.false_ne_true]
    split
    · rfl
    · rw [Option.isSome_map]
      exact hkey
  | true =>
    refine .inr ?_
    rw [relax_plain h]
    rw [isGone, Bool.or_eq_true] at hgone
    rcases hgone with hgone | hgone
    · rw [List.contains_iff_mem] at hgone
      simp only [goneKeys, List.mem_cons, List.not_mem_nil, or_false] at hgone
      simp only [plainNode, List.mem_append]
      rcases hgone with rfl | rfl | rfl | rfl | rfl | rfl | rfl
      · exact .inr ⟨"prefixItems has no Gemini slot", by simp only [dropped_reported hkey, true_or, or_true]⟩
      · exact .inr ⟨"$schema has no Gemini slot", by simp only [dropped_reported hkey, true_or, or_true]⟩
      · exact .inr ⟨"exclusive bound has no Gemini slot", by simp only [dropped_reported hkey, true_or, or_true]⟩
      · exact .inr ⟨"exclusive bound has no Gemini slot", by simp only [dropped_reported hkey, true_or, or_true]⟩
      · exact .inr ⟨"additionalProperties has no Gemini slot", by simp only [dropped_reported hkey, true_or, or_true]⟩
      · exact .inl (by simp)
      · exact .inl (by simp)
    · obtain ⟨hname, href⟩ := Bool.and_eq_true_iff.mp hgone
      obtain rfl := beq_iff_eq.mp hname
      obtain ⟨reference, hreference⟩ := Option.isSome_iff_exists.mp href
      have hpath : path ++ "." ++ "$ref" = path ++ ".$ref" := by
        rw [String.append_assoc]
        rfl
      refine .inr ⟨refDetail stack reference, ?_⟩
      simp [plainNode, hreference, hpath]

end Wiremux.RelaxedSchemas
