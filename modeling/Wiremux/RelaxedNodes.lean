import Wiremux.GeminiSchemas

set_option autoImplicit false

/-!
# Relaxed nodes

A node becomes its definition, or it is edited: then every place below it is kept and
relaxed, and its report is part of the report of the node.
-/
namespace Wiremux.RelaxedNodes
open JsonValue Losses SchemaWalks GeminiSchemas

variable {defs : Fields} {stack : List String} {path : String} {fields map : Fields} {name : String}

def belowNode (defs : Fields) (stack : List String) (path : String) (fields : Fields) :
    List (String × (Value × LossReport)) :=
  relaxFields defs stack (fun fields name map _ path =>
    relaxGeminiNode defs (name :: stack) path (.object (mergeDefinition fields map))) path fields

theorem relax_inlined (h : inlineTarget? defs stack fields = some (name, map)) (path : String) :
    relaxGeminiNode defs stack path (.object fields) =
      relaxGeminiNode defs (name :: stack) path (.object (mergeDefinition fields map)) := by
  rw [relaxGeminiNode, relaxIn, objectNode]
  split
  · rename_i other found hfound
    obtain ⟨rfl, rfl⟩ := Prod.mk.inj (Option.some.inj (hfound.symm.trans h))
    rfl
  · rename_i hnone
    cases hnone.symm.trans h

theorem relax_plain (h : inlineTarget? defs stack fields = none) (path : String) :
    relaxGeminiNode defs stack path (.object fields) =
      plainNode stack path fields (belowNode defs stack path fields) := by
  rw [relaxGeminiNode, relaxIn, objectNode]
  split
  · rename_i other found hfound
    cases hfound.symm.trans h
  · rfl

theorem relax_eq (path : String) (v : Value) : relaxGeminiNode defs stack path v =
    relaxIn defs stack (fun fields name map _ path =>
      relaxGeminiNode defs (name :: stack) path (.object (mergeDefinition fields map))) path v := by
  rw [relaxGeminiNode]

theorem settles (defs : Fields) (stack : List String) (fields : Fields) : ∃ stack' fields',
    inlineTarget? defs stack' fields' = none ∧ ∀ path,
      relaxGeminiNode defs stack path (.object fields) =
        relaxGeminiNode defs stack' path (.object fields') := by
  induction hfree : free defs stack using Nat.strong_induction_on generalizing stack fields with
  | _ n ih =>
    cases htarget : inlineTarget? defs stack fields with
    | none => exact ⟨stack, fields, htarget, fun _ => rfl⟩
    | some target =>
      obtain ⟨name, map⟩ := target
      obtain ⟨stack', fields', hplain, heq⟩ :=
        ih _ (hfree ▸ free_lt htarget) (name :: stack) (mergeDefinition fields map) rfl
      exact ⟨stack', fields', hplain, fun path => (relax_inlined htarget path).trans (heq path)⟩

theorem isObject_relax (defs : Fields) (stack : List String) (path : String) (v : Value) :
    (relaxGeminiNode defs stack path v).1.isObject = v.isObject := by
  cases v with
  | object fields =>
    obtain ⟨stack', fields', hplain, heq⟩ := settles defs stack fields
    rw [heq, relax_plain hplain]
    rfl
  | _ =>
    rw [relaxGeminiNode]
    rfl

def slotNode (defs : Fields) (stack : List String) (slot : Slot) (path : String) (v : Value) :
    Value × LossReport :=
  relaxSlot defs stack (fun fields name map _ path =>
    relaxGeminiNode defs (name :: stack) path (.object (mergeDefinition fields map))) slot path v

theorem lookup_below (fields : Fields) (key : String) :
    (belowNode defs stack path fields).lookup key =
      (fields.lookup key).map (slotNode defs stack (geminiSlot key) (path ++ "." ++ key)) := by
  unfold belowNode
  induction fields with
  | nil => rfl
  | cons f rest ih =>
    obtain ⟨k, v⟩ := f
    rw [relaxFields, List.lookup_cons, List.lookup_cons]
    cases hkey : key == k with
    | true =>
      rw [beq_iff_eq.mp hkey]
      rfl
    | false => exact ih

theorem slotNode_nested {slot : Slot} (h : slot = .items ∨ slot = .nested) :
    slotNode defs stack slot path (.object fields) = relaxGeminiNode defs stack path (.object fields) := by
  rw [relaxGeminiNode]
  rcases h with rfl | rfl <;> rfl

theorem slotNode_named (v : Value) (name : String) :
    namedAt? (slotNode defs stack .named path v).1 name =
        (namedAt? v name).map fun u => (relaxGeminiNode defs stack (path ++ "." ++ name) u).1 := by
  cases v with
  | object named =>
    change List.lookup name (List.map _ (relaxNamed _ _ _ _ _)) = _
    induction named with
    | nil => rfl
    | cons f rest ih =>
      obtain ⟨k, u⟩ := f
      rw [relaxNamed, List.map_cons, List.lookup_cons, namedAt?, List.lookup_cons]
      cases hkey : name == k with
      | true =>
        rw [beq_iff_eq.mp hkey, ← relax_eq]
        rfl
      | false => exact ih
  | _ => rfl

theorem report_named {v u : Value} {name : String} (h : namedAt? v name = some u) :
    (relaxGeminiNode defs stack (path ++ "." ++ name) u).2 ⊆ (slotNode defs stack .named path v).2 := by
  cases v with
  | object named =>
    change _ ⊆ List.flatMap _ (relaxNamed _ _ _ _ _)
    induction named with
    | nil => cases h
    | cons f rest ih =>
      obtain ⟨k, w⟩ := f
      rw [relaxNamed, List.flatMap_cons]
      rw [namedAt?, List.lookup_cons] at h
      cases hkey : name == k with
      | true =>
        rw [hkey] at h
        obtain rfl := Option.some.inj h
        rw [beq_iff_eq.mp hkey, relaxGeminiNode]
        exact List.subset_append_left _ _
      | false =>
        rw [hkey] at h
        exact List.Subset.trans (ih h) (List.subset_append_right _ _)
  | _ => cases h

theorem getElem?_relaxList (defs : Fields) (stack : List String) (path : String)
    (list : List Value) (start i : ℕ) :
    (relaxList defs stack (fun fields name map _ path =>
      relaxGeminiNode defs (name :: stack) path (.object (mergeDefinition fields map))) path start list)[i]? =
      (list[i]?).map (relaxGeminiNode defs stack (path ++ "[" ++ toString (start + i) ++ "]")) := by
  induction list generalizing start i with
  | nil => rfl
  | cons v rest ih =>
    rw [relaxList]
    cases i with
    | zero =>
      rw [List.getElem?_cons_zero, List.getElem?_cons_zero, Option.map_some, relaxGeminiNode]
      rfl
    | succ i =>
      rw [List.getElem?_cons_succ, List.getElem?_cons_succ, ih, Nat.add_assoc, Nat.add_comm 1 i]

theorem slotNode_item {slot : Slot} (h : slot = .items ∨ slot = .listed) (v : Value) (i : ℕ) :
    (slotNode defs stack slot path v).1.nth? i =
      (v.nth? i).map fun u => (relaxGeminiNode defs stack (path ++ "[" ++ toString i ++ "]") u).1 := by
  have hlist (list : List Value) : ((relaxList defs stack (fun fields name map _ path =>
      relaxGeminiNode defs (name :: stack) path (.object (mergeDefinition fields map))) path 0
        list).map Prod.fst)[i]? = (list[i]?).map fun u =>
          (relaxGeminiNode defs stack (path ++ "[" ++ toString i ++ "]") u).1 := by
    rw [List.getElem?_map, getElem?_relaxList, Option.map_map, Nat.zero_add]
    rfl
  rcases h with rfl | rfl
  · cases v with
    | array list => exact hlist list
    | object fields =>
      have hobject := isObject_relax defs stack path (.object fields)
      rw [← slotNode_nested (.inl rfl)] at hobject
      cases hvalue : (slotNode defs stack .items path (.object fields)).1 with
      | object kept => rfl
      | _ =>
        rw [hvalue] at hobject
        cases hobject
    | _ => rfl
  · cases v with
    | array list => exact hlist list
    | _ => rfl

theorem report_item {slot : Slot} (h : slot = .items ∨ slot = .listed) {v u : Value} {i : ℕ}
    (hitem : v.nth? i = some u) :
    (relaxGeminiNode defs stack (path ++ "[" ++ toString i ++ "]") u).2 ⊆
      (slotNode defs stack slot path v).2 := by
  cases v with
  | array list =>
    have hget := getElem?_relaxList defs stack path list 0 i
    have hfound : list[i]? = some u := hitem
    rw [hfound, Option.map_some, Nat.zero_add] at hget
    have hmem := List.mem_of_getElem? hget
    have hreport : (slotNode defs stack slot path (.array list)).2 =
        (relaxList defs stack (fun fields name map _ path => relaxGeminiNode defs (name :: stack) path
          (.object (mergeDefinition fields map))) path 0 list).flatMap Prod.snd := by
      rcases h with rfl | rfl <;> rfl
    rw [hreport]
    intro event hevent
    exact List.mem_flatMap.mpr ⟨_, hmem, hevent⟩
  | _ => cases hitem

theorem slotNode_filter {slot : Slot} (h : slot = .items ∨ slot = .nested) (v : Value) :
    (some (slotNode defs stack slot path v).1).filter Value.isObject =
      ((some v).filter Value.isObject).map fun u => (relaxGeminiNode defs stack path u).1 := by
  cases v with
  | object fields =>
    rw [slotNode_nested h]
    have hobject : (relaxGeminiNode defs stack path (.object fields)).1.isObject = true :=
      isObject_relax defs stack path (.object fields)
    rw [Option.filter_some, if_pos hobject]
    rfl
  | _ => rcases h with rfl | rfl <;> rfl

theorem lookup_filter (p : String → Bool) (fields : Fields) (key : String) :
    (fields.filter fun f => p f.1).lookup key = if p key then fields.lookup key else none := by
  induction fields with
  | nil => simp
  | cons f rest ih =>
    obtain ⟨k, v⟩ := f
    rw [List.filter_cons, List.lookup_cons]
    cases hkey : key == k with
    | true =>
      obtain rfl := beq_iff_eq.mp hkey
      cases hp : p key with
      | true => simp
      | false =>
        rw [if_neg (by simp), ih, hp]
        rfl
    | false =>
      split
      · rw [List.lookup_cons, hkey]
        exact ih
      · exact ih

theorem lookup_map_fst {α : Type} (below : List (String × (Value × α))) (key : String) :
    (below.map fun f => (f.1, f.2.1)).lookup key = (below.lookup key).map Prod.fst := by
  induction below with
  | nil => rfl
  | cons f rest ih =>
    obtain ⟨k, v⟩ := f
    rw [List.map_cons, List.lookup_cons, List.lookup_cons]
    cases key == k with
    | true => rfl
    | false => exact ih

def isTuple (fields : Fields) : Bool :=
  (fields.lookup "prefixItems").isSome && (fields.lookup "items").isNone

theorem get?_plain (h : inlineTarget? defs stack fields = none) (path key : String) :
    (relaxGeminiNode defs stack path (.object fields)).1.get? key =
      if isGone fields key then none
      else if isTuple fields = true ∧ key = "items" then some (.object [])
      else (fields.lookup key).map fun v =>
        (slotNode defs stack (geminiSlot key) (path ++ "." ++ key) v).1 := by
  rw [relax_plain h]
  change List.lookup key (List.filter (fun f => !isGone fields f.1) _) = _
  rw [lookup_filter fun k => !isGone fields k]
  have hbelow : ((belowNode defs stack path fields).map fun f => (f.1, f.2.1)).lookup key =
      (fields.lookup key).map fun v =>
        (slotNode defs stack (geminiSlot key) (path ++ "." ++ key) v).1 := by
    rw [lookup_map_fst, lookup_below, Option.map_map]
    rfl
  cases isGone fields key with
  | true => rfl
  | false =>
    simp only [Bool.not_false, if_true, Bool.false_eq_true, if_false]
    by_cases htuple : isTuple fields = true
    · have hif : ((fields.lookup "prefixItems").isSome && (fields.lookup "items").isNone) = true := htuple
      rw [if_pos hif]
      by_cases hkey : key = "items"
      · rw [if_pos ⟨htuple, hkey⟩, hkey, Value.lookup_insertField_self]
      · rw [if_neg (fun hboth => hkey hboth.2), Value.lookup_insertField_of_ne _ hkey]
        exact hbelow
    · have hif : ¬((fields.lookup "prefixItems").isSome && (fields.lookup "items").isNone) = true := htuple
      rw [if_neg hif, if_neg (fun hboth => htuple hboth.1)]
      exact hbelow

theorem report_slot (path : String) (h : inlineTarget? defs stack fields = none) {key : String}
    {v : Value}
    (hkey : key ∈ ["properties", "items", "anyOf", "oneOf", "allOf", "not"])
    (hv : fields.lookup key = some v) :
    (slotNode defs stack (geminiSlot key) (path ++ "." ++ key) v).2 ⊆
      (relaxGeminiNode defs stack path (.object fields)).2 := by
  have hat : (((belowNode defs stack path fields).lookup key).map Prod.snd).getD [] =
      (slotNode defs stack (geminiSlot key) (path ++ "." ++ key) v).2 := by
    rw [lookup_below, hv]
    rfl
  rw [relax_plain h, ← hat]
  intro event hevent
  simp only [plainNode, List.mem_append]
  simp only [List.mem_cons, List.not_mem_nil, or_false] at hkey
  rcases hkey with rfl | rfl | rfl | rfl | rfl | rfl
  all_goals simp only [hevent, true_or, or_true]

/-- The path of a schema in the report. -/
def stepPath (path : String) : Step → String
  | .named key name => path ++ "." ++ key ++ "." ++ name
  | .item key i => path ++ "." ++ key ++ "[" ++ toString i ++ "]"
  | .nested key => path ++ "." ++ key

theorem isGone_slot {key : String} (h : geminiSlot key ≠ .data) (fields : Fields) :
    isGone fields key = false := by
  have hkeys : ∀ gone ∈ "$ref" :: goneKeys, geminiSlot gone = .data := by decide
  rw [isGone, Bool.or_eq_false_iff]
  constructor
  · by_contra hgone
    rw [Bool.not_eq_false, List.contains_iff_mem] at hgone
    exact h (hkeys key (List.mem_cons_of_mem _ hgone))
  · rw [Bool.and_eq_false_iff]
    refine .inl (beq_false_of_ne ?_)
    rintro rfl
    exact h (hkeys _ List.mem_cons_self)

theorem slot_followed {key : String} (h : geminiSlot key ≠ .data) :
    key ∈ ["properties", "items", "anyOf", "oneOf", "allOf", "not"] := by
  unfold geminiSlot at h
  by_contra hkey
  simp only [List.mem_cons, List.not_mem_nil, or_false, not_or] at hkey
  rw [if_neg hkey.1, if_neg hkey.2.1, if_neg (by simp [hkey]), if_neg hkey.2.2.2.2.2] at h
  exact h rfl

theorem step?_plain (h : inlineTarget? defs stack fields = none) (path : String) (step : Step) :
    step? geminiSlot (relaxGeminiNode defs stack path (.object fields)).1 step =
      if isTuple fields = true ∧ step = .nested "items" then some (.object [])
      else (step? geminiSlot (.object fields) step).map fun u =>
        (relaxGeminiNode defs stack (stepPath path step) u).1 := by
  have hitems : isTuple fields = true → fields.lookup "items" = none := by
    intro htuple
    exact Option.isNone_iff_eq_none.mp (Bool.and_eq_true_iff.mp htuple).2
  cases step with
  | named key name =>
    rw [if_neg (by simp), step?, step?]
    by_cases hslot : geminiSlot key = .named
    · have hkey : key ≠ "items" := by
        rintro rfl
        cases hslot
      rw [if_pos hslot, if_pos hslot, get?_plain h, isGone_slot (by simp [hslot]), hslot,
        if_neg Bool.false_ne_true, if_neg fun hboth => hkey hboth.2]
      change _ = Option.map _ ((fields.lookup key).bind (namedAt? · name))
      cases fields.lookup key with
      | none => rfl
      | some v => exact slotNode_named v name
    · rw [if_neg hslot, if_neg hslot]
      rfl
  | item key i =>
    rw [if_neg (by simp), step?, step?]
    by_cases hslot : geminiSlot key = .items ∨ geminiSlot key = .listed
    · rw [if_pos hslot, if_pos hslot, get?_plain h,
        isGone_slot (by rcases hslot with hslot | hslot <;> simp [hslot]),
        if_neg Bool.false_ne_true]
      change _ = Option.map _ ((fields.lookup key).bind (Value.nth? · i))
      split
      · rename_i hboth
        rw [hboth.2, hitems hboth.1]
        rfl
      · cases fields.lookup key with
        | none => rfl
        | some v => exact slotNode_item hslot v i
    · rw [if_neg hslot, if_neg hslot]
      rfl
  | nested key =>
    rw [step?, step?]
    by_cases hslot : geminiSlot key = .items ∨ geminiSlot key = .nested
    · rw [if_pos hslot, if_pos hslot, get?_plain h,
        isGone_slot (by rcases hslot with hslot | hslot <;> simp [hslot]),
        if_neg Bool.false_ne_true]
      by_cases hboth : isTuple fields = true ∧ key = "items"
      · rw [if_pos hboth, if_pos ⟨hboth.1, by rw [hboth.2]⟩]
        rfl
      · rw [if_neg hboth, if_neg fun hstep => hboth ⟨hstep.1, by simpa using hstep.2⟩]
        change _ = Option.map _ ((fields.lookup key).filter Value.isObject)
        cases fields.lookup key with
        | none => rfl
        | some v => exact slotNode_filter hslot v
    · have hitem : ¬(isTuple fields = true ∧ Step.nested key = .nested "items") := by
        rintro ⟨_, hstep⟩
        rw [Step.nested.inj hstep] at hslot
        exact hslot (.inl rfl)
      rw [if_neg hslot, if_neg hslot, if_neg hitem]
      rfl

theorem report_plain (h : inlineTarget? defs stack fields = none) {step : Step} {u : Value}
    (hstep : step? geminiSlot (.object fields) step = some u) (path : String) :
    (relaxGeminiNode defs stack (stepPath path step) u).2 ⊆
      (relaxGeminiNode defs stack path (.object fields)).2 := by
  cases step with
  | named key name =>
    rw [step?] at hstep
    split at hstep
    · rename_i hslot
      obtain ⟨v, hv, hname⟩ := Option.bind_eq_some_iff.mp hstep
      have hpart := report_slot path h (slot_followed (by simp [hslot])) hv
      rw [hslot] at hpart
      exact List.Subset.trans (report_named hname) hpart
    · cases hstep
  | item key i =>
    rw [step?] at hstep
    split at hstep
    · rename_i hslot
      obtain ⟨v, hv, hitem⟩ := Option.bind_eq_some_iff.mp hstep
      have hkey : geminiSlot key ≠ .data := by rcases hslot with hslot | hslot <;> simp [hslot]
      exact List.Subset.trans (report_item hslot hitem) (report_slot path h (slot_followed hkey) hv)
    · cases hstep
  | nested key =>
    rw [step?] at hstep
    split at hstep
    · rename_i hslot
      obtain ⟨hv, hobject⟩ := Option.filter_eq_some_iff.mp hstep
      have hkey : geminiSlot key ≠ .data := by rcases hslot with hslot | hslot <;> simp [hslot]
      have hpart := report_slot path h (slot_followed hkey) hv
      cases u with
      | object below =>
        rw [slotNode_nested hslot] at hpart
        exact hpart
      | _ => cases hobject
    · cases hstep

end Wiremux.RelaxedNodes
