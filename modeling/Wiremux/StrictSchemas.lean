import Wiremux.SchemaWalks

set_option autoImplicit false

/-!
# Strict schemas

A strict tool has every object schema closed: no further properties, and every
property required. The schemas are first filled with the keys that object schemas need.
-/
namespace Wiremux.StrictSchemas
open JsonValue SchemaWalks

def isObjectNode (fields : List (String × Value)) : Bool :=
  (fields.lookup "type").bind Value.asStr? == some "object" || (fields.lookup "properties").isSome

def fillObject : Edit := fun fields =>
  if isObjectNode fields then
    let filled :=
      match fields.lookup "required" with
      | some (.array _) => fields
      | _ => Value.insertField "required" (.array []) fields
    if (fields.lookup "properties").isSome then filled
    else Value.insertField "properties" (.object []) filled
  else
    match fields.lookup "required" with
    | some .null => Value.insertField "required" (.array []) fields
    | _ => fields

def fillObjectSchema (schema : Value) : Value := walk fillObject schema

def normalizeObjectSchemaRequired (schema : Value) : Value := fillObjectSchema schema

def propertyNames (fields : List (String × Value)) : List String :=
  ((fields.lookup "properties").bind namesOf).getD []

def closeObject (closeAdditional : Bool) : Edit := fun fields =>
  if isObjectNode fields then
    let closed :=
      if closeAdditional then Value.insertField "additionalProperties" (.bool false) fields else fields
    if (propertyNames closed).isEmpty then closed
    else Value.insertField "required" (.array ((propertyNames closed).map .string)) closed
  else fields

def closeObjects (schema : Value) (closeAdditional : Bool) : Value :=
  walk (closeObject closeAdditional) schema

def strictObjectSchema (schema : Value) : Value := closeObjects schema true

/-- The parameters of a strict tool. -/
def strictParameters (schema : Value) : Value :=
  strictObjectSchema (normalizeObjectSchemaRequired schema)

variable {g : Slot → Value → Value} {fields : List (String × Value)}

theorem lookup_data (h : Tame g) (key : String) (hkey : slotOf key = .data) :
    (mapFields g fields).lookup key = fields.lookup key := by
  rw [lookup_mapFields, hkey]
  cases fields.lookup key with
  | none => rfl
  | some v => exact congrArg some (h.data v)

theorem isSome_mapFields (key : String) :
    ((mapFields g fields).lookup key).isSome = (fields.lookup key).isSome := by
  rw [lookup_mapFields, Option.isSome_map]

theorem isObjectNode_mapFields (h : Tame g) :
    isObjectNode (mapFields g fields) = isObjectNode fields := by
  rw [isObjectNode, isObjectNode, lookup_data h "type" rfl, isSome_mapFields]

theorem propertyNames_mapFields (h : Tame g) :
    propertyNames (mapFields g fields) = propertyNames fields := by
  have hslot : slotOf "properties" = .named := rfl
  rw [propertyNames, propertyNames, lookup_mapFields, hslot]
  cases fields.lookup "properties" with
  | none => rfl
  | some v =>
    simp only [Option.map_some, Option.bind_some]
    rw [h.names]

theorem insert_required (h : Tame g) (x : Value) (fields : List (String × Value)) :
    Value.insertField "required" x (mapFields g fields) =
      mapFields g (Value.insertField "required" x fields) := by
  have hslot : slotOf "required" = .data := rfl
  rw [mapFields_insertField, hslot, h.data]

theorem insert_properties (h : Tame g) (fields : List (String × Value)) :
    Value.insertField "properties" (.object []) (mapFields g fields) =
      mapFields g (Value.insertField "properties" (.object []) fields) := by
  have hslot : slotOf "properties" = .named := rfl
  rw [mapFields_insertField, hslot, h.empty]

theorem insert_additional (h : Tame g) (fields : List (String × Value)) :
    Value.insertField "additionalProperties" (.bool false) (mapFields g fields) =
      mapFields g (Value.insertField "additionalProperties" (.bool false) fields) := by
  have hslot : slotOf "additionalProperties" = .nested := rfl
  rw [mapFields_insertField, hslot, h.closed]

theorem natural_fillObject : Natural fillObject := by
  intro g h fields
  unfold fillObject
  simp only
  rw [isObjectNode_mapFields h, lookup_data h "required" rfl, isSome_mapFields]
  by_cases hnode : isObjectNode fields = true
  · rw [if_pos hnode, if_pos hnode]
    by_cases hproperties : (fields.lookup "properties").isSome = true
    · rw [if_pos hproperties, if_pos hproperties]
      split
      · rfl
      · exact insert_required h _ fields
    · rw [if_neg hproperties, if_neg hproperties, ← insert_properties h]
      congr 1
      split
      · rfl
      · exact insert_required h _ fields
  · rw [if_neg hnode, if_neg hnode]
    split
    · exact insert_required h _ fields
    · rfl

theorem natural_closeObject (closeAdditional : Bool) : Natural (closeObject closeAdditional) := by
  intro g h fields
  have hclosed : (if closeAdditional then
        Value.insertField "additionalProperties" (.bool false) (mapFields g fields)
      else mapFields g fields) =
      mapFields g (if closeAdditional then
        Value.insertField "additionalProperties" (.bool false) fields else fields) := by
    cases closeAdditional with
    | true => exact insert_additional h fields
    | false => rfl
  unfold closeObject
  simp only
  rw [isObjectNode_mapFields h, hclosed, propertyNames_mapFields h]
  by_cases hnode : isObjectNode fields = true
  · rw [if_pos hnode, if_pos hnode]
    by_cases hempty : (propertyNames (if closeAdditional then
        Value.insertField "additionalProperties" (.bool false) fields else fields)).isEmpty = true
    · rw [if_pos hempty, if_pos hempty]
    · rw [if_neg hempty, if_neg hempty]
      exact insert_required h _ _
  · rw [if_neg hnode, if_neg hnode]

def leftover (fields : List (String × Value)) : List Value :=
  match fields.lookup "required" with
  | some (.array names) => names
  | _ => []

structure Filled (given fields : List (String × Value)) : Prop where
  required : fields.lookup "required" = some (.array (leftover given))
  properties : fields.lookup "properties" = some ((given.lookup "properties").getD (.object []))
  others : ∀ key, key ≠ "required" → key ≠ "properties" → fields.lookup key = given.lookup key

theorem filled_required (fields : List (String × Value)) :
    let filled := match fields.lookup "required" with
      | some (.array _) => fields
      | _ => Value.insertField "required" (.array []) fields
    filled.lookup "required" = some (.array (leftover fields)) ∧
      ∀ key, key ≠ "required" → filled.lookup key = fields.lookup key := by
  have hinsert : (Value.insertField "required" (.array []) fields).lookup "required" =
      some (.array []) := Value.lookup_insertField_self _ _ fields
  have hothers : ∀ key, key ≠ "required" →
      (Value.insertField "required" (.array []) fields).lookup key = fields.lookup key :=
    fun key hkey => Value.lookup_insertField_of_ne _ hkey fields
  unfold leftover
  split
  · rename_i names hnames
    exact ⟨hnames, fun _ _ => rfl⟩
  · exact ⟨hinsert, hothers⟩

theorem fillObject_node (h : isObjectNode fields = true) : Filled fields (fillObject fields) := by
  obtain ⟨hrequired, hothers⟩ := filled_required fields
  unfold fillObject
  rw [if_pos h]
  simp only
  by_cases hproperties : (fields.lookup "properties").isSome = true
  · rw [if_pos hproperties]
    obtain ⟨v, hv⟩ := Option.isSome_iff_exists.mp hproperties
    refine ⟨hrequired, ?_, fun key hkey _ => hothers key hkey⟩
    rw [hothers _ (by decide), hv]
    rfl
  · rw [if_neg hproperties]
    have hnone := Option.not_isSome_iff_eq_none.mp hproperties
    refine ⟨?_, ?_, fun key hkey hne => ?_⟩
    · rw [Value.lookup_insertField_of_ne _ (by decide)]
      exact hrequired
    · rw [Value.lookup_insertField_self, hnone]
      rfl
    · rw [Value.lookup_insertField_of_ne _ hne]
      exact hothers key hkey

theorem Filled.node {given : List (String × Value)} (h : Filled given fields) :
    isObjectNode fields = true := by
  rw [isObjectNode, h.properties]
  simp

theorem fillObject_idle {names : List Value} {v : Value}
    (hrequired : fields.lookup "required" = some (.array names))
    (hproperties : fields.lookup "properties" = some v) : fillObject fields = fields := by
  have hnode : isObjectNode fields = true := by
    rw [isObjectNode, hproperties]
    simp
  unfold fillObject
  rw [if_pos hnode, hrequired, hproperties]
  rfl

/-- What a closed object schema requires: its properties, or the list it came with. -/
def requiredNames (given : List (String × Value)) : List Value :=
  if (propertyNames given).isEmpty then leftover given else (propertyNames given).map .string

structure Closed (given fields : List (String × Value)) : Prop where
  additional : fields.lookup "additionalProperties" = some (.bool false)
  required : fields.lookup "required" = some (.array (requiredNames given))
  properties : fields.lookup "properties" = some ((given.lookup "properties").getD (.object []))
  others : ∀ key, key ∉ ["required", "properties", "additionalProperties"] →
    fields.lookup key = given.lookup key

def strictEdit : Edit := closeObject true ∘ fillObject

theorem propertyNames_of_lookup {given : List (String × Value)}
    (h : fields.lookup "properties" = some ((given.lookup "properties").getD (.object []))) :
    propertyNames fields = propertyNames given := by
  rw [propertyNames, propertyNames, h]
  cases given.lookup "properties" <;> rfl

theorem strictEdit_node (h : isObjectNode fields = true) : Closed fields (strictEdit fields) := by
  have hfilled := fillObject_node h
  have hadditional := Value.lookup_insertField_self "additionalProperties" (.bool false) (fillObject fields)
  have hothers : ∀ key, key ≠ "additionalProperties" →
      (Value.insertField "additionalProperties" (.bool false) (fillObject fields)).lookup key =
        (fillObject fields).lookup key :=
    fun key hkey => Value.lookup_insertField_of_ne _ hkey _
  have hnames : propertyNames (Value.insertField "additionalProperties" (.bool false) (fillObject fields)) =
      propertyNames fields :=
    propertyNames_of_lookup ((hothers _ (by decide)).trans hfilled.properties)
  unfold strictEdit closeObject
  simp only [Function.comp_apply, if_true]
  rw [if_pos hfilled.node, hnames]
  by_cases hempty : (propertyNames fields).isEmpty = true
  · rw [if_pos hempty]
    refine ⟨hadditional, ?_, (hothers _ (by decide)).trans hfilled.properties, fun key hkey => ?_⟩
    · rw [hothers _ (by decide), hfilled.required, requiredNames, if_pos hempty]
    · simp only [List.mem_cons, List.not_mem_nil, or_false, not_or] at hkey
      rw [hothers key hkey.2.2, hfilled.others key hkey.1 hkey.2.1]
  · rw [if_neg hempty]
    refine ⟨?_, ?_, ?_, fun key hkey => ?_⟩
    · rw [Value.lookup_insertField_of_ne _ (by decide)]
      exact hadditional
    · rw [Value.lookup_insertField_self, requiredNames, if_neg hempty]
    · rw [Value.lookup_insertField_of_ne _ (by decide), hothers _ (by decide)]
      exact hfilled.properties
    · simp only [List.mem_cons, List.not_mem_nil, or_false, not_or] at hkey
      rw [Value.lookup_insertField_of_ne _ hkey.1, hothers key hkey.2.2,
        hfilled.others key hkey.1 hkey.2.1]

theorem strictEdit_other (h : ¬isObjectNode fields = true) :
    isObjectNode (strictEdit fields) = false ∧ strictEdit fields = fillObject fields ∧
      ∀ key, key ≠ "required" → (strictEdit fields).lookup key = fields.lookup key := by
  have hothers : ∀ key, key ≠ "required" → (fillObject fields).lookup key = fields.lookup key := by
    intro key hkey
    unfold fillObject
    rw [if_neg h]
    split
    · exact Value.lookup_insertField_of_ne _ hkey fields
    · rfl
  have hnode : isObjectNode (fillObject fields) = false := by
    rw [isObjectNode, hothers _ (by decide), hothers _ (by decide)]
    exact Bool.eq_false_iff.mpr h
  have hedit : strictEdit fields = fillObject fields := by
    unfold strictEdit closeObject
    rw [Function.comp_apply, if_neg (by simp [hnode])]
  rw [hedit]
  exact ⟨hnode, rfl, hothers⟩

theorem strictEdit_idem (fields : List (String × Value)) :
    strictEdit (strictEdit fields) = strictEdit fields := by
  by_cases h : isObjectNode fields = true
  · have hclosed := strictEdit_node h
    have hnames := propertyNames_of_lookup hclosed.properties
    have hnode : isObjectNode (strictEdit fields) = true := by
      rw [isObjectNode, hclosed.properties]
      simp
    have hfill : fillObject (strictEdit fields) = strictEdit fields :=
      fillObject_idle hclosed.required hclosed.properties
    have hfirst : strictEdit (strictEdit fields) = closeObject true (strictEdit fields) :=
      congrArg (closeObject true) hfill
    rw [hfirst]
    unfold closeObject
    simp only [if_true]
    rw [if_pos hnode, Value.insertField_of_lookup hclosed.additional, hnames]
    by_cases hempty : (propertyNames fields).isEmpty = true
    · rw [if_pos hempty]
    · rw [if_neg hempty]
      apply Value.insertField_of_lookup
      rw [hclosed.required, requiredNames, if_neg hempty]
  · obtain ⟨hnode, hedit, _⟩ := strictEdit_other h
    obtain ⟨_, hagain, _⟩ := strictEdit_other (Bool.eq_false_iff.mp hnode)
    rw [hagain, hedit]
    rw [hedit] at hnode
    have hsettled : (fillObject fields).lookup "required" ≠ some .null := by
      unfold fillObject
      rw [if_neg h]
      split
      · rw [Value.lookup_insertField_self]
        simp
      · rename_i hrequired
        exact fun hnull => hrequired hnull
    rw [fillObject, if_neg (Bool.eq_false_iff.mp hnode)]
    split
    · rename_i hnull
      exact absurd hnull hsettled
    · rfl

/-- The type is `object`, or there are properties. -/
def isObjectSchema (v : Value) : Bool :=
  v.strAt? "type" == some "object" || (v.get? "properties").isSome

def cutStep (v : Value) (step : Step) : Bool :=
  decide (step = .nested "additionalProperties") && isObjectSchema v

def cut : Value → List Step → Bool
  | _, [] => false
  | v, step :: rest => cutStep v step || (step? slotOf v step).any fun u => cut u rest

theorem strictParameters_walk (v : Value) : strictParameters v = walk strictEdit v :=
  walk_walk natural_fillObject v

theorem natural_strictEdit : Natural strictEdit := by
  intro g h fields
  have hfill := natural_fillObject g h fields
  have hclose := natural_closeObject true g h (fillObject fields)
  exact (congrArg (closeObject true) hfill).trans hclose

theorem strictParameters_object (fields : List (String × Value)) :
    strictParameters (.object fields) =
      .object (mapFields (walkSlot strictEdit) (strictEdit fields)) := by
  rw [strictParameters_walk, walk_object natural_strictEdit, walkFields_eq]

theorem get?_strict (fields : List (String × Value)) (key : String) :
    (strictParameters (.object fields)).get? key =
      ((strictEdit fields).lookup key).map (walkSlot strictEdit (slotOf key)) := by
  rw [strictParameters_object]
  exact lookup_mapFields _ key

theorem lookup_strictEdit {key : String} (h : key ≠ "required") :
    (strictEdit fields).lookup key =
      if isObjectNode fields = true then
        if key = "additionalProperties" then some (.bool false)
        else if key = "properties" then some ((fields.lookup "properties").getD (.object []))
        else fields.lookup key
      else fields.lookup key := by
  by_cases hnode : isObjectNode fields = true
  · have hclosed := strictEdit_node hnode
    rw [if_pos hnode]
    by_cases hadditional : key = "additionalProperties"
    · rw [if_pos hadditional, hadditional, hclosed.additional]
    · rw [if_neg hadditional]
      by_cases hproperties : key = "properties"
      · rw [if_pos hproperties, hproperties, hclosed.properties]
      · rw [if_neg hproperties]
        exact hclosed.others key (by simp [h, hadditional, hproperties])
  · rw [if_neg hnode]
    exact (strictEdit_other hnode).2.2 key h

theorem slot_ne {key other : String} (h : slotOf key ≠ slotOf other) : key ≠ other :=
  fun heq => h (congrArg slotOf heq)

theorem namedAt?_walkSlot (v : Value) (name : String) :
    namedAt? (walkSlot strictEdit .named v) name = (namedAt? v name).map (walk strictEdit) := by
  cases v with
  | object named => exact lookup_walkNamed named name
  | _ => rfl

theorem nth?_walkSlot {slot : Slot} (h : slot = .items ∨ slot = .listed) (v : Value) (i : ℕ) :
    (walkSlot strictEdit slot v).nth? i = (v.nth? i).map (walk strictEdit) := by
  rcases h with rfl | rfl
  · cases v with
    | array list =>
      rw [walkSlot, walkList_eq]
      exact List.getElem?_map
    | _ => rfl
  · cases v with
    | array list =>
      rw [walkSlot, walkList_eq]
      exact List.getElem?_map
    | _ => rfl

theorem filter_walkSlot {slot : Slot} (h : slot = .items ∨ slot = .nested) (v : Value) :
    (some (walkSlot strictEdit slot v)).filter Value.isObject =
      ((some v).filter Value.isObject).map (walk strictEdit) := by
  rcases h with rfl | rfl
  · cases v <;> rfl
  · cases v <;> rfl

theorem strictParameters_eq : strictParameters = walk strictEdit := funext strictParameters_walk

theorem step?_strict_named (fields : List (String × Value)) (key name : String) :
    step? slotOf (strictParameters (.object fields)) (.named key name) =
      (step? slotOf (.object fields) (.named key name)).map strictParameters := by
  rw [step?, step?]
  by_cases hslot : slotOf key = .named
  · have hrequired : key ≠ "required" := slot_ne (by rw [hslot]; decide)
    have hadditional : key ≠ "additionalProperties" := slot_ne (by rw [hslot]; decide)
    rw [if_pos hslot, if_pos hslot, get?_strict, hslot, lookup_strictEdit hrequired,
      if_neg hadditional, strictParameters_eq]
    have hplain : ((fields.lookup key).map (walkSlot strictEdit .named)).bind (namedAt? · name) =
        ((fields.lookup key).bind (namedAt? · name)).map (walk strictEdit) := by
      cases fields.lookup key with
      | none => rfl
      | some v => exact namedAt?_walkSlot v name
    split
    · split
      · rename_i hproperties
        subst hproperties
        cases hfound : fields.lookup "properties" with
        | none =>
          have hnone : (Value.object fields).get? "properties" = none := hfound
          rw [hnone]
          rfl
        | some v =>
          have hsome : (Value.object fields).get? "properties" = some v := hfound
          rw [hsome]
          exact namedAt?_walkSlot v name
      · exact hplain
    · exact hplain
  · rw [if_neg hslot, if_neg hslot]
    rfl

theorem step?_strict_item (fields : List (String × Value)) (key : String) (i : ℕ) :
    step? slotOf (strictParameters (.object fields)) (.item key i) =
      (step? slotOf (.object fields) (.item key i)).map strictParameters := by
  rw [step?, step?]
  by_cases hslot : slotOf key = .items ∨ slotOf key = .listed
  · have hne (other : String) (hother : slotOf other ≠ .items ∧ slotOf other ≠ .listed) :
        key ≠ other := by
      rintro rfl
      exact hslot.elim hother.1 hother.2
    rw [if_pos hslot, if_pos hslot, get?_strict, lookup_strictEdit (hne _ (by decide)),
      if_neg (hne "additionalProperties" (by decide)), if_neg (hne "properties" (by decide)),
      ite_self, strictParameters_eq]
    change _ = ((fields.lookup key).bind (Value.nth? · i)).map (walk strictEdit)
    cases fields.lookup key with
    | none => rfl
    | some v => exact nth?_walkSlot hslot v i
  · rw [if_neg hslot, if_neg hslot]
    rfl

theorem step?_strict_nested (fields : List (String × Value)) (key : String) :
    step? slotOf (strictParameters (.object fields)) (.nested key) =
      if cutStep (.object fields) (.nested key) then none
      else (step? slotOf (.object fields) (.nested key)).map strictParameters := by
  rw [step?, step?]
  by_cases hslot : slotOf key = .items ∨ slotOf key = .nested
  · have hne (other : String) (hother : slotOf other ≠ .items ∧ slotOf other ≠ .nested) :
        key ≠ other := by
      rintro rfl
      exact hslot.elim hother.1 hother.2
    have hplain : ((fields.lookup key).map (walkSlot strictEdit (slotOf key))).filter Value.isObject =
        ((fields.lookup key).filter Value.isObject).map (walk strictEdit) := by
      cases fields.lookup key with
      | none => rfl
      | some v => exact filter_walkSlot hslot v
    rw [if_pos hslot, if_pos hslot, get?_strict, lookup_strictEdit (hne _ (by decide)),
      if_neg (hne "properties" (by decide)), strictParameters_eq]
    have hcut : cutStep (.object fields) (.nested key) =
        (decide (key = "additionalProperties") && isObjectNode fields) := by
      unfold cutStep
      congr 1
      simp
    rw [hcut]
    by_cases hnode : isObjectNode fields = true
    · rw [if_pos hnode, hnode, Bool.and_true]
      by_cases hkey : key = "additionalProperties"
      · rw [if_pos hkey, if_pos (decide_eq_true hkey), hkey]
        rfl
      · rw [if_neg hkey, if_neg (by simpa using hkey)]
        exact hplain
    · rw [if_neg hnode, Bool.eq_false_iff.mpr hnode, Bool.and_false, if_neg Bool.false_ne_true]
      exact hplain
  · rw [if_neg hslot, if_neg hslot]
    split <;> rfl

theorem step?_strict (v : Value) (step : Step) : step? slotOf (strictParameters v) step =
    if cutStep v step then none else (step? slotOf v step).map strictParameters := by
  cases v with
  | object fields =>
    cases step with
    | named key name =>
      have hcut : cutStep (.object fields) (.named key name) = false := rfl
      rw [hcut]
      exact step?_strict_named fields key name
    | item key i =>
      have hcut : cutStep (.object fields) (.item key i) = false := rfl
      rw [hcut]
      exact step?_strict_item fields key i
    | nested key => exact step?_strict_nested fields key
  | _ =>
    have hnone (u : Value) (h : ∀ key, u.get? key = none) : step? slotOf u step = none := by
      cases step <;> simp [step?, h]
    rw [strictParameters_walk, hnone _ fun _ => rfl, hnone _ fun _ => rfl]
    split <;> rfl

/-- A place is kept where no object schema on the way was closed against it. -/
theorem at?_strict (v : Value) (path : List Step) : at? slotOf (strictParameters v) path =
    if cut v path then none else (at? slotOf v path).map strictParameters := by
  induction path generalizing v with
  | nil => rfl
  | cons step rest ih =>
    rw [at?, step?_strict, at?, cut]
    by_cases hstep : cutStep v step = true
    · rw [if_pos hstep, hstep]
      rfl
    · rw [if_neg hstep, Bool.eq_false_iff.mpr hstep, Bool.false_or]
      cases step? slotOf v step with
      | none => simp
      | some u => exact ih u

def propertyKeys (v : Value) : List String := ((v.get? "properties").bind namesOf).getD []

/-- The list `required` of a schema, if it has one. -/
def requiredList (v : Value) : List Value := ((v.get? "required").bind Value.asArray?).getD []

/-- An object schema is closed: no further properties, each property required, and the list
it came with where it has none. -/
structure ClosedSchema (given node : Value) : Prop where
  additional : node.get? "additionalProperties" = some (.bool false)
  required : node.get? "required" = some (.array
    (if (propertyKeys node).isEmpty then requiredList given else (propertyKeys node).map .string))

/-- A keyword that holds no schema and is not rewritten. -/
def isData (key : String) : Prop := slotOf key = .data ∧ key ≠ "required"

theorem isObjectSchema_strict (v : Value) : isObjectSchema (strictParameters v) = isObjectSchema v := by
  cases v with
  | object fields =>
    have hnode : isObjectNode (strictEdit fields) = isObjectNode fields := by
      by_cases h : isObjectNode fields = true
      · rw [h, isObjectNode, (strictEdit_node h).properties]
        simp
      · rw [(strictEdit_other h).1, Bool.eq_false_iff.mpr h]
    rw [strictParameters_object]
    exact (isObjectNode_mapFields (tame_walkSlot strictEdit)).trans hnode
  | _ => rfl

theorem leftover_eq (fields : List (String × Value)) :
    leftover fields = requiredList (.object fields) := by
  rw [leftover, requiredList, Value.get?]
  cases fields.lookup "required" with
  | none => rfl
  | some v => cases v <;> rfl

theorem propertyKeys_strict (fields : List (String × Value)) (h : isObjectNode fields = true) :
    propertyKeys (strictParameters (.object fields)) = propertyNames fields := by
  rw [strictParameters_object]
  exact (propertyNames_mapFields (tame_walkSlot strictEdit)).trans
    (propertyNames_of_lookup (strictEdit_node h).properties)

theorem closed_strict {v : Value} (h : isObjectSchema v = true) :
    ClosedSchema v (strictParameters v) := by
  cases v with
  | object fields =>
    have hclosed := strictEdit_node h
    constructor
    · rw [get?_strict, hclosed.additional]
      rfl
    · rw [get?_strict, hclosed.required, propertyKeys_strict fields h, requiredNames, leftover_eq]
      rfl
  | _ => cases h

theorem data_strict {key : String} (h : isData key) (v : Value) :
    (strictParameters v).get? key = v.get? key := by
  cases v with
  | object fields =>
    have hadditional : key ≠ "additionalProperties" := slot_ne (by rw [h.1]; decide)
    have hproperties : key ≠ "properties" := slot_ne (by rw [h.1]; decide)
    rw [get?_strict, lookup_strictEdit h.2, if_neg hadditional, if_neg hproperties, ite_self, h.1]
    cases hvalue : fields.lookup key with
    | none => exact hvalue.symm
    | some x => exact (congrArg some ((tame_walkSlot strictEdit).data x)).trans hvalue.symm
  | _ => rfl

theorem strictParameters_idem (schema : Value) :
    strictParameters (strictParameters schema) = strictParameters schema := by
  have honce : strictEdit ∘ strictEdit = strictEdit := funext strictEdit_idem
  rw [strictParameters_walk, strictParameters_walk, walk_walk natural_strictEdit, honce]

/-- After both walks every object schema is closed, the data of a schema is what it was, and
the walks change nothing more. -/
theorem strict_schema_closed (schema : Value) :
    (∀ path, at? slotOf (strictParameters schema) path =
      if cut schema path then none else (at? slotOf schema path).map strictParameters) ∧
    (∀ path node, at? slotOf (strictParameters schema) path = some node →
      ∃ given, at? slotOf schema path = some given ∧
        (isObjectSchema node = true → ClosedSchema given node) ∧
        ∀ key, isData key → node.get? key = given.get? key) ∧
    strictParameters (strictParameters schema) = strictParameters schema := by
  refine ⟨at?_strict schema, ?_, strictParameters_idem schema⟩
  intro path node hnode
  rw [at?_strict] at hnode
  split at hnode
  · cases hnode
  · obtain ⟨given, hgiven, rfl⟩ := Option.map_eq_some_iff.mp hnode
    refine ⟨given, hgiven, fun hobject => ?_, fun key hkey => data_strict hkey given⟩
    rw [isObjectSchema_strict] at hobject
    exact closed_strict hobject

/-- `{"type":"object","required":["a"]}` has no property, and requires `a` all the same. -/
theorem leftover_required_kept : ¬ ∀ (schema : Value) (path : List Step) (node : Value),
    at? slotOf (strictParameters schema) path = some node → isObjectSchema node = true →
      node.get? "required" = some (.array ((propertyKeys node).map .string)) := by
  intro hall
  have hrequired := hall (.object [("type", "object"), ("required", .array ["a"])]) [] _ rfl (by decide)
  cases hrequired

end Wiremux.StrictSchemas
