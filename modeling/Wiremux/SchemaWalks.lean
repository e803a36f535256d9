import Wiremux.JsonValue

set_option autoImplicit false

/-!
# Walks over the schemas in a schema

A walk edits every object that stands where a JSON schema may stand, at any depth.
The edits of a node and the walk below it commute when the edit does not look at what
the walk changes; then two walks are one.
-/
namespace Wiremux.SchemaWalks
open JsonValue

/-- What stands at a keyword: schemas by name, one or several schemas, a list of schemas,
a schema if it is an object, or data. -/
inductive Slot where
  | named
  | items
  | listed
  | nested
  | data
deriving DecidableEq

def slotOf (key : String) : Slot :=
  if ["properties", "$defs", "definitions"].contains key then .named
  else if key = "items" then .items
  else if ["anyOf", "oneOf", "allOf", "prefixItems"].contains key then .listed
  else if ["additionalProperties", "not"].contains key then .nested
  else .data

/-- A schema in a schema: by its name, by its place in a list, or alone. -/
inductive Step where
  | named (key name : String)
  | item (key : String) (i : ℕ)
  | nested (key : String)
deriving DecidableEq

def namedAt? (v : Value) (name : String) : Option Value :=
  match v with
  | .object named => named.lookup name
  | _ => none

/-- One step, by the kinds of the keywords. -/
def step? (slots : String → Slot) (v : Value) : Step → Option Value
  | .named key name => if slots key = .named then (v.get? key).bind (namedAt? · name) else none
  | .item key i =>
    if slots key = .items ∨ slots key = .listed then (v.get? key).bind (Value.nth? · i) else none
  | .nested key =>
    if slots key = .items ∨ slots key = .nested then (v.get? key).filter Value.isObject else none

def at? (slots : String → Slot) : Value → List Step → Option Value
  | v, [] => some v
  | v, step :: rest => (step? slots v step).bind fun u => at? slots u rest

abbrev Edit : Type := List (String × Value) → List (String × Value)

variable (edit : Edit)

mutual
def walk : Value → Value
  | .object fields => .object (edit (walkFields fields))
  | .array list => .array list
  | .string text => .string text
  | .number n => .number n
  | .bool b => .bool b
  | .null => .null

def walkFields : List (String × Value) → List (String × Value)
  | [] => []
  | (key, v) :: rest => (key, walkSlot (slotOf key) v) :: walkFields rest

def walkSlot : Slot → Value → Value
  | .named, .object fields => .object (walkNamed fields)
  | .items, .array list => .array (walkList list)
  | .items, .object fields => .object (edit (walkFields fields))
  | .listed, .array list => .array (walkList list)
  | .nested, .object fields => .object (edit (walkFields fields))
  | _, v => v

def walkNamed : List (String × Value) → List (String × Value)
  | [] => []
  | (name, v) :: rest => (name, walk v) :: walkNamed rest

def walkList : List Value → List Value
  | [] => []
  | v :: rest => walk v :: walkList rest
end

def mapFields (g : Slot → Value → Value) (fields : List (String × Value)) : List (String × Value) :=
  fields.map fun f => (f.1, g (slotOf f.1) f.2)

variable {edit} {g : Slot → Value → Value} {fields : List (String × Value)}

theorem walkFields_eq (fields : List (String × Value)) :
    walkFields edit fields = mapFields (walkSlot edit) fields := by
  induction fields with
  | nil => rfl
  | cons f rest ih =>
    obtain ⟨key, v⟩ := f
    rw [walkFields, ih]
    rfl

theorem lookup_mapFields (fields : List (String × Value)) (key : String) :
    (mapFields g fields).lookup key = (fields.lookup key).map (g (slotOf key)) := by
  induction fields with
  | nil => rfl
  | cons f rest ih =>
    obtain ⟨k, v⟩ := f
    change List.lookup key ((k, g (slotOf k) v) :: mapFields g rest) = _
    rw [List.lookup_cons, List.lookup_cons]
    cases hkey : key == k with
    | true =>
      rw [beq_iff_eq.mp hkey]
      rfl
    | false => exact ih

theorem mapFields_insertField (key : String) (x : Value) (fields : List (String × Value)) :
    mapFields g (Value.insertField key x fields) =
      Value.insertField key (g (slotOf key) x) (mapFields g fields) := by
  induction fields with
  | nil => rfl
  | cons f rest ih =>
    obtain ⟨k, v⟩ := f
    unfold Value.insertField mapFields
    by_cases hk : k = key
    · rw [if_pos hk]
      simp [hk]
    · rw [if_neg hk]
      simp only [List.map_cons]
      rw [if_neg hk]
      exact congrArg _ ih

theorem lookup_walkNamed (named : List (String × Value)) (name : String) :
    (walkNamed edit named).lookup name = (named.lookup name).map (walk edit) := by
  induction named with
  | nil => rfl
  | cons f rest ih =>
    obtain ⟨k, v⟩ := f
    rw [walkNamed, List.lookup_cons, List.lookup_cons]
    cases name == k with
    | true => rfl
    | false => exact ih

theorem names_walkNamed (named : List (String × Value)) :
    (walkNamed edit named).map Prod.fst = named.map Prod.fst := by
  induction named with
  | nil => rfl
  | cons f rest ih =>
    obtain ⟨k, v⟩ := f
    rw [walkNamed, List.map_cons, ih]
    rfl

theorem walkList_eq (list : List Value) : walkList edit list = list.map (walk edit) := by
  induction list with
  | nil => rfl
  | cons v rest ih => rw [walkList, ih, List.map_cons]

def namesOf : Value → Option (List String)
  | .object named => some (named.map Prod.fst)
  | _ => none

/-- What an edit reads and writes stays: data, the names of schemas, no schemas, and `false`. -/
structure Tame (g : Slot → Value → Value) : Prop where
  data : ∀ v, g .data v = v
  names : ∀ v, namesOf (g .named v) = namesOf v
  empty : g .named (.object []) = .object []
  closed : g .nested (.bool false) = .bool false

theorem tame_walkSlot (edit : Edit) : Tame (walkSlot edit) where
  data v := by cases v <;> rfl
  names v := by
    cases v with
    | object named =>
      rw [walkSlot, namesOf, names_walkNamed]
      rfl
    | _ => rfl
  empty := rfl
  closed := rfl

def Natural (edit : Edit) : Prop :=
  ∀ g, Tame g → ∀ fields, edit (mapFields g fields) = mapFields g (edit fields)

theorem walk_object (h : Natural edit) (fields : List (String × Value)) :
    walk edit (.object fields) = .object (walkFields edit (edit fields)) := by
  rw [walk, walkFields_eq, walkFields_eq, h _ (tame_walkSlot edit)]

variable {first second : Edit}

theorem walk_walk_object (h : Natural first)
    (hfields : walkFields second (walkFields first fields) = walkFields (second ∘ first) fields) :
    second (walkFields second (first (walkFields first fields))) =
      (second ∘ first) (walkFields (second ∘ first) fields) := by
  rw [walkFields_eq (first _), ← h _ (tame_walkSlot second), ← walkFields_eq, hfields]
  rfl

/-! Two walks are one walk; one case for each kind of value and slot. -/

mutual
theorem walk_walk (h : Natural first) : ∀ v, walk second (walk first v) = walk (second ∘ first) v
  | .object fields => congrArg Value.object (walk_walk_object h (walkFields_walk h fields))
  | .array _ => rfl
  | .string _ => rfl
  | .number _ => rfl
  | .bool _ => rfl
  | .null => rfl

theorem walkFields_walk (h : Natural first) : ∀ fields,
    walkFields second (walkFields first fields) = walkFields (second ∘ first) fields
  | [] => rfl
  | (key, v) :: rest => by
    rw [walkFields, walkFields, walkFields, walkSlot_walk h (slotOf key) v, walkFields_walk h rest]

theorem walkSlot_walk (h : Natural first) : ∀ slot v,
    walkSlot second slot (walkSlot first slot v) = walkSlot (second ∘ first) slot v
  | .named, .object fields => congrArg Value.object (walkNamed_walk h fields)
  | .items, .object fields => congrArg Value.object (walk_walk_object h (walkFields_walk h fields))
  | .nested, .object fields => congrArg Value.object (walk_walk_object h (walkFields_walk h fields))
  | .items, .array list => congrArg Value.array (walkList_walk h list)
  | .listed, .array list => congrArg Value.array (walkList_walk h list)
  | .named, .array _ => rfl
  | .named, .string _ => rfl
  | .named, .number _ => rfl
  | .named, .bool _ => rfl
  | .named, .null => rfl
  | .items, .string _ => rfl
  | .items, .number _ => rfl
  | .items, .bool _ => rfl
  | .items, .null => rfl
  | .listed, .object _ => rfl
  | .listed, .string _ => rfl
  | .listed, .number _ => rfl
  | .listed, .bool _ => rfl
  | .listed, .null => rfl
  | .nested, .array _ => rfl
  | .nested, .string _ => rfl
  | .nested, .number _ => rfl
  | .nested, .bool _ => rfl
  | .nested, .null => rfl
  | .data, v => by cases v <;> rfl

theorem walkNamed_walk (h : Natural first) : ∀ named,
    walkNamed second (walkNamed first named) = walkNamed (second ∘ first) named
  | [] => rfl
  | (name, v) :: rest => by
    rw [walkNamed, walkNamed, walkNamed, walk_walk h v, walkNamed_walk h rest]

theorem walkList_walk (h : Natural first) : ∀ list,
    walkList second (walkList first list) = walkList (second ∘ first) list
  | [] => rfl
  | v :: rest => by rw [walkList, walkList, walkList, walk_walk h v, walkList_walk h rest]
end

end Wiremux.SchemaWalks
