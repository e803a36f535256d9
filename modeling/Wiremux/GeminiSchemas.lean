import Wiremux.SchemaWalks
import Wiremux.StreamEvents

set_option autoImplicit false

/-!
# Schemas for Gemini

Gemini takes a part of JSON schema. A local ref is replaced by its definition; a ref
to a definition that is being replaced is dropped. What has no slot is dropped too,
and reported.
-/
namespace Wiremux.GeminiSchemas
open JsonValue Losses SchemaWalks

abbrev Fields : Type := List (String × Value)

/-- The kinds of the keywords that are followed. -/
def geminiSlot (key : String) : Slot :=
  if key = "properties" then .named
  else if key = "items" then .items
  else if ["anyOf", "oneOf", "allOf"].contains key then .listed
  else if key = "not" then .nested
  else .data

def fieldsAt (schema : Value) (key : String) : Fields :=
  match schema.get? key with
  | some (.object fields) => fields
  | _ => []

/-- The definitions; the first of a name is the one that counts. -/
def schemaDefs (schema : Value) : Fields := fieldsAt schema "$defs" ++ fieldsAt schema "definitions"

def stripPrefix? (lead text : String) : Option String :=
  if lead.toList.isPrefixOf text.toList then some (String.ofList (text.toList.drop lead.length))
  else none

def localRefName (reference : String) : Option String :=
  ((stripPrefix? "#/$defs/" reference).orElse fun _ =>
    stripPrefix? "#/definitions/" reference).filter fun name =>
      !name.isEmpty && !name.toList.contains '/'

def refOf (fields : Fields) : Option String := (fields.lookup "$ref").bind Value.asStr?

variable (defs : Fields) (stack : List String)

/-- The definition that a node becomes. -/
def inlineTarget? (fields : Fields) : Option (String × Fields) :=
  ((refOf fields).bind localRefName).bind fun name =>
    if name ∈ stack then none
    else
      match defs.lookup name with
      | some (.object map) => some (name, map)
      | _ => none

def refDetail (reference : String) : String :=
  match localRefName reference with
  | none => "schema ref has no Gemini slot"
  | some name =>
    if name ∈ stack then "recursive schema ref has no Gemini slot"
    else "unresolved schema ref has no Gemini slot"

def dropKey (key : String) (fields : Fields) : Fields := fields.filter fun f => f.1 ≠ key

/-- The node without its ref, and the keys of the definition that it has not. -/
def mergeDefinition (fields map : Fields) : Fields :=
  dropKey "$ref" fields ++
    map.filter fun f => ((dropKey "$ref" fields).lookup f.1).isNone

/-- A key that is dropped, with its report. -/
def dropped (path : String) (fields : Fields) (key detail : String) : LossReport :=
  if (fields.lookup key).isSome then record [] (path ++ "." ++ key) .drop detail else []

/-- The keys that go from a node that is not replaced. -/
def goneKeys : List String :=
  ["prefixItems", "$schema", "exclusiveMinimum", "exclusiveMaximum", "additionalProperties", "$defs",
    "definitions"]

def isGone (fields : Fields) (key : String) : Bool :=
  goneKeys.contains key || (key == "$ref" && (refOf fields).isSome)

/-- A node with what is below it: the value and the report of each field. -/
def plainNode (path : String) (fields : Fields) (below : List (String × (Value × LossReport))) :
    Value × LossReport :=
  let relaxed : Fields := below.map fun f => (f.1, f.2.1)
  let listed : Fields :=
    if (fields.lookup "prefixItems").isSome && (fields.lookup "items").isNone then
      Value.insertField "items" (.object []) relaxed
    else relaxed
  let reportAt (key : String) : LossReport := ((below.lookup key).map Prod.snd).getD []
  (.object (listed.filter fun f => !isGone fields f.1),
    ((refOf fields).map fun reference =>
        (⟨path ++ ".$ref", .drop, refDetail stack reference⟩ : LossEvent)).toList ++
      dropped path fields "prefixItems" "prefixItems has no Gemini slot" ++
      dropped path fields "$schema" "$schema has no Gemini slot" ++
      dropped path fields "exclusiveMinimum" "exclusive bound has no Gemini slot" ++
      dropped path fields "exclusiveMaximum" "exclusive bound has no Gemini slot" ++
      reportAt "properties" ++ reportAt "items" ++ reportAt "anyOf" ++ reportAt "oneOf" ++
      reportAt "allOf" ++
      dropped path fields "additionalProperties" "additionalProperties has no Gemini slot" ++
      reportAt "not")

variable (inline : ∀ fields name map, inlineTarget? defs stack fields = some (name, map) →
  String → Value × LossReport)

def objectNode (path : String) (fields : Fields) (below : List (String × (Value × LossReport))) :
    Value × LossReport :=
  match h : inlineTarget? defs stack fields with
  | some (name, map) => inline fields name map h path
  | none => plainNode stack path fields below

mutual
/-- A schema under one stack; replaced nodes are left to `inline`. -/
def relaxIn (path : String) : Value → Value × LossReport
  | .object fields => objectNode defs stack inline path fields (relaxFields path fields)
  | .array list => (.array list, [])
  | .string text => (.string text, [])
  | .number n => (.number n, [])
  | .bool b => (.bool b, [])
  | .null => (.null, [])

def relaxFields (path : String) : Fields → List (String × (Value × LossReport))
  | [] => []
  | (key, v) :: rest =>
    (key, relaxSlot (geminiSlot key) (path ++ "." ++ key) v) :: relaxFields path rest

def relaxSlot : Slot → String → Value → Value × LossReport
  | .named, path, .object fields =>
    let below := relaxNamed path fields
    (.object (below.map fun f => (f.1, f.2.1)), below.flatMap fun f => f.2.2)
  | .items, path, .array list =>
    let below := relaxList path 0 list
    (.array (below.map Prod.fst), below.flatMap Prod.snd)
  | .listed, path, .array list =>
    let below := relaxList path 0 list
    (.array (below.map Prod.fst), below.flatMap Prod.snd)
  | .items, path, .object fields => objectNode defs stack inline path fields (relaxFields path fields)
  | .nested, path, .object fields => objectNode defs stack inline path fields (relaxFields path fields)
  | _, _, v => (v, [])

def relaxNamed (path : String) : Fields → List (String × (Value × LossReport))
  | [] => []
  | (name, v) :: rest => (name, relaxIn (path ++ "." ++ name) v) :: relaxNamed path rest

def relaxList (path : String) (index : ℕ) : List Value → List (Value × LossReport)
  | [] => []
  | v :: rest =>
    relaxIn (path ++ "[" ++ toString index ++ "]") v :: relaxList path (index + 1) rest
end

def free : ℕ := (defs.filter fun d => d.1 ∉ stack).length

variable {defs stack}

theorem inlineTarget?_some {fields map : Fields} {name : String}
    (h : inlineTarget? defs stack fields = some (name, map)) :
    (refOf fields).bind localRefName = some name ∧ name ∉ stack ∧
      defs.lookup name = some (.object map) := by
  obtain ⟨found, hfound, hout⟩ := Option.bind_eq_some_iff.mp h
  split at hout
  · cases hout
  · rename_i hfree
    split at hout
    · rename_i hlookup
      cases hout
      exact ⟨hfound, hfree, hlookup⟩
    · cases hout

theorem mem_of_lookup {fields : Fields} {key : String} {v : Value}
    (h : fields.lookup key = some v) : (key, v) ∈ fields := by
  obtain ⟨front, back, hsplit, _⟩ := List.lookup_eq_some_iff.mp h
  rw [hsplit]
  exact List.mem_append_right _ List.mem_cons_self

theorem free_lt {fields map : Fields} {name : String}
    (h : inlineTarget? defs stack fields = some (name, map)) : free defs (name :: stack) < free defs stack := by
  obtain ⟨_, hfree, hlookup⟩ := inlineTarget?_some h
  have hmem : (name, Value.object map) ∈ defs.filter fun d => d.1 ∉ stack :=
    List.mem_filter.mpr ⟨mem_of_lookup hlookup, by simpa using hfree⟩
  have hfewer : defs.filter (fun d => d.1 ∉ name :: stack) =
      (defs.filter fun d => d.1 ∉ stack).filter fun d => d.1 ≠ name := by
    rw [List.filter_filter]
    congr 1
    funext d
    simp [List.mem_cons, not_or]
  unfold free
  rw [hfewer]
  exact List.length_filter_lt_length_iff_exists.mpr ⟨_, hmem, by simp⟩

def relaxGeminiNode (defs : Fields) (stack : List String) (path : String) (schema : Value) :
    Value × LossReport :=
  relaxIn defs stack (fun fields name map _ path =>
    relaxGeminiNode defs (name :: stack) path (.object (mergeDefinition fields map))) path schema
termination_by free defs stack
decreasing_by exact free_lt ‹_›

/-- The relaxed schema and what the report gains. -/
def relaxGeminiSchema (schema : Value) (path : String) : Value × LossReport :=
  relaxGeminiNode (schemaDefs schema) [] path schema

end Wiremux.GeminiSchemas
