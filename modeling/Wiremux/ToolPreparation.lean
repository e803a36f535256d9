import Mathlib.Data.List.Basic
import Wiremux.Completion
import Wiremux.StreamEvents

set_option autoImplicit false

/-!
# Preparing the tools of a request

`prepare_tools` turns the tools of a request into tools of a wire: it applies the
case of the profile, flattens namespaces and keeps what the policy passes through.
-/
namespace Wiremux.ToolPreparation
open JsonValue StreamEvents Completion

inductive ToolTypePolicy where
  | passthrough
  | flattenNamespace
  | hardError
deriving DecidableEq

inductive ToolNameCase where
  | asIs
  | snake
  | kebab
deriving DecidableEq

structure CharCase where
  isUppercase : Char → Bool
  toLowercase : Char → List Char

section
variable (cc : CharCase)

def convertChar (sep : Char) (out : List Char) (p : Char × ℕ) : List Char :=
  if p.1 = '-' ∨ p.1 = '_' then out ++ [sep]
  else if cc.isUppercase p.1 then
    (if 0 < p.2 ∧ out.getLast? ≠ some sep ∧ out.getLast? ≠ some '.' then out ++ [sep] else out) ++
      cc.toLowercase p.1
  else out ++ [p.1]

def convertCase (name : String) (sep : Char) : String :=
  String.ofList (name.toList.zipIdx.foldl (convertChar cc sep) [])

def applyToolNameCase (case : Option ToolNameCase) (name : String) : String :=
  match case with
  | some .snake => convertCase cc name '_'
  | some .kebab => convertCase cc name '-'
  | _ => name

end

structure FunctionTool where
  name : String
  description : String
  parameters : Value
  strict : Option Bool

inductive IrTool where
  | function (f : FunctionTool)
  | namespaceTool (name : String) (raw : Value)
  | hosted (kind : String) (raw : Value)
  | cachePoint (raw : Value)
  | unknown (typeName : String) (raw : Value)

/-- Tool ready for an encoder. -/
inductive PreparedTool where
  | function (f : FunctionTool)
  | raw (value : Value)

def wireName : Wire → String
  | .chatCompletions => "chat-completions"
  | .messages => "messages"
  | .responses => "responses"
  | .gemini => "gemini"
  | .converse => "converse"

def emptySchema : Value := .object [("type", "object"), ("properties", .object [])]

def namespaceRaw (name : String) (raw : Value) : Value :=
  let obj := (if raw.isObject then raw else .object []).insert "type" "namespace"
  if name.isEmpty then obj else obj.insert "name" name

def childTool (name path : String) (child : Value) : Except MapError FunctionTool :=
  match child.strAt? "name" with
  | none => .error (.hardError path "namespace child missing name")
  | some leaf => .ok {
      name := name ++ "." ++ leaf
      description := (child.strAt? "description").getD ""
      parameters := ((child.get? "parameters").or (child.get? "input_schema")).getD emptySchema
      strict := (child.get? "strict").bind Value.asBool? }

def childTools (name path : String) : List Value → Except MapError (List FunctionTool)
  | [] => .ok []
  | child :: rest =>
    match childTool name path child with
    | .error e => .error e
    | .ok f => (childTools name path rest).map fun more => f :: more

def flattenNamespace (name : String) (raw : Value) (path : String) :
    Except MapError (List FunctionTool) :=
  match (raw.get? "tools").bind Value.asArray? with
  | none => .error (.hardError path "namespace has no flatten table (tools[])")
  | some tools =>
    match childTools name path tools with
    | .error e => .error e
    | .ok [] => .error (.hardError path "namespace flatten table is empty")
    | .ok out => .ok out

section
variable (cc : CharCase) (wire : Wire) (policy : ToolTypePolicy) (case : Option ToolNameCase)

def renamed (f : FunctionTool) : FunctionTool := { f with name := applyToolNameCase cc case f.name }

def pushNamespace (name : String) (raw : Value) (path : String) :
    Except MapError (List PreparedTool) :=
  match policy with
  | .passthrough => .ok [.raw raw]
  | .flattenNamespace =>
    (flattenNamespace name raw path).map fun flat => flat.map fun f => .function (renamed cc case f)
  | .hardError =>
    if wire = .responses then .ok [.raw (namespaceRaw name raw)]
    else .error (.hardError path "type=namespace is not silent-stripped; hard-error (set tool_type_policy = flatten-namespace to flatten)")

def pushCustomTool (raw : Value) (path : String) : Except MapError (List PreparedTool) :=
  let name := (raw.strAt? "name").getD ""
  if isBlank name then .error (.hardError path "custom tool name is empty")
  else if wire = .chatCompletions ∨ wire = .responses then .ok [.raw raw]
  else .ok [.function {
    name := applyToolNameCase cc case name
    description := (raw.strAt? "description").getD ""
    parameters := emptySchema
    strict := none }]

def pushHosted (kind : String) (raw : Value) (path : String) : Except MapError (List PreparedTool) :=
  if policy = .passthrough ∨ wire = .responses then .ok [.raw raw]
  else .error (.hardError path
    ("hosted tool `" ++ kind ++ "` has no slot on `" ++ wireName wire ++ "`"))

def prepareTool (path : String) : IrTool → Except MapError (List PreparedTool)
  | .function f =>
    if isBlank f.name then .error (.hardError path "function tool name is empty")
    else .ok [.function (renamed cc case f)]
  | .namespaceTool name raw => pushNamespace cc wire policy case name raw path
  | .hosted kind raw => pushHosted wire policy kind raw path
  | .cachePoint raw => .ok (if wire = .converse then [.raw (.object [("cachePoint", raw)])] else [])
  | .unknown typeName raw =>
    if typeName = "systemTool" then
      .ok (if wire = .converse ∧ raw.isObject then [.raw (.object [("systemTool", raw)])] else [])
    else if typeName = "custom" then pushCustomTool cc wire case raw path
    else if policy = .passthrough then .ok [.raw raw]
    else .error (.hardError path ("unknown tool type `" ++ typeName ++
      "` (tool_type_policy = passthrough|flatten-namespace|hard-error)"))

/-- The tools of a request, each with what it becomes; `idx` is the place of the first. -/
def prepareFrom (idx : ℕ) : List IrTool → Except MapError (List (IrTool × List PreparedTool))
  | [] => .ok []
  | tool :: rest =>
    match prepareTool cc wire policy case ("tools[" ++ toString idx ++ "]") tool with
    | .error e => .error e
    | .ok prepared => (prepareFrom (idx + 1) rest).map fun more => (tool, prepared) :: more

end

def geminiBuiltinToolKeys : List String :=
  ["googleSearch", "codeExecution", "googleSearchRetrieval", "urlContext", "googleMaps",
    "enterpriseWebSearch", "computerUse"]

def isGeminiBuiltinTool (value : Value) : Bool :=
  geminiBuiltinToolKeys.any fun key => (value.get? key).isSome

/-- A function tool as the wire has it; `schema` is the wire's form of the parameters. -/
def encodeFunctionTool (schema : Option Bool → Value → Value) (wire : Wire) (f : FunctionTool) :
    Value :=
  let parameters := schema f.strict f.parameters
  let strict := f.strict.map .bool
  match wire with
  | .chatCompletions => .object [("type", "function"),
      ("function", (Value.object [("name", f.name), ("description", f.description),
        ("parameters", parameters)]).insertSome "strict" strict)]
  | .messages => .object [("name", f.name), ("description", f.description),
      ("input_schema", parameters)]
  | .gemini => .object [("name", f.name), ("description", f.description),
      ("parameters", parameters)]
  | .responses => (Value.object [("type", "function"), ("name", f.name),
      ("description", f.description), ("parameters", parameters)]).insertSome "strict" strict
  | .converse => .object [("toolSpec", (Value.object [("name", f.name),
      ("description", f.description),
      ("inputSchema", .object [("json", parameters)])]).insertSome "strict" strict)]

def keptRaw (wire : Wire) (value : Value) : Bool :=
  match wire with
  | .gemini => isGeminiBuiltinTool value
  | _ => true

def functionNamePath : Wire → List String
  | .chatCompletions => ["function", "name"]
  | .messages => ["name"]
  | .gemini => ["name"]
  | .responses => ["name"]
  | .converse => ["toolSpec", "name"]

theorem encodeFunctionTool_name (schema : Option Bool → Value → Value) (wire : Wire) (f : FunctionTool) :
    pointer? (encodeFunctionTool schema wire f) (functionNamePath wire) = some (.string f.name) := by
  cases wire with
  | chatCompletions =>
    change pointer? ((Value.object [("name", f.name), ("description", f.description),
      ("parameters", schema f.strict f.parameters)]).insertSome "strict" (f.strict.map .bool))
      ["name"] = _
    rw [pointer?, Value.get?_insertSome_of_ne _ _ (by decide)]
    rfl
  | responses =>
    rw [encodeFunctionTool, functionNamePath, pointer?]
    rw [Value.get?_insertSome_of_ne _ _ (by decide)]
    rfl
  | converse =>
    change pointer? ((Value.object [("name", f.name), ("description", f.description),
      ("inputSchema", .object [("json", schema f.strict f.parameters)])]).insertSome "strict"
      (f.strict.map .bool)) ["name"] = _
    rw [pointer?, Value.get?_insertSome_of_ne _ _ (by decide)]
    rfl
  | _ => rfl

end Wiremux.ToolPreparation
