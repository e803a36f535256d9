import Wiremux.ChatDecoding
import Wiremux.ToolPreparation

set_option autoImplicit false

/-!
# The names of the tools in one request

The tools of a request are renamed where they are prepared. The choice of a tool and
the earlier calls keep the name they have; only Responses splits the name of a call.
-/
namespace Wiremux.ToolNames
open JsonValue StreamEvents Completion ToolPreparation ChatDecoding

inductive IrToolChoice where
  | auto
  | none
  | required
  | named (name : String)

/-- An earlier call: a function call or a custom tool call. -/
structure IrCall where
  name : String
  custom : Bool

/-- What a request has that decides the names in its body. -/
structure IrRequest where
  model : String
  tools : List IrTool
  calls : List IrCall
  toolChoice : IrToolChoice
  includeThoughts : Option Bool
  reasoningEffort : Option String
  maxReasoningTokens : Option ℕ
  thinkingBudget : Option ℕ
  messagesThinking : Option Value

/-- By which a body refers to a tool. -/
inductive ToolRef where
  | plain (name : String)
  | nested (ns leaf : String)
deriving DecidableEq

/-- A thinking object of the client that is sent as it is. -/
def isNativeThinking (thinking : Value) : Bool :=
  (thinking.strAt? "type").any fun kind => trim kind = "adaptive" || trim kind = "between_tools"

def thinkingEnabled (ir : IrRequest) : Bool :=
  !(ir.messagesThinking.any isNativeThinking) && ir.includeThoughts ≠ some false &&
    (ir.includeThoughts = some true || (ir.reasoningEffort.any fun effort => !isBlank effort) ||
      ir.maxReasoningTokens.isSome || ir.thinkingBudget.isSome)

/-- One `anthropic.` provider marker, or one region label in front of it. -/
def anthropicProviderRest (id : List Char) : Option (List Char) :=
  match splitOnce "anthropic.".toList id with
  | none => none
  | some (front, rest) =>
    if front.isEmpty then some rest
    else if front.getLast? ≠ some '.' then none
    else if front.dropLast.isEmpty || front.dropLast.contains '.' then none
    else some rest

def messagesModelStem (model : String) : String :=
  let segment := trim (String.ofList ((model.toList.splitOn '/').getLast?.getD model.toList))
  let id := segment.toList.map asciiLowerChar
  let id := (anthropicProviderRest id).getD id
  match splitOnce "@".toList id with
  | some (stem, _) => trim (String.ofList stem)
  | none => String.ofList id

def forcedToolRejectingFamilies : List String :=
  ["claude-opus-5-5", "claude-sonnet-5-5", "claude-fable-5-1", "claude-mythos-5-1"]

def rejectsForcedToolChoice (model : String) : Bool :=
  let stem := (messagesModelStem model).toList
  forcedToolRejectingFamilies.any fun family =>
    stem = family.toList || (family.toList.isPrefixOf stem &&
      (stem.drop family.length).head? = some '-')

/-- On Messages thinking and some models turn a named choice into `auto`. -/
def forcesAuto (wire : Wire) (ir : IrRequest) : Bool :=
  wire = .messages && (thinkingEnabled ir || rejectsForcedToolChoice ir.model)

/-- The tool that `tool_choice` names. Converse has no choice without tools. -/
def choiceRef (wire : Wire) (ir : IrRequest) (prepared : List (IrTool × List PreparedTool)) :
    Option ToolRef :=
  match ir.toolChoice with
  | .named name =>
    if forcesAuto wire ir || (wire = .converse && prepared.all fun p => p.2.isEmpty) then none
    else some (.plain name)
  | _ => none

def splitNamespaceName (name : String) : Option (String × String) :=
  match splitOnce ".".toList name.toList with
  | some (ns, leaf) => if ns.isEmpty || leaf.isEmpty then none
      else some (String.ofList ns, String.ofList leaf)
  | none => none

/-- `encode_function_call` restores a namespace; every other call keeps its name. -/
def callRef (wire : Wire) (policy : ToolTypePolicy) (call : IrCall) : ToolRef :=
  if wire = .responses ∧ policy = .hardError ∧ call.custom = false then
    match splitNamespaceName call.name with
    | some (ns, leaf) => .nested ns leaf
    | none => .plain call.name
  else .plain call.name

def childNames (raw : Value) : List String :=
  (items (raw.get? "tools")).filterMap fun child => child.strAt? "name"

/-- The names that the request has for a tool; a child of a namespace is dotted. -/
def irNames : IrTool → List String
  | .function f => [f.name]
  | .namespaceTool name raw => (childNames raw).map fun leaf => name ++ "." ++ leaf
  | .unknown typeName raw => if typeName = "custom" then [(raw.strAt? "name").getD ""] else []
  | .hosted _ _ => []
  | .cachePoint _ => []

section
variable (schema : Option Bool → Value → Value) (wire : Wire)

def toolRefs (tool : IrTool) : PreparedTool → List ToolRef
  | .function f =>
    ((pointer? (encodeFunctionTool schema wire f) (functionNamePath wire)).bind Value.asStr?).toList.map
      .plain
  | .raw value =>
    if keptRaw wire value then
      match tool with
      | .namespaceTool _ _ => (childNames value).map (.nested ((value.strAt? "name").getD ""))
      | _ => [.plain ((value.strAt? "name").getD "")]
    else []

/-- Each name of a tool with its reference. A Converse body without a choice has no tools. -/
def adverts (ir : IrRequest) (p : IrTool × List PreparedTool) : List (String × ToolRef) :=
  match wire, ir.toolChoice with
  | .converse, .none => []
  | _, _ => (irNames p.1).zip (p.2.flatMap (toolRefs schema wire p.1))

/-- The names of a body agree: those of the choice, of the earlier calls and of the tools. -/
structure NamesAgree (policy : ToolTypePolicy) (ir : IrRequest)
    (prepared : List (IrTool × List PreparedTool)) : Prop where
  choice : ∀ p ∈ prepared, ∀ name ∈ irNames p.1, ir.toolChoice = .named name →
    (∃ ref, (name, ref) ∈ adverts schema wire ir p) ∧
      ∀ ref, (name, ref) ∈ adverts schema wire ir p → choiceRef wire ir prepared = some ref
  calls : ∀ call ∈ ir.calls, ∀ p ∈ prepared, ∀ ref,
    (call.name, ref) ∈ adverts schema wire ir p → callRef wire policy call = ref
  distinct : ∀ p ∈ prepared, ∀ q ∈ prepared, ∀ a ∈ adverts schema wire ir p,
    ∀ b ∈ adverts schema wire ir q, a.1 ≠ b.1 → a.2 ≠ b.2

end

section
variable (cc : CharCase) (wire : Wire) (policy : ToolTypePolicy) (case : Option ToolNameCase)

def nestedRefs (name ns : String) (raw : Value) : List (String × ToolRef) :=
  (childNames raw).map fun leaf => (name ++ "." ++ leaf, .nested ns leaf)

/-- The references of a tool: all names go through the case of the profile but those of
custom tools on Chat and Responses and those of a namespace sent whole. -/
def sentRefs : IrTool → List (String × ToolRef)
  | .function f => [(f.name, .plain (applyToolNameCase cc case f.name))]
  | .namespaceTool name raw =>
    match policy with
    | .flattenNamespace => (childNames raw).map fun leaf =>
        (name ++ "." ++ leaf, .plain (applyToolNameCase cc case (name ++ "." ++ leaf)))
    | .passthrough =>
      if keptRaw wire raw then nestedRefs name ((raw.strAt? "name").getD "") raw else []
    | .hardError =>
      nestedRefs name (if name.isEmpty then (raw.strAt? "name").getD "" else name) raw
  | .unknown typeName raw =>
    let name := (raw.strAt? "name").getD ""
    if typeName = "custom" then [(name, .plain (if wire = .chatCompletions ∨ wire = .responses
      then name else applyToolNameCase cc case name))]
    else []
  | .hosted _ _ => []
  | .cachePoint _ => []

/-- The name of a tool reaches the body unchanged. -/
def KeepsName (tool : IrTool) (name : String) : Prop :=
  match tool with
  | .namespaceTool _ _ => policy = .flattenNamespace ∧ applyToolNameCase cc case name = name
  | .unknown _ _ => wire = .chatCompletions ∨ wire = .responses ∨ applyToolNameCase cc case name = name
  | _ => applyToolNameCase cc case name = name

def restoredName (call : IrCall) : Option (String × String) :=
  if wire = .responses ∧ policy = .hardError ∧ call.custom = false then splitNamespaceName call.name
  else none

/-- A call of this tool is written as the tool is sent: under its own name, or restored to the
namespace that is sent whole. -/
def KeepsCall (tool : IrTool) (call : IrCall) : Prop :=
  match tool with
  | .function _ =>
    restoredName wire policy call = none ∧ applyToolNameCase cc case call.name = call.name
  | .namespaceTool name raw =>
    match policy with
    | .flattenNamespace => applyToolNameCase cc case call.name = call.name
    | .passthrough => keptRaw wire raw = false
    | .hardError => ∀ leaf ∈ childNames raw, name ++ "." ++ leaf = call.name →
        restoredName wire .hardError call =
          some (if name.isEmpty then (raw.strAt? "name").getD "" else name, leaf)
  | .unknown _ _ => restoredName wire policy call = none ∧
      (wire = .chatCompletions ∨ wire = .responses ∨ applyToolNameCase cc case call.name = call.name)
  | _ => True

/-- What the body shows of a tool, from the request alone. -/
def shownRefs (ir : IrRequest) (tool : IrTool) : List (String × ToolRef) :=
  match wire, ir.toolChoice with
  | .converse, .none => []
  | _, _ => sentRefs cc wire policy case tool

/-- When the names agree: the chosen name is sent unchanged, each call has its tool's
reference, and no two names are sent as one. -/
structure NamesKept (ir : IrRequest) : Prop where
  choice : ∀ tool ∈ ir.tools, ∀ name ∈ irNames tool, ir.toolChoice = .named name →
    forcesAuto wire ir = false ∧ KeepsName cc wire policy case tool name
  calls : ∀ call ∈ ir.calls, ∀ tool ∈ ir.tools, call.name ∈ irNames tool →
    wire = .converse ∧ ir.toolChoice = .none ∨ KeepsCall cc wire policy case tool call
  distinct : ∀ tool ∈ ir.tools, ∀ other ∈ ir.tools, ∀ a ∈ shownRefs cc wire policy case ir tool,
    ∀ b ∈ shownRefs cc wire policy case ir other, a.1 ≠ b.1 → a.2 ≠ b.2

end

section
variable {cc : CharCase} {wire : Wire} {policy : ToolTypePolicy} {case : Option ToolNameCase}
  (schema : Option Bool → Value → Value)

theorem toolRefs_function (tool : IrTool) (f : FunctionTool) :
    toolRefs schema wire tool (.function f) = [.plain f.name] := by
  rw [toolRefs, encodeFunctionTool_name]
  rfl

theorem toolRefs_functions (tool : IrTool) (flat : List FunctionTool) :
    (flat.map PreparedTool.function).flatMap (toolRefs schema wire tool) =
      flat.map fun f => .plain f.name := by
  induction flat with
  | nil => rfl
  | cons f rest ih =>
    rw [List.map_cons, List.flatMap_cons, ih, toolRefs_function]
    rfl

theorem childTools_names {name path : String} {children : List Value} {out : List FunctionTool}
    (h : childTools name path children = .ok out) : out.map FunctionTool.name =
      (children.filterMap fun child => child.strAt? "name").map fun leaf => name ++ "." ++ leaf := by
  induction children generalizing out with
  | nil =>
    obtain rfl := Except.ok.inj h
    rfl
  | cons child rest ih =>
    unfold childTools childTool at h
    cases hleaf : child.strAt? "name" with
    | none =>
      rw [hleaf] at h
      cases h
    | some leaf =>
      rw [hleaf] at h
      cases hrest : childTools name path rest with
      | error e =>
        rw [hrest] at h
        cases h
      | ok more =>
        rw [hrest] at h
        obtain rfl := Except.ok.inj h
        rw [List.map_cons, List.filterMap_cons, hleaf, List.map_cons, ih hrest]

theorem flattenNamespace_names {name path : String} {raw : Value} {out : List FunctionTool}
    (h : flattenNamespace name raw path = .ok out) :
    out.map FunctionTool.name = (childNames raw).map fun leaf => name ++ "." ++ leaf := by
  unfold flattenNamespace at h
  unfold childNames items
  cases htools : (raw.get? "tools").bind Value.asArray? with
  | none =>
    rw [htools] at h
    cases h
  | some children =>
    rw [htools] at h
    cases hchildren : childTools name path children with
    | error e =>
      simp only [hchildren] at h
      cases h
    | ok tools =>
      simp only [hchildren] at h
      cases tools with
      | nil => cases h
      | cons f rest =>
        obtain rfl := Except.ok.inj h
        exact childTools_names hchildren

theorem get?_namespaceRaw_tools (name : String) (raw : Value) :
    (namespaceRaw name raw).get? "tools" = raw.get? "tools" := by
  have hobj : ((if raw.isObject then raw else .object []).insert "type" "namespace").get? "tools" =
      raw.get? "tools" := by
    rw [Value.get?_insert_of_ne _ _ (by decide)]
    cases raw <;> rfl
  unfold namespaceRaw
  simp only
  split
  · exact hobj
  · rw [Value.get?_insert_of_ne _ _ (by decide)]
    exact hobj

theorem namespaceRaw_name (name : String) (raw : Value) :
    ((namespaceRaw name raw).strAt? "name").getD "" =
      if name.isEmpty then (raw.strAt? "name").getD "" else name := by
  have hobject : ((if raw.isObject then raw else .object []).insert "type" "namespace").isObject =
      true := by
    rw [Value.isObject_insert]
    cases raw <;> rfl
  unfold namespaceRaw
  simp only
  split
  · rw [Value.strAt?, Value.get?_insert_of_ne _ _ (by decide)]
    cases raw <;> rfl
  · rw [Value.strAt?, Value.get?_insert_self _ _ hobject]
    rfl

theorem toolRefs_whole (name ns : String) (raw value : Value) (hkept : keptRaw wire value = true)
    (htools : value.get? "tools" = raw.get? "tools") (hname : (value.strAt? "name").getD "" = ns) :
    (irNames (.namespaceTool name raw)).zip
      ([PreparedTool.raw value].flatMap (toolRefs schema wire (.namespaceTool name raw))) =
        nestedRefs name ns raw := by
  have hchildren : childNames value = childNames raw := by
    unfold childNames
    rw [htools]
  rw [List.flatMap_singleton, toolRefs, if_pos hkept, hchildren, hname, irNames, nestedRefs]
  exact List.zip_map' ..

theorem namespace_refs {name path : String} {raw : Value} {prepared : List PreparedTool}
    (h : pushNamespace cc wire policy case name raw path = .ok prepared) :
    (irNames (.namespaceTool name raw)).zip
      (prepared.flatMap (toolRefs schema wire (.namespaceTool name raw))) =
        sentRefs cc wire policy case (.namespaceTool name raw) := by
  cases policy with
  | passthrough =>
    obtain rfl := Except.ok.inj h
    rw [sentRefs]
    split
    · rename_i hkept
      exact toolRefs_whole schema name _ raw raw hkept rfl rfl
    · rename_i hdropped
      rw [List.flatMap_singleton, toolRefs, if_neg hdropped, List.zip_nil_right]
  | flattenNamespace =>
    rw [pushNamespace] at h
    cases hflat : flattenNamespace name raw path with
    | error e =>
      rw [hflat] at h
      cases h
    | ok flat =>
      rw [hflat] at h
      obtain rfl := Except.ok.inj h
      have hnames := flattenNamespace_names hflat
      have hrefs : (flat.map fun f => PreparedTool.function (renamed cc case f)).flatMap
          (toolRefs schema wire (.namespaceTool name raw)) = (childNames raw).map fun leaf =>
            .plain (applyToolNameCase cc case (name ++ "." ++ leaf)) := by
        have hmap := @toolRefs_functions wire schema (.namespaceTool name raw)
          (flat.map (renamed cc case))
        rw [List.map_map, List.map_map] at hmap
        have hplain : flat.map (fun f => ToolRef.plain (applyToolNameCase cc case f.name)) =
            ((childNames raw).map fun leaf => name ++ "." ++ leaf).map fun n =>
              .plain (applyToolNameCase cc case n) := by
          rw [← hnames, List.map_map]
          rfl
        rw [List.map_map] at hplain
        exact hmap.trans hplain
      rw [hrefs, irNames, sentRefs]
      exact List.zip_map' ..
  | hardError =>
    rw [pushNamespace] at h
    split at h
    · rename_i hwire
      obtain rfl := Except.ok.inj h
      exact toolRefs_whole schema name _ raw (namespaceRaw name raw) (hwire ▸ rfl)
        (get?_namespaceRaw_tools name raw) (namespaceRaw_name name raw)
    · cases h

theorem custom_refs {path : String} {raw : Value} {prepared : List PreparedTool}
    (h : pushCustomTool cc wire case raw path = .ok prepared) :
    (irNames (.unknown "custom" raw)).zip
      (prepared.flatMap (toolRefs schema wire (.unknown "custom" raw))) =
        sentRefs cc wire policy case (.unknown "custom" raw) := by
  unfold pushCustomTool at h
  simp only at h
  split at h
  · cases h
  · split at h
    · rename_i hwire
      obtain rfl := Except.ok.inj h
      have hkept : keptRaw wire raw = true := by
        rcases hwire with rfl | rfl <;> rfl
      have hrefs : toolRefs schema wire (.unknown "custom" raw) (.raw raw) =
          [.plain ((raw.strAt? "name").getD "")] := by
        change (if keptRaw wire raw then _ else _) = _
        exact if_pos hkept
      rw [List.flatMap_singleton, hrefs, sentRefs, if_pos rfl, if_pos hwire]
      rfl
    · rename_i hwire
      obtain rfl := Except.ok.inj h
      rw [List.flatMap_singleton, toolRefs_function, sentRefs, if_pos rfl, if_neg hwire]
      rfl

theorem prepareTool_refs {path : String} {tool : IrTool} {prepared : List PreparedTool}
    (h : prepareTool cc wire policy case path tool = .ok prepared) :
    (irNames tool).zip (prepared.flatMap (toolRefs schema wire tool)) =
      sentRefs cc wire policy case tool := by
  cases tool with
  | function f =>
    rw [prepareTool] at h
    split at h
    · cases h
    · obtain rfl := Except.ok.inj h
      rw [List.flatMap_singleton, toolRefs_function]
      rfl
  | namespaceTool name raw => exact namespace_refs schema h
  | unknown typeName raw =>
    by_cases hcustom : typeName = "custom"
    · subst hcustom
      rw [prepareTool, if_neg (by decide), if_pos rfl] at h
      exact custom_refs schema h
    · rw [irNames, if_neg hcustom, sentRefs, if_neg hcustom, List.zip_nil_left]
  | hosted kind raw => exact List.zip_nil_left
  | cachePoint raw => exact List.zip_nil_left

theorem prepareFrom_tools {idx : ℕ} {tools : List IrTool}
    {prepared : List (IrTool × List PreparedTool)}
    (h : prepareFrom cc wire policy case idx tools = .ok prepared) :
    prepared.map Prod.fst = tools ∧ ∀ p ∈ prepared,
      (irNames p.1).zip (p.2.flatMap (toolRefs schema wire p.1)) =
        sentRefs cc wire policy case p.1 := by
  induction tools generalizing idx prepared with
  | nil =>
    obtain rfl := Except.ok.inj h
    exact ⟨rfl, fun p hp => (List.not_mem_nil hp).elim⟩
  | cons tool rest ih =>
    rw [prepareFrom] at h
    split at h
    · cases h
    · rename_i one hone
      cases hrest : prepareFrom cc wire policy case (idx + 1) rest with
      | error e =>
        rw [hrest] at h
        cases h
      | ok more =>
        rw [hrest] at h
        obtain rfl := Except.ok.inj h
        obtain ⟨hmap, hrefs⟩ := ih hrest
        refine ⟨by rw [List.map_cons, hmap], fun p hp => ?_⟩
        rcases List.mem_cons.mp hp with rfl | hp
        · exact prepareTool_refs schema hone
        · exact hrefs p hp

theorem mem_nestedRefs {name ns n : String} {raw : Value} {ref : ToolRef} :
    (n, ref) ∈ nestedRefs name ns raw ↔
      ∃ leaf ∈ childNames raw, name ++ "." ++ leaf = n ∧ ToolRef.nested ns leaf = ref := by
  unfold nestedRefs
  simp only [List.mem_map, Prod.mk.injEq]

/-- A name is kept exactly when the tool is sent under it, and under nothing else. -/
theorem keepsName_iff {tool : IrTool} {name : String} (hname : name ∈ irNames tool) :
    KeepsName cc wire policy case tool name ↔
      (∃ ref, (name, ref) ∈ sentRefs cc wire policy case tool) ∧
        ∀ ref, (name, ref) ∈ sentRefs cc wire policy case tool → ref = .plain name := by
  have hsingle : ∀ sent : String, ((∃ ref, (name, ref) ∈ [(name, ToolRef.plain sent)]) ∧
      ∀ ref, (name, ref) ∈ [(name, ToolRef.plain sent)] → ref = .plain name) ↔ sent = name := by
    intro sent
    simp
  have hwhole : ∀ ns raw ns', (∃ leaf ∈ childNames raw, ns ++ "." ++ leaf = name) →
      ¬ ∀ ref, (name, ref) ∈ nestedRefs ns ns' raw → ref = .plain name := by
    rintro ns raw ns' ⟨leaf, hleaf, heq⟩ hall
    have hnested := hall _ (mem_nestedRefs.mpr ⟨leaf, hleaf, heq, rfl⟩)
    cases hnested
  cases tool with
  | function f =>
    obtain rfl := List.mem_singleton.mp hname
    exact (hsingle _).symm
  | namespaceTool ns raw =>
    have hchild : ∃ leaf ∈ childNames raw, ns ++ "." ++ leaf = name := List.mem_map.mp hname
    cases policy with
    | passthrough =>
      refine iff_of_false (fun h => by cases h.1) ?_
      rw [sentRefs]
      split
      · exact fun h => hwhole ns raw _ hchild h.2
      · rintro ⟨⟨ref, href⟩, _⟩
        cases href
    | flattenNamespace =>
      have hmem : ∀ ref, (name, ref) ∈ sentRefs cc wire .flattenNamespace case (.namespaceTool ns raw) ↔
          ToolRef.plain (applyToolNameCase cc case name) = ref := by
        intro ref
        rw [sentRefs]
        simp only [List.mem_map, Prod.mk.injEq]
        constructor
        · rintro ⟨leaf, _, rfl, href⟩
          exact href
        · rintro rfl
          obtain ⟨leaf, hleaf, rfl⟩ := hchild
          exact ⟨leaf, hleaf, rfl, rfl⟩
      constructor
      · rintro ⟨_, hcase⟩
        refine ⟨⟨_, (hmem _).mpr rfl⟩, fun ref href => ?_⟩
        rw [← (hmem ref).mp href, hcase]
      · rintro ⟨_, hall⟩
        exact ⟨rfl, ToolRef.plain.inj (hall _ ((hmem _).mpr rfl))⟩
    | hardError => exact iff_of_false (fun h => by cases h.1) fun h => hwhole ns raw _ hchild h.2
  | unknown typeName raw =>
    by_cases hcustom : typeName = "custom"
    · subst hcustom
      rw [irNames, if_pos rfl] at hname
      obtain rfl := List.mem_singleton.mp hname
      rw [sentRefs, if_pos rfl, hsingle, KeepsName]
      split
      · rename_i hwire
        exact iff_of_true (by rcases hwire with h | h <;> simp [h]) rfl
      · rename_i hwire
        push Not at hwire
        exact ⟨fun h => (h.resolve_left hwire.1).resolve_left hwire.2, fun h => .inr (.inr h)⟩
    · rw [irNames, if_neg hcustom] at hname
      cases hname
  | hosted kind raw => cases hname
  | cachePoint raw => cases hname

theorem callRef_eq (call : IrCall) : callRef wire policy call =
    match restoredName wire policy call with
    | some (ns, leaf) => .nested ns leaf
    | none => .plain call.name := by
  unfold callRef restoredName
  split <;> rfl

theorem callRef_plain {call : IrCall} {name : String} : callRef wire policy call = .plain name ↔
    restoredName wire policy call = none ∧ call.name = name := by
  rw [callRef_eq]
  cases restoredName wire policy call with
  | none => simp
  | some parts => simp

theorem callRef_nested {call : IrCall} {ns leaf : String} :
    callRef wire policy call = .nested ns leaf ↔ restoredName wire policy call = some (ns, leaf) := by
  rw [callRef_eq]
  cases restoredName wire policy call with
  | none => simp
  | some parts => simp [Prod.ext_iff]

theorem single_iff {call : IrCall} (sent : String) :
    (∀ ref, (call.name, ref) ∈ [(call.name, ToolRef.plain sent)] → callRef wire policy call = ref) ↔
      restoredName wire policy call = none ∧ sent = call.name := by
  rw [eq_comm (a := sent), ← callRef_plain]
  simp

theorem nested_iff {call : IrCall} (ns ns' : String) (raw : Value) :
    (∀ ref, (call.name, ref) ∈ nestedRefs ns ns' raw → callRef wire policy call = ref) ↔
      ∀ leaf ∈ childNames raw, ns ++ "." ++ leaf = call.name →
        restoredName wire policy call = some (ns', leaf) := by
  constructor
  · intro h leaf hleaf heq
    exact callRef_nested.mp (h _ (mem_nestedRefs.mpr ⟨leaf, hleaf, heq, rfl⟩))
  · intro h ref href
    obtain ⟨leaf, hleaf, heq, rfl⟩ := mem_nestedRefs.mp href
    exact callRef_nested.mpr (h leaf hleaf heq)

/-- A call is kept exactly when it is written like every reference of its tool. -/
theorem keepsCall_iff {tool : IrTool} {call : IrCall} (hname : call.name ∈ irNames tool) :
    KeepsCall cc wire policy case tool call ↔
      ∀ ref, (call.name, ref) ∈ sentRefs cc wire policy case tool → callRef wire policy call = ref := by
  cases tool with
  | function f =>
    obtain heq : call.name = f.name := List.mem_singleton.mp hname
    rw [KeepsCall, sentRefs, ← heq]
    exact (single_iff _).symm
  | namespaceTool ns raw =>
    obtain ⟨child, hchild, hdotted⟩ : ∃ leaf ∈ childNames raw, ns ++ "." ++ leaf = call.name :=
      List.mem_map.mp hname
    cases policy with
    | passthrough =>
      have hrestored : restoredName wire .passthrough call = none := if_neg fun h => by cases h.2.1
      rw [KeepsCall, sentRefs]
      split
      · rename_i hkept
        rw [nested_iff, hrestored, hkept]
        exact iff_of_false nofun fun h => by cases h child hchild hdotted
      · rename_i hkept
        exact iff_of_true (by simpa using hkept) fun ref href => by cases href
    | flattenNamespace =>
      have hrestored : restoredName wire .flattenNamespace call = none := if_neg fun h => by cases h.2.1
      rw [KeepsCall, sentRefs]
      simp only [List.mem_map, Prod.mk.injEq]
      constructor
      · rintro hcase ref ⟨leaf, _, heq, rfl⟩
        rw [heq, hcase]
        exact callRef_plain.mpr ⟨hrestored, rfl⟩
      · intro h
        have hsent := h _ ⟨child, hchild, hdotted, rfl⟩
        rw [hdotted] at hsent
        exact (callRef_plain.mp hsent).2.symm
    | hardError =>
      rw [KeepsCall, sentRefs]
      exact (nested_iff _ _ _).symm
  | unknown typeName raw =>
    by_cases hcustom : typeName = "custom"
    · subst hcustom
      rw [irNames, if_pos rfl] at hname
      have heq := List.mem_singleton.mp hname
      rw [KeepsCall, sentRefs, if_pos rfl, ← heq, single_iff]
      refine and_congr_right fun _ => ?_
      split
      · rename_i hwire
        exact iff_of_true (or_assoc.mp (.inl hwire)) rfl
      · rename_i hwire
        push Not at hwire
        exact ⟨fun h => (h.resolve_left hwire.1).resolve_left hwire.2, fun h => .inr (.inr h)⟩
    · rw [irNames, if_neg hcustom] at hname
      cases hname
  | hosted kind raw => cases hname
  | cachePoint raw => cases hname

theorem irNames_of_sent {tool : IrTool} {name : String} {ref : ToolRef}
    (h : (name, ref) ∈ sentRefs cc wire policy case tool) : name ∈ irNames tool := by
  have hnested : ∀ {ns ns' raw}, (name, ref) ∈ nestedRefs ns ns' raw →
      name ∈ (childNames raw).map fun leaf => ns ++ "." ++ leaf := by
    intro ns ns' raw hmem
    obtain ⟨leaf, hleaf, heq, _⟩ := mem_nestedRefs.mp hmem
    exact List.mem_map.mpr ⟨leaf, hleaf, heq⟩
  cases tool with
  | function f =>
    obtain ⟨rfl, _⟩ := Prod.mk.inj (List.mem_singleton.mp h)
    exact List.mem_cons_self
  | namespaceTool ns raw =>
    cases policy with
    | passthrough =>
      rw [sentRefs] at h
      split at h
      · exact hnested h
      · cases h
    | flattenNamespace =>
      obtain ⟨leaf, hleaf, heq⟩ := List.mem_map.mp h
      obtain ⟨hname, _⟩ := Prod.mk.inj heq
      exact List.mem_map.mpr ⟨leaf, hleaf, hname⟩
    | hardError => exact hnested h
  | unknown typeName raw =>
    rw [sentRefs] at h
    rw [irNames]
    split at h
    · rename_i hcustom
      obtain ⟨rfl, _⟩ := Prod.mk.inj (List.mem_singleton.mp h)
      rw [if_pos hcustom]
      exact List.mem_cons_self
    · cases h
  | hosted kind raw => cases h
  | cachePoint raw => cases h

theorem shownRefs_cases (ir : IrRequest) (tool : IrTool) :
    (wire = .converse ∧ ir.toolChoice = .none) ∧ shownRefs cc wire policy case ir tool = [] ∨
      ¬ (wire = .converse ∧ ir.toolChoice = .none) ∧
        shownRefs cc wire policy case ir tool = sentRefs cc wire policy case tool := by
  unfold shownRefs
  split
  · rename_i hchoice
    exact .inl ⟨⟨rfl, hchoice⟩, rfl⟩
  · rename_i hother
    exact .inr ⟨fun h => hother h.1 h.2, rfl⟩

theorem adverts_eq {ir : IrRequest} {prepared : List (IrTool × List PreparedTool)}
    (h : prepareFrom cc wire policy case 0 ir.tools = .ok prepared) :
    ∀ p ∈ prepared, adverts schema wire ir p = shownRefs cc wire policy case ir p.1 := by
  intro p hp
  have hrefs := (prepareFrom_tools schema h).2 p hp
  unfold adverts shownRefs
  split
  · rfl
  · exact hrefs

theorem shownRefs_named {ir : IrRequest} {name : String} (h : ir.toolChoice = .named name)
    (tool : IrTool) : shownRefs cc wire policy case ir tool = sentRefs cc wire policy case tool := by
  unfold shownRefs
  rw [h]
  cases wire <;> rfl

/-- A choice is written when nothing forces it to `auto` and a tool is sent. -/
theorem choiceRef_some {ir : IrRequest} {name : String} {prepared : List (IrTool × List PreparedTool)}
    (h : ir.toolChoice = .named name) {p : IrTool × List PreparedTool} (hp : p ∈ prepared)
    (hsent : p.2 ≠ []) :
    choiceRef wire ir prepared = if forcesAuto wire ir then none else some (.plain name) := by
  have hall : (prepared.all fun p => p.2.isEmpty) = false := by
    rw [List.all_eq_false]
    exact ⟨p, hp, by simpa using hsent⟩
  unfold choiceRef
  rw [h, hall, Bool.and_false, Bool.or_false]

/-- The names in a body agree exactly when the chosen name is sent unchanged and not forced
to `auto`, each call has the reference of its tool, and no two names are sent as one. -/
theorem names_agree_iff {ir : IrRequest} {prepared : List (IrTool × List PreparedTool)}
    (h : prepareFrom cc wire policy case 0 ir.tools = .ok prepared) :
    NamesAgree schema wire policy ir prepared ↔ NamesKept cc wire policy case ir := by
  have hadverts := adverts_eq schema h
  have htools : ∀ tool, tool ∈ ir.tools ↔ ∃ p ∈ prepared, p.1 = tool := by
    intro tool
    rw [← (prepareFrom_tools schema h).1]
    exact List.mem_map
  have hchosen : ∀ p ∈ prepared, ∀ name, ir.toolChoice = .named name →
      (∃ ref, (name, ref) ∈ adverts schema wire ir p) →
        choiceRef wire ir prepared = if forcesAuto wire ir then none else some (.plain name) := by
    rintro p hp name hname ⟨ref, href⟩
    refine choiceRef_some hname hp fun hempty => ?_
    unfold adverts at href
    rw [hempty] at href
    split at href
    · cases href
    · rw [List.flatMap_nil, List.zip_nil_right] at href
      cases href
  constructor
  · rintro ⟨hchoice, hcalls, hdistinct⟩
    refine ⟨?_, ?_, ?_⟩
    · intro tool htool name hname hnamed
      obtain ⟨p, hp, rfl⟩ := (htools tool).mp htool
      obtain ⟨hexists, hall⟩ := hchoice p hp name hname hnamed
      have hchoiceRef := hchosen p hp name hnamed hexists
      have hforced : forcesAuto wire ir = false := by
        obtain ⟨ref, href⟩ := hexists
        by_contra hforced
        rw [if_pos (by simpa using hforced), hall ref href] at hchoiceRef
        cases hchoiceRef
      rw [hforced] at hchoiceRef
      rw [hadverts p hp, shownRefs_named hnamed] at hexists
      refine ⟨hforced, (keepsName_iff hname).mpr ⟨hexists, fun ref href => ?_⟩⟩
      have hsome := hall ref (by rw [hadverts p hp, shownRefs_named hnamed]; exact href)
      rw [hchoiceRef] at hsome
      exact (Option.some.inj hsome).symm
    · intro call hcall tool htool hname
      obtain ⟨p, hp, rfl⟩ := (htools tool).mp htool
      rcases @shownRefs_cases cc wire policy case ir p.1 with ⟨hnone, _⟩ | ⟨_, hshown⟩
      · exact .inl hnone
      · refine .inr ((keepsCall_iff hname).mpr fun ref href => ?_)
        exact hcalls call hcall p hp ref (by rw [hadverts p hp, hshown]; exact href)
    · intro tool htool other hother a ha b hb
      obtain ⟨p, hp, rfl⟩ := (htools tool).mp htool
      obtain ⟨q, hq, rfl⟩ := (htools other).mp hother
      exact hdistinct p hp q hq a (by rw [hadverts p hp]; exact ha) b (by rw [hadverts q hq]; exact hb)
  · rintro ⟨hchoice, hcalls, hdistinct⟩
    refine ⟨?_, ?_, ?_⟩
    · intro p hp name hname hnamed
      obtain ⟨hforced, hkeeps⟩ := hchoice p.1 ((htools _).mpr ⟨p, hp, rfl⟩) name hname hnamed
      have hsent := (keepsName_iff hname).mp hkeeps
      have hshown : adverts schema wire ir p = sentRefs cc wire policy case p.1 :=
        (hadverts p hp).trans (shownRefs_named hnamed p.1)
      have hexists : ∃ ref, (name, ref) ∈ adverts schema wire ir p := by
        rw [hshown]
        exact hsent.1
      refine ⟨hexists, fun ref href => ?_⟩
      rw [hshown] at href
      rw [hchosen p hp name hnamed hexists, hforced, hsent.2 ref href]
      rfl
    · intro call hcall p hp ref href
      rw [hadverts p hp] at href
      rcases @shownRefs_cases cc wire policy case ir p.1 with ⟨_, hempty⟩ | ⟨hsends, hshown⟩
      · rw [hempty] at href
        cases href
      · rw [hshown] at href
        have hname := irNames_of_sent href
        have hkeeps := (hcalls call hcall p.1 ((htools _).mpr ⟨p, hp, rfl⟩) hname).resolve_left hsends
        exact (keepsCall_iff hname).mp hkeeps ref href
    · intro p hp q hq a ha b hb
      rw [hadverts p hp] at ha
      rw [hadverts q hq] at hb
      exact hdistinct p.1 ((htools _).mpr ⟨p, hp, rfl⟩) q.1 ((htools _).mpr ⟨q, hq, rfl⟩) a ha b hb

end

def asciiCase : CharCase := ⟨Char.isUpper, fun c => [c.toLower]⟩

/-- A request with one function tool, which it chooses. -/
def chosenTool (name : String) : IrRequest where
  model := "m"
  tools := [.function ⟨name, "", emptySchema, none⟩]
  calls := []
  toolChoice := .named name
  includeThoughts := none
  reasoningEffort := none
  maxReasoningTokens := none
  thinkingBudget := none
  messagesThinking := none

/-- Parameters as they are. -/
def plainSchema (_ : Option Bool) (parameters : Value) : Value := parameters

def snakeTools (name : String) : List (IrTool × List PreparedTool) :=
  (prepareFrom asciiCase .chatCompletions .hardError (some .snake) 0 (chosenTool name).tools).toOption.getD []

theorem snake_name_agrees : NamesAgree plainSchema .chatCompletions .hardError (chosenTool "get_a")
      (snakeTools "get_a") ↔
    NamesKept asciiCase .chatCompletions .hardError (some .snake) (chosenTool "get_a") :=
  @names_agree_iff asciiCase .chatCompletions .hardError (some .snake) plainSchema
    (chosenTool "get_a") (snakeTools "get_a") rfl

theorem camel_choice_differs : ∃ (ir : IrRequest) (prepared : List (IrTool × List PreparedTool)),
    prepareFrom asciiCase .chatCompletions .hardError (some .snake) 0 ir.tools = .ok prepared ∧
      ¬ NamesAgree plainSchema .chatCompletions .hardError ir prepared := by
  refine ⟨chosenTool "getA", snakeTools "getA", rfl, fun hagree => ?_⟩
  have hshown : ("getA", ToolRef.plain "get_a") ∈
      adverts plainSchema .chatCompletions (chosenTool "getA")
        (IrTool.function ⟨"getA", "", emptySchema, none⟩,
          [PreparedTool.function ⟨"get_a", "", emptySchema, none⟩]) := List.mem_cons_self
  have hchoice := (hagree.choice _ List.mem_cons_self "getA" List.mem_cons_self rfl).2 _ hshown
  exact absurd hchoice (by decide)

end Wiremux.ToolNames
