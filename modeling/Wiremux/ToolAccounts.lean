import Wiremux.GeminiSchemas
import Wiremux.StreamEvents
import Wiremux.ToolNames

set_option autoImplicit false

/-!
# Every tool of a request is sent or reported

`prepare_tools` with the report it writes. A tool is accounted for when it stands
in the output, a namespace with all its leaves, or its drop is in the report. A
namespace inside a namespace is flattened to one function, and its leaves are lost.
-/
namespace Wiremux.ToolAccounts
open JsonValue StreamEvents Completion ToolPreparation Losses

/-- The output and the report so far. -/
abbrev Pushed := List PreparedTool × LossReport

def wireKeepsStrict (wire : Wire) : Bool :=
  wire = .chatCompletions || wire = .responses || wire = .converse

section
variable (cc : CharCase) (wire : Wire) (policy : ToolTypePolicy) (case : Option ToolNameCase)

def recordStrict (path : String) (strict : Option Bool) (report : LossReport) : LossReport :=
  if strict.isSome && !wireKeepsStrict wire then record report (path ++ ".strict") .drop "no slot"
  else report

def pushFunction (path : String) (s : Pushed) (f : FunctionTool) : Pushed :=
  (s.1 ++ [.function (renamed cc case f)], recordStrict wire path f.strict s.2)

def pushRaw (path detail : String) (s : Pushed) (value : Value) : Pushed :=
  (s.1 ++ [.raw value], record s.2 path .preserve detail)

def pushNamespace (path : String) (s : Pushed) (name : String) (raw : Value) :
    Except MapError Pushed :=
  match policy with
  | .passthrough => .ok (pushRaw path "namespace passthrough" s raw)
  | .flattenNamespace =>
    (flattenNamespace name raw path).map fun flat =>
      flat.foldl (pushFunction cc wire case path)
        (s.1, record s.2 path .degrade "flatten namespace to dotted function tools")
  | .hardError =>
    if wire = .responses then .ok (pushRaw path "namespace tool" s (namespaceRaw name raw))
    else .error (.hardError path "type=namespace is not silent-stripped; hard-error (set tool_type_policy = flatten-namespace to flatten)")

def pushCustomTool (path : String) (s : Pushed) (raw : Value) : Except MapError Pushed :=
  let name := (raw.strAt? "name").getD ""
  if isBlank name then .error (.hardError path "custom tool name is empty")
  else if wire = .chatCompletions ∨ wire = .responses then .ok (pushRaw path "custom tool" s raw)
  else .ok (s.1 ++ [.function {
    name := applyToolNameCase cc case name
    description := (raw.strAt? "description").getD ""
    parameters := emptySchema
    strict := none }], record s.2 path .degrade "custom tool became a function tool")

def pushHosted (path : String) (s : Pushed) (kind : String) (raw : Value) : Except MapError Pushed :=
  if policy = .passthrough then .ok (pushRaw path "hosted passthrough" s raw)
  else if wire = .responses then .ok (pushRaw path ("hosted " ++ kind) s raw)
  else .error (.hardError path
    ("hosted tool `" ++ kind ++ "` has no slot on `" ++ wireName wire ++ "`"))

/-- A tool of one kind is sent on Converse, under its key. -/
def pushConverse (path detail key : String) (s : Pushed) (raw : Value) (sent : Bool) : Pushed :=
  if sent then (s.1 ++ [.raw (.object [(key, raw)])], s.2) else (s.1, record s.2 path .drop detail)

def pushTool (path : String) (s : Pushed) : IrTool → Except MapError Pushed
  | .function f =>
    if isBlank f.name then .error (.hardError path "function tool name is empty")
    else .ok (pushFunction cc wire case path s f)
  | .namespaceTool name raw => pushNamespace cc wire policy case path s name raw
  | .hosted kind raw => pushHosted wire policy path s kind raw
  | .cachePoint raw => .ok (pushConverse path "tool cache point has no slot" "cachePoint" s raw
      (wire = .converse))
  | .unknown typeName raw =>
    if typeName = "systemTool" then
      .ok (pushConverse path "system tool has no slot" "systemTool" s raw
        (wire = .converse && raw.isObject))
    else if typeName = "custom" then pushCustomTool cc wire case path s raw
    else if policy = .passthrough then .ok (pushRaw path "unknown tool passthrough" s raw)
    else .error (.hardError path ("unknown tool type `" ++ typeName ++
      "` (tool_type_policy = passthrough|flatten-namespace|hard-error)"))

def toolPath (idx : ℕ) : String := "tools[" ++ toString idx ++ "]"

def pushTools (idx : ℕ) (s : Pushed) : List IrTool → Except MapError Pushed
  | [] => .ok s
  | tool :: rest =>
    match pushTool cc wire policy case (toolPath idx) s tool with
    | .error e => .error e
    | .ok t => pushTools (idx + 1) t rest

/-- The report comes from what was decoded. -/
def prepareTools (report : LossReport) (tools : List IrTool) : Except MapError Pushed :=
  pushTools cc wire policy case 0 ([], report) tools

end

def toolsOf (raw : Value) : List Value := items (raw.get? "tools")

def isNamespace (child : Value) : Bool := child.strAt? "type" = some "namespace"

def childName (child : Value) : String := (child.strAt? "name").getD ""

def leafTool (name : String) (child : Value) : FunctionTool where
  name := name
  description := (child.strAt? "description").getD ""
  parameters := ((child.get? "parameters").or (child.get? "input_schema")).getD emptySchema
  strict := (child.get? "strict").bind Value.asBool?

theorem sizeOf_toolsOf {raw child : Value} (h : child ∈ toolsOf raw) : sizeOf child < sizeOf raw := by
  obtain ⟨fields, rfl⟩ : ∃ fields, raw = .object fields := by
    cases raw with
    | object fields => exact ⟨fields, rfl⟩
    | _ => cases h
  unfold toolsOf items at h
  cases hlookup : fields.lookup "tools" with
  | none =>
    have hnone : (Value.object fields).get? "tools" = none := hlookup
    rw [hnone] at h
    cases h
  | some value =>
    have hsome : (Value.object fields).get? "tools" = some value := hlookup
    rw [hsome] at h
    cases value with
    | array list =>
      have hchild := List.sizeOf_lt_of_mem (show child ∈ list from h)
      have hfield := List.sizeOf_lt_of_mem (GeminiSchemas.mem_of_lookup hlookup)
      have hpair : sizeOf ("tools", Value.array list) = 1 + sizeOf "tools" + sizeOf (Value.array list) :=
        rfl
      rw [Value.array.sizeOf_spec] at hpair
      rw [Value.object.sizeOf_spec]
      omega
    | _ => cases h

/-- The tools in a namespace, at any depth, under their dotted names. -/
def leaves (name : String) (raw : Value) : List (String × Value) :=
  (toolsOf raw).attach.flatMap fun child =>
    if isNamespace child.1 then leaves (name ++ "." ++ childName child.1) child.1
    else [(name ++ "." ++ childName child.1, child.1)]
termination_by sizeOf raw
decreasing_by exact sizeOf_toolsOf child.2

def childLeaves (name : String) (child : Value) : List (String × Value) :=
  if isNamespace child then leaves (name ++ "." ++ childName child) child
  else [(name ++ "." ++ childName child, child)]

theorem leaves_eq (name : String) (raw : Value) :
    leaves name raw = (toolsOf raw).flatMap (childLeaves name) := by
  conv_rhs => rw [← List.attach_map_subtype_val (toolsOf raw), List.flatMap_map]
  rw [leaves]
  rfl

section
variable (cc : CharCase) (wire : Wire) (policy : ToolTypePolicy) (case : Option ToolNameCase)

def leafForm (leaf : String × Value) : PreparedTool :=
  .function (renamed cc case (leafTool leaf.1 leaf.2))

/-- The piece is the tool: itself, a namespace as one or as all its leaves, a custom tool
as itself or as a function. -/
def Stands (tool : IrTool) (piece : List PreparedTool) : Prop :=
  match tool with
  | .function f => piece = [.function (renamed cc case f)]
  | .namespaceTool name raw =>
    (∃ whole, piece = [.raw whole] ∧ leaves name whole = leaves name raw) ∨
      piece = (leaves name raw).map (leafForm cc case)
  | .hosted _ raw => piece = [.raw raw]
  | .cachePoint raw => piece = [.raw (.object [("cachePoint", raw)])]
  | .unknown typeName raw =>
    piece = [.raw raw] ∨
      (typeName = "systemTool" ∧ piece = [.raw (.object [("systemTool", raw)])]) ∨
      (typeName = "custom" ∧ ∃ f, piece = [.function f] ∧
        f.name = applyToolNameCase cc case ((raw.strAt? "name").getD "") ∧
        f.description = (raw.strAt? "description").getD "")

/-- The step of a tool adds the tool, or nothing and a drop of it. -/
def Accounts (path : String) (s : Pushed) (tool : IrTool) : Prop :=
  ∀ t, pushTool cc wire policy case path s tool = .ok t →
    ∃ piece events, t = (s.1 ++ piece, s.2 ++ events) ∧
      (Stands cc case tool piece ∨
        piece = [] ∧ ∃ detail, (⟨path, .drop, detail⟩ : LossEvent) ∈ events)

/-- In every step of the run. -/
def Accounted (report : LossReport) (tools : List IrTool) : Prop :=
  ∀ before tool after s, tools = before ++ tool :: after →
    prepareTools cc wire policy case report before = .ok s →
      Accounts cc wire policy case (toolPath before.length) s tool

/-- No namespace that is flattened has a namespace in it. -/
def FlatSpaces (tools : List IrTool) : Prop :=
  policy = .flattenNamespace → ∀ name raw, IrTool.namespaceTool name raw ∈ tools →
    ∀ child ∈ toolsOf raw, isNamespace child = false

end

section
variable {cc : CharCase} {wire : Wire} {policy : ToolTypePolicy} {case : Option ToolNameCase}

theorem convertChar_length (sep : Char) (out : List Char) (p : Char × ℕ) :
    out.length ≤ (convertChar cc sep out p).length := by
  unfold convertChar
  split
  · simp
  · split
    · split
      · simp only [List.length_append]
        omega
      · simp
    · simp

theorem convertChars_length (sep : Char) (out : List Char) (ps : List (Char × ℕ)) :
    out.length ≤ (ps.foldl (convertChar cc sep) out).length := by
  induction ps generalizing out with
  | nil => exact Nat.le_refl _
  | cons p rest ih => exact (convertChar_length sep out p).trans (ih _)

theorem convertChar_dot (hdot : cc.isUppercase '.' = false) (sep : Char) (out : List Char) (i : ℕ) :
    convertChar cc sep out ('.', i) = out ++ ['.'] := by
  rw [convertChar, if_neg (by simp), if_neg (by simp [hdot])]

theorem convertCase_dot (hdot : cc.isUppercase '.' = false) (sep : Char) (front back : String) :
    (convertCase cc front sep).toList.length < (convertCase cc (front ++ "." ++ back) sep).toList.length := by
  have htext : (front ++ "." ++ back).toList = front.toList ++ '.' :: back.toList := by
    rw [String.toList_append, String.toList_append, List.append_assoc]
    rfl
  rw [convertCase, convertCase, String.toList_ofList, String.toList_ofList, htext, List.zipIdx_append,
    List.foldl_append, List.zipIdx_cons, List.foldl_cons, convertChar_dot hdot]
  refine Nat.lt_of_lt_of_le ?_ (convertChars_length sep _ _)
  rw [List.length_append]
  exact Nat.lt_succ_self _

theorem applyToolNameCase_dot (hdot : cc.isUppercase '.' = false) (front back : String) :
    applyToolNameCase cc case front ≠ applyToolNameCase cc case (front ++ "." ++ back) := by
  intro h
  have hlength := congrArg (fun s => s.toList.length) h
  have hplain : front.toList.length < (front ++ "." ++ back).toList.length := by
    simp only [String.toList_append, List.length_append]
    have hone : ".".toList.length = 1 := rfl
    omega
  cases case with
  | none => exact absurd hlength (Nat.ne_of_lt hplain)
  | some kind =>
    cases kind with
    | asIs => exact absurd hlength (Nat.ne_of_lt hplain)
    | snake => exact absurd hlength (Nat.ne_of_lt (convertCase_dot hdot '_' front back))
    | kebab => exact absurd hlength (Nat.ne_of_lt (convertCase_dot hdot '-' front back))

theorem mem_leaves {name : String} {raw : Value} {leaf : String × Value} (h : leaf ∈ leaves name raw) :
    ∃ back, leaf.1 = name ++ "." ++ back := by
  induction name, raw using leaves.induct generalizing leaf with
  | case1 name raw ih =>
    rw [leaves_eq] at h
    obtain ⟨child, hchild, hleaf⟩ := List.mem_flatMap.mp h
    unfold childLeaves at hleaf
    split at hleaf
    · obtain ⟨back, hback⟩ := ih ⟨child, hchild⟩ hleaf
      refine ⟨childName child ++ "." ++ back, ?_⟩
      rw [hback]
      simp only [String.append_assoc]
    · rw [List.mem_singleton.mp hleaf]
      exact ⟨childName child, rfl⟩

end

section
variable {α β : Type} {f : α → β} {g : α → List β}

theorem behind_ne {xs : List α} {queue : List β} (hqueue : queue ≠ [])
    (h : ∀ x ∈ xs, g x = [f x] ∨ f x ∉ g x) : queue ++ xs.map f ≠ xs.flatMap g := by
  induction xs generalizing queue with
  | nil => simpa using hqueue
  | cons x rest ih =>
    have hrest : ∀ y ∈ rest, g y = [f y] ∨ f y ∉ g y := fun y hy => h y (List.mem_cons_of_mem _ hy)
    intro heq
    rw [List.map_cons, List.flatMap_cons] at heq
    rcases List.append_eq_append_iff.mp heq with ⟨more, hg, hmore⟩ | ⟨left, hleft, hmore⟩
    · cases more with
      | nil =>
        exact ih (List.cons_ne_nil (f x) []) hrest (by simpa using hmore)
      | cons y more =>
        have hhead := (List.cons.inj hmore).1
        rcases h x List.mem_cons_self with hone | hnone
        · have hlength := congrArg List.length (hg.symm.trans hone)
          have hpos := List.length_pos_of_ne_nil hqueue
          simp only [List.length_append, List.length_cons, List.length_nil] at hlength
          omega
        · refine hnone ?_
          rw [hg, hhead]
          exact List.mem_append_right _ List.mem_cons_self
    · refine ih (List.append_ne_nil_of_right_ne_nil left (List.cons_ne_nil (f x) [])) hrest ?_
      rw [hmore, List.append_assoc]
      rfl

theorem map_ne_flatMap {xs : List α} (h : ∀ x ∈ xs, g x = [f x] ∨ f x ∉ g x)
    (hother : ∃ x ∈ xs, g x ≠ [f x]) : xs.map f ≠ xs.flatMap g := by
  induction xs with
  | nil =>
    obtain ⟨x, hx, _⟩ := hother
    cases hx
  | cons x rest ih =>
    have hrest : ∀ y ∈ rest, g y = [f y] ∨ f y ∉ g y := fun y hy => h y (List.mem_cons_of_mem _ hy)
    intro heq
    rw [List.map_cons, List.flatMap_cons] at heq
    rcases h x List.mem_cons_self with hone | hnone
    · obtain ⟨y, hy, hne⟩ := hother
      rcases List.mem_cons.mp hy with rfl | hy
      · exact hne hone
      · rw [hone] at heq
        exact ih hrest ⟨y, hy, hne⟩ (List.cons.inj heq).2
    · cases hg : g x with
      | nil =>
        rw [hg] at heq
        exact behind_ne (List.cons_ne_nil (f x) []) hrest heq
      | cons y more =>
        rw [hg] at heq hnone
        rw [(List.cons.inj heq).1] at hnone
        exact hnone List.mem_cons_self

end

end Wiremux.ToolAccounts
