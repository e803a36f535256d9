import Wiremux.ToolAccounts

set_option autoImplicit false

/-!
# When every tool is sent or reported

Each step of `prepare_tools` adds its tool or reports the drop of it, unless it
flattens a namespace with a namespace in it.
-/
namespace Wiremux.SentTools
open JsonValue StreamEvents Completion Losses ToolNames ToolAccounts
open ToolPreparation hiding pushNamespace pushCustomTool pushHosted

variable {cc : CharCase} {wire : Wire} {policy : ToolTypePolicy} {case : Option ToolNameCase}
variable {path : String} {s t : Pushed}

def strictEvents (wire : Wire) (path : String) (f : FunctionTool) : LossReport :=
  if f.strict.isSome && !wireKeepsStrict wire then [⟨path ++ ".strict", .drop, "no slot"⟩] else []

theorem pushFunction_eq (s : Pushed) (f : FunctionTool) : pushFunction cc wire case path s f =
    (s.1 ++ [.function (renamed cc case f)], s.2 ++ strictEvents wire path f) := by
  unfold pushFunction recordStrict strictEvents
  split
  · rfl
  · rw [List.append_nil]

theorem pushFunctions_eq (flat : List FunctionTool) (s : Pushed) :
    flat.foldl (pushFunction cc wire case path) s =
      (s.1 ++ flat.map (fun f => .function (renamed cc case f)),
        s.2 ++ flat.flatMap (strictEvents wire path)) := by
  induction flat generalizing s with
  | nil => simp
  | cons f rest ih =>
    rw [List.foldl_cons, ih, pushFunction_eq]
    simp

theorem childTools_ok {name : String} {children : List Value} {flat : List FunctionTool}
    (h : childTools name path children = .ok flat) :
    flat = children.map fun child => leafTool (name ++ "." ++ childName child) child := by
  induction children generalizing flat with
  | nil => exact (Except.ok.inj h).symm
  | cons child rest ih =>
    rw [childTools] at h
    split at h
    · cases h
    · rename_i f hf
      cases hrest : childTools name path rest with
      | error e =>
        rw [hrest] at h
        cases h
      | ok more =>
        rw [hrest] at h
        obtain rfl := Except.ok.inj h
        rw [List.map_cons, ← ih hrest]
        unfold childTool at hf
        split at hf
        · cases hf
        · rename_i leaf hleaf
          obtain rfl := Except.ok.inj hf
          rw [childName, hleaf]
          rfl

theorem flattenNamespace_ok {name : String} {raw : Value} {flat : List FunctionTool}
    (h : flattenNamespace name raw path = .ok flat) :
    flat = ((toolsOf raw).map fun child => leafTool (name ++ "." ++ childName child) child) ∧
      toolsOf raw ≠ [] := by
  unfold flattenNamespace at h
  split at h
  · cases h
  · rename_i children hchildren
    have htools : toolsOf raw = children := by
      rw [toolsOf, items, hchildren]
      rfl
    rw [htools]
    split at h
    · cases h
    · cases h
    · rename_i flat' hnonempty hflat
      obtain rfl := Except.ok.inj h
      have hmap := childTools_ok hflat
      refine ⟨hmap, ?_⟩
      rintro rfl
      exact hnonempty hmap

def childForm (cc : CharCase) (case : Option ToolNameCase) (name : String) (child : Value) :
    PreparedTool := leafForm cc case (name ++ "." ++ childName child, child)

theorem leafForm_name {leaf other : String × Value} (h : leafForm cc case leaf = leafForm cc case other) :
    applyToolNameCase cc case leaf.1 = applyToolNameCase cc case other.1 :=
  congrArg FunctionTool.name (PreparedTool.function.inj h)

theorem childForm_notMem (hdot : cc.isUppercase '.' = false) (name : String) (child : Value) :
    (childLeaves name child).map (leafForm cc case) = [childForm cc case name child] ∨
      childForm cc case name child ∉ (childLeaves name child).map (leafForm cc case) := by
  unfold childLeaves
  split
  · refine .inr fun hmem => ?_
    obtain ⟨leaf, hleaf, heq⟩ := List.mem_map.mp hmem
    obtain ⟨back, hback⟩ := mem_leaves hleaf
    have hname := leafForm_name heq
    rw [hback] at hname
    exact applyToolNameCase_dot hdot _ back hname.symm
  · exact .inl rfl

theorem childLeaves_flat {name : String} {child : Value} (h : isNamespace child = false) :
    childLeaves name child = [(name ++ "." ++ childName child, child)] := by
  rw [childLeaves, h]
  rfl

theorem forms_eq_iff (hdot : cc.isUppercase '.' = false) (name : String) (raw : Value) :
    (toolsOf raw).map (childForm cc case name) = (leaves name raw).map (leafForm cc case) ↔
      ∀ child ∈ toolsOf raw, isNamespace child = false := by
  rw [leaves_eq, List.map_flatMap]
  constructor
  · intro heq
    by_contra hno
    push Not at hno
    obtain ⟨child, hchild, hspace⟩ := hno
    refine map_ne_flatMap (fun child _ => childForm_notMem hdot name child) ⟨child, hchild, ?_⟩ heq
    intro hone
    have hspace : isNamespace child = true := by simpa using hspace
    have hmem : childForm cc case name child ∈ (childLeaves name child).map (leafForm cc case) := by
      rw [hone]
      exact List.mem_singleton_self _
    obtain ⟨leaf, hleaf, hform⟩ := List.mem_map.mp hmem
    rw [childLeaves, if_pos hspace] at hleaf
    obtain ⟨back, hback⟩ := mem_leaves hleaf
    have hname := leafForm_name hform
    rw [hback] at hname
    exact applyToolNameCase_dot hdot _ back hname.symm
  · intro h
    have hone : ∀ child ∈ toolsOf raw, (childLeaves name child).map (leafForm cc case) =
        [childForm cc case name child] := by
      intro child hchild
      rw [childLeaves_flat (h child hchild)]
      rfl
    rw [List.flatMap_congr hone]
    exact List.map_eq_flatMap

def FlatTool (policy : ToolTypePolicy) (tool : IrTool) : Prop :=
  policy = .flattenNamespace → ∀ name raw, tool = .namespaceTool name raw →
    ∀ child ∈ toolsOf raw, isNamespace child = false

theorem flatTool_of_not_namespace {tool : IrTool} (h : ∀ name raw, tool ≠ .namespaceTool name raw) :
    FlatTool policy tool :=
  fun _ name raw heq => absurd heq (h name raw)

/-- A step that adds one piece is right when the piece stands for the tool. -/
theorem accounts_of_piece {tool : IrTool} (piece : List PreparedTool) (events : LossReport)
    (hpush : pushTool cc wire policy case path s tool = .ok (s.1 ++ piece, s.2 ++ events))
    (h : Stands cc case tool piece ∨
      piece = [] ∧ ∃ detail, (⟨path, .drop, detail⟩ : LossEvent) ∈ events) :
    Accounts cc wire policy case path s tool := by
  intro t ht
  rw [hpush] at ht
  obtain rfl := Except.ok.inj ht
  exact ⟨piece, events, rfl, h⟩

theorem accounts_of_error {tool : IrTool} {e : MapError}
    (hpush : pushTool cc wire policy case path s tool = .error e) :
    Accounts cc wire policy case path s tool := by
  intro t ht
  rw [hpush] at ht
  cases ht

theorem accounts_raw {tool : IrTool} (value : Value) (detail : String)
    (hpush : pushTool cc wire policy case path s tool = .ok (pushRaw path detail s value))
    (h : Stands cc case tool [.raw value]) : Accounts cc wire policy case path s tool :=
  accounts_of_piece _ [⟨path, .preserve, detail⟩] hpush (.inl h)

theorem accounts_converse {tool : IrTool} (raw : Value) (detail key : String) (sent : Bool)
    (hpush : pushTool cc wire policy case path s tool = .ok (pushConverse path detail key s raw sent))
    (h : Stands cc case tool [.raw (.object [(key, raw)])]) :
    Accounts cc wire policy case path s tool := by
  cases sent with
  | true =>
    refine accounts_of_piece [.raw (.object [(key, raw)])] [] ?_ (.inl h)
    rw [hpush, List.append_nil]
    rfl
  | false =>
    refine accounts_of_piece [] [⟨path, .drop, detail⟩] ?_
      (.inr ⟨rfl, detail, List.mem_singleton_self _⟩)
    rw [hpush, List.append_nil]
    rfl

theorem leaves_namespaceRaw (name : String) (raw : Value) :
    leaves name (namespaceRaw name raw) = leaves name raw := by
  rw [leaves_eq, leaves_eq, toolsOf, toolsOf, get?_namespaceRaw_tools]

theorem accounts_custom (raw : Value) :
    Accounts cc wire policy case path s (.unknown "custom" raw) := by
  have hpush : pushTool cc wire policy case path s (.unknown "custom" raw) =
      pushCustomTool cc wire case path s raw := by
    rw [pushTool, if_neg (by decide), if_pos rfl]
  unfold pushCustomTool at hpush
  simp only at hpush
  split at hpush
  · exact accounts_of_error hpush
  · split at hpush
    · exact accounts_raw _ _ hpush (.inl rfl)
    · refine accounts_of_piece [.function _] [_] hpush (.inl ?_)
      exact .inr (.inr ⟨rfl, _, rfl, rfl, rfl⟩)

theorem accounts_flat_iff (hdot : cc.isUppercase '.' = false) {name : String} {raw : Value}
    {flat : List FunctionTool} (hflat : flattenNamespace name raw path = .ok flat) :
    Accounts cc wire .flattenNamespace case path s (.namespaceTool name raw) ↔
      ∀ child ∈ toolsOf raw, isNamespace child = false := by
  obtain ⟨hmap, hnonempty⟩ := flattenNamespace_ok hflat
  have hforms : flat.map (fun f => PreparedTool.function (renamed cc case f)) =
      (toolsOf raw).map (childForm cc case name) := by
    rw [hmap, List.map_map]
    rfl
  have hpush : pushTool cc wire .flattenNamespace case path s (.namespaceTool name raw) =
      .ok (s.1 ++ (toolsOf raw).map (childForm cc case name),
        s.2 ++ (⟨path, .degrade, "flatten namespace to dotted function tools"⟩ ::
          flat.flatMap (strictEvents wire path))) := by
    rw [pushTool, pushNamespace, hflat, Except.map, pushFunctions_eq, hforms, record, List.append_assoc]
    rfl
  constructor
  · intro h
    obtain ⟨piece, events, heq, hstands⟩ := h _ hpush
    obtain rfl := List.append_cancel_left (Prod.mk.inj heq).1
    rcases hstands with (⟨whole, hwhole, _⟩ | hleaves) | ⟨hempty, _⟩
    · have hmem : PreparedTool.raw whole ∈ (toolsOf raw).map (childForm cc case name) := by
        rw [hwhole]
        exact List.mem_singleton_self _
      obtain ⟨child, _, hchild⟩ := List.mem_map.mp hmem
      cases hchild
    · exact (forms_eq_iff hdot name raw).mp hleaves
    · exact absurd (List.map_eq_nil_iff.mp hempty) hnonempty
  · intro h
    exact accounts_of_piece _ _ hpush (.inl (.inr ((forms_eq_iff hdot name raw).mpr h)))

theorem accounts_namespace_iff (hdot : cc.isUppercase '.' = false) {name : String} {raw : Value}
    (hpush : pushTool cc wire policy case path s (.namespaceTool name raw) = .ok t) :
    Accounts cc wire policy case path s (.namespaceTool name raw) ↔
      FlatTool policy (.namespaceTool name raw) := by
  cases policy with
  | passthrough =>
    refine iff_of_true (accounts_raw raw "namespace passthrough" rfl ?_)
      (fun h => by cases h)
    exact .inl ⟨raw, rfl, rfl⟩
  | flattenNamespace =>
    cases hflat : flattenNamespace name raw path with
    | error e =>
      rw [pushTool, pushNamespace, hflat] at hpush
      cases hpush
    | ok flat =>
      rw [accounts_flat_iff hdot hflat]
      constructor
      · intro h _ name' raw' heq
        obtain ⟨_, rfl⟩ := IrTool.namespaceTool.inj heq
        exact h
      · intro h
        exact h rfl name raw rfl
  | hardError =>
    refine iff_of_true ?_ (fun h => by cases h)
    rw [pushTool, pushNamespace] at hpush
    split at hpush
    · rename_i hwire
      refine accounts_raw (namespaceRaw name raw) "namespace tool" ?_
        (.inl ⟨_, rfl, leaves_namespaceRaw name raw⟩)
      rw [pushTool, pushNamespace, if_pos hwire]
    · cases hpush

/-- The step of a tool accounts for it, unless it flattens a namespace in a namespace. -/
theorem accounts_iff (hdot : cc.isUppercase '.' = false) {tool : IrTool}
    (hpush : pushTool cc wire policy case path s tool = .ok t) :
    Accounts cc wire policy case path s tool ↔ FlatTool policy tool := by
  cases tool with
  | function f =>
    refine iff_of_true ?_ (flatTool_of_not_namespace fun _ _ h => by cases h)
    rw [pushTool] at hpush
    split at hpush
    · cases hpush
    · rename_i hblank
      refine accounts_of_piece [.function (renamed cc case f)] (strictEvents wire path f) ?_ (.inl rfl)
      rw [pushTool, if_neg hblank, pushFunction_eq]
  | namespaceTool name raw => exact accounts_namespace_iff hdot hpush
  | hosted kind raw =>
    refine iff_of_true ?_ (flatTool_of_not_namespace fun _ _ h => by cases h)
    rw [pushTool, pushHosted] at hpush
    split at hpush
    · rename_i hpass
      refine accounts_raw raw "hosted passthrough" ?_ rfl
      rw [pushTool, pushHosted, if_pos hpass]
    · rename_i hpass
      split at hpush
      · rename_i hwire
        refine accounts_raw raw ("hosted " ++ kind) ?_ rfl
        rw [pushTool, pushHosted, if_neg hpass, if_pos hwire]
      · cases hpush
  | cachePoint raw =>
    exact iff_of_true (accounts_converse _ _ _ _ rfl rfl) (flatTool_of_not_namespace fun _ _ h => by cases h)
  | unknown typeName raw =>
    refine iff_of_true ?_ (flatTool_of_not_namespace fun _ _ h => by cases h)
    by_cases hsystem : typeName = "systemTool"
    · refine accounts_converse raw "system tool has no slot" "systemTool"
        (wire = .converse && raw.isObject) ?_ (.inr (.inl ⟨hsystem, rfl⟩))
      rw [pushTool, if_pos hsystem]
    · by_cases hcustom : typeName = "custom"
      · subst hcustom
        exact accounts_custom raw
      · rw [pushTool, if_neg hsystem, if_neg hcustom] at hpush
        split at hpush
        · rename_i hpass
          refine accounts_raw raw "unknown tool passthrough" ?_ (.inl rfl)
          rw [pushTool, if_neg hsystem, if_neg hcustom, if_pos hpass]
        · cases hpush

theorem pushTools_split {before after : List IrTool} {tool : IrTool} {idx : ℕ} {result : Pushed}
    (h : pushTools cc wire policy case idx s (before ++ tool :: after) = .ok result) :
    ∃ m t, pushTools cc wire policy case idx s before = .ok m ∧
      pushTool cc wire policy case (toolPath (idx + before.length)) m tool = .ok t := by
  induction before generalizing idx s with
  | nil =>
    rw [List.nil_append, pushTools] at h
    split at h
    · cases h
    · rename_i t ht
      exact ⟨s, t, rfl, ht⟩
  | cons first rest ih =>
    rw [List.cons_append, pushTools] at h
    split at h
    · cases h
    · rename_i u hu
      obtain ⟨m, t, hm, ht⟩ := ih h
      refine ⟨m, t, ?_, ?_⟩
      · rw [pushTools, hu]
        exact hm
      · rw [List.length_cons, Nat.add_comm rest.length 1, ← Nat.add_assoc]
        exact ht

/-- Every tool of a request that is prepared is sent or reported exactly when no namespace
is flattened that has a namespace in it. -/
theorem tools_accounted_iff (hdot : cc.isUppercase '.' = false) {report : LossReport}
    {tools : List IrTool} {result : Pushed}
    (h : prepareTools cc wire policy case report tools = .ok result) :
    Accounted cc wire policy case report tools ↔ FlatSpaces policy tools := by
  constructor
  · intro haccounted hpolicy name raw hmem
    obtain ⟨before, after, rfl⟩ := List.append_of_mem hmem
    obtain ⟨m, t, hm, ht⟩ := pushTools_split h
    rw [Nat.zero_add] at ht
    have hstep := haccounted before _ after m rfl hm
    exact (accounts_iff hdot ht).mp hstep hpolicy name raw rfl
  · intro hflat before tool after m htools hm t ht
    have hstep : FlatTool policy tool := by
      intro hpolicy name raw heq
      refine hflat hpolicy name raw ?_
      rw [htools, heq]
      exact List.mem_append_right _ List.mem_cons_self
    exact (accounts_iff hdot ht).mpr hstep t ht

def lookupTool : Value := .object [("type", "function"), ("name", "lookup")]

/-- The namespace `crm` with one function. -/
def flatSpace : IrTool := .namespaceTool "crm" (.object [("tools", .array [lookupTool])])

def nestedSpace : IrTool := .namespaceTool "crm" (.object [("tools", .array
  [.object [("type", "namespace"), ("name", "a"), ("tools", .array [lookupTool])]])])

theorem flat_space_accounted :
    Accounted asciiCase .messages .flattenNamespace none [] [flatSpace] ↔
      FlatSpaces .flattenNamespace [flatSpace] :=
  tools_accounted_iff (show asciiCase.isUppercase '.' = false by decide)
    (Eq.refl (Except.ok (_, _)))

theorem nested_space_lost : ¬ ∀ (report : LossReport) (tools : List IrTool) (result : Pushed),
    prepareTools asciiCase .messages .flattenNamespace none report tools = .ok result →
      Accounted asciiCase .messages .flattenNamespace none report tools := by
  intro h
  have haccounts := h [] [nestedSpace] (_, _) rfl [] nestedSpace [] ([], []) rfl rfl
  have hpieces : flattenNamespace "crm" (.object [("tools", .array
      [.object [("type", "namespace"), ("name", "a"), ("tools", .array [lookupTool])]])])
      (toolPath 0) = .ok [_] := rfl
  have hflat := (accounts_flat_iff (by decide) hpieces).mp haccounts
  exact absurd (hflat _ List.mem_cons_self) (by decide)

end Wiremux.SentTools
