import Wiremux.RelaxedSchemas

set_option autoImplicit false

/-!
# Refs that become their definitions

A definition that is being replaced is reached again through itself, or from a schema
that stands beside its ref. Only the first is a cycle; the second is dropped all the same.
-/
namespace Wiremux.InlinedRefs
open JsonValue Losses SchemaWalks GeminiSchemas RelaxedNodes RelaxedSchemas

def localRef (fields : Fields) : Option String := (refOf fields).bind localRefName

/-- The schema refers to a definition, itself or through definitions. -/
inductive Reaches (defs : Fields) : Value → String → Prop where
  | here {fields : Fields} {name : String} (h : localRef fields = some name) : Reaches defs (.object fields) name
  | place {fields : Fields} {name : String} {step : Step} {u : Value}
      (hstep : step? geminiSlot (.object fields) step = some u)
      (h : Reaches defs u name) : Reaches defs (.object fields) name
  | through {fields map : Fields} {name via : String} (href : localRef fields = some via)
      (hlookup : defs.lookup via = some (.object map)) (h : Reaches defs (.object map) name) :
      Reaches defs (.object fields) name

def Cyclic (defs map : Fields) (name : String) : Prop := Reaches defs (.object map) name

variable {defs fields map own : Fields} {name via key : String} {a b : Visit} {u v : Value}

theorem Reaches.trans (h : Reaches defs v via) (hlookup : defs.lookup via = some (.object map))
    (hmap : Reaches defs (.object map) name) : Reaches defs v name := by
  induction h with
  | here href => exact .through href hlookup hmap
  | place hstep _ ih => exact .place hstep (ih hlookup)
  | through href hfound _ ih => exact .through href hfound (ih hlookup)

theorem lookup_dropKey (fields : Fields) (gone key : String) :
    (dropKey gone fields).lookup key = if key ≠ gone then fields.lookup key else none := by
  have hfilter : dropKey gone fields = fields.filter fun f => (fun k => decide (k ≠ gone)) f.1 := rfl
  rw [hfilter, lookup_filter fun k => decide (k ≠ gone)]
  simp

theorem lookup_merge (fields map : Fields) (key : String) : (mergeDefinition fields map).lookup key =
    ((dropKey "$ref" fields).lookup key).orElse fun _ => map.lookup key := by
  rw [mergeDefinition, List.lookup_append,
    lookup_filter fun k => ((dropKey "$ref" fields).lookup k).isNone]
  cases (dropKey "$ref" fields).lookup key <;> rfl

theorem merge_own (fields map : Fields) (h : key ≠ "$ref") : (mergeDefinition fields map).lookup key =
    (fields.lookup key).orElse fun _ => map.lookup key := by
  rw [lookup_merge, lookup_dropKey, if_pos h]

theorem refOf_merge (fields map : Fields) : refOf (mergeDefinition fields map) = refOf map := by
  rw [refOf, lookup_merge, lookup_dropKey, if_neg (by simp)]
  rfl

theorem localRef_merge (fields map : Fields) : localRef (mergeDefinition fields map) = localRef map := by
  rw [localRef, refOf_merge]
  rfl

theorem step?_congr {x y : Value} {step : Step}
    (h : ∀ key, geminiSlot key ≠ .data → x.get? key = y.get? key) :
    step? geminiSlot x step = step? geminiSlot y step := by
  cases step with
  | named key name =>
    rw [step?, step?]
    split
    · rename_i hslot
      rw [h key (by simp [hslot])]
    · rfl
  | item key i =>
    rw [step?, step?]
    split
    · rename_i hslot
      rw [h key (by rcases hslot with hslot | hslot <;> simp [hslot])]
    · rfl
  | nested key =>
    rw [step?, step?]
    split
    · rename_i hslot
      rw [h key (by rcases hslot with hslot | hslot <;> simp [hslot])]
    · rfl

def stepKey : Step → String
  | .named key _ => key
  | .item key _ => key
  | .nested key => key

theorem step?_at {x y : Value} {step : Step} (h : x.get? (stepKey step) = y.get? (stepKey step)) :
    step? geminiSlot x step = step? geminiSlot y step := by
  cases step <;> · rw [step?, step?]; rw [stepKey] at h; rw [h]

theorem step?_ref {step : Step} (hkey : stepKey step = "$ref") (x : Value) :
    step? geminiSlot x step = none := by
  have hslot : geminiSlot "$ref" = .data := rfl
  cases step <;> simp only [stepKey] at hkey <;> simp [step?, hkey, hslot]

/-- A place of the merged node is one of the node or of the definition. -/
theorem step?_merge {step : Step} (h : step? geminiSlot (.object (mergeDefinition fields map)) step = some u) :
    step? geminiSlot (.object fields) step = some u ∨ step? geminiSlot (.object map) step = some u := by
  by_cases hkey : stepKey step = "$ref"
  · rw [step?_ref hkey] at h
    cases h
  · have hlookup := merge_own fields map hkey
    cases hfound : fields.lookup (stepKey step) with
    | some v =>
      refine .inl ?_
      rw [← h]
      apply step?_at
      change fields.lookup _ = (mergeDefinition fields map).lookup _
      rw [hlookup, hfound]
      rfl
    | none =>
      refine .inr ?_
      rw [← h]
      apply step?_at
      change map.lookup _ = (mergeDefinition fields map).lookup _
      rw [hlookup, hfound]
      rfl

theorem target_ref {stack : List String} (h : inlineTarget? defs stack fields = some (name, map)) :
    localRef fields = some name ∧ defs.lookup name = some (.object map) :=
  ⟨(inlineTarget?_some h).1, (inlineTarget?_some h).2.2⟩

theorem reaches_merge {stack : List String} (h : inlineTarget? defs stack fields = some (via, map))
    (hmerged : Reaches defs (.object (mergeDefinition fields map)) name) :
    Reaches defs (.object fields) name := by
  obtain ⟨href, hlookup⟩ := target_ref h
  cases hmerged with
  | here hname =>
    rw [localRef_merge] at hname
    exact .through href hlookup (.here hname)
  | place hstep hbelow =>
    rcases step?_merge hstep with hown | hmap
    · exact .place hown hbelow
    · exact .through href hlookup (.place hmap hbelow)
  | through hnext hfound hthrough =>
    rw [localRef_merge] at hnext
    exact .through href hlookup (.through hnext hfound hthrough)

theorem reaches_of_visited (h : Visited defs a b) (hb : b.schema = .object fields)
    (href : localRef fields = some name) : Reaches defs a.schema name := by
  induction h using Relation.ReflTransGen.head_induction_on with
  | refl =>
    rw [hb]
    exact .here href
  | head hnext _ ih =>
    cases hnext with
    | inlined htarget => exact reaches_merge htarget ih
    | below _ hstep => exact .place hstep ih

theorem stack_kept (h : Visited defs a b) (hname : name ∈ a.stack) : name ∈ b.stack := by
  induction h with
  | refl => exact hname
  | tail _ hnext ih =>
    cases hnext with
    | inlined _ => exact List.mem_cons_of_mem _ ih
    | below _ _ => exact ih

theorem pushed (h : Visited defs a b) (hnew : name ∉ a.stack) (hname : name ∈ b.stack) :
    ∃ stack path own map, Visited defs a ⟨stack, path, .object own⟩ ∧
      inlineTarget? defs stack own = some (name, map) ∧
        Visited defs ⟨name :: stack, path, .object (mergeDefinition own map)⟩ b := by
  induction h with
  | refl => exact absurd hname hnew
  | tail hvisited hnext ih =>
    cases hnext with
    | @inlined stack path fields other map htarget =>
      by_cases hother : name = other
      · subst hother
        exact ⟨stack, path, fields, map, hvisited, htarget, .refl⟩
      · obtain ⟨s, p, own, found, hbefore, hown, hafter⟩ :=
          ih ((List.mem_cons.mp hname).resolve_left hother)
        exact ⟨s, p, own, found, hbefore, hown, hafter.tail (.inlined htarget)⟩
    | below hplain hstep =>
      obtain ⟨s, p, own, found, hbefore, hown, hafter⟩ := ih hname
      exact ⟨s, p, own, found, hbefore, hown, hafter.tail (.below hplain hstep)⟩

/-- The node is put together from places of `own` and of a definition. -/
structure MadeOf (defs own map fields : Fields) : Prop where
  ref : ∀ via, localRef fields = some via → Reaches defs (.object map) via
  places : ∀ step u, step? geminiSlot (.object fields) step = some u →
    step? geminiSlot (.object own) step = some u ∨
      ∀ via, Reaches defs u via → Reaches defs (.object map) via

theorem MadeOf.merged (own map : Fields) : MadeOf defs own map (mergeDefinition own map) where
  ref _ h := .here (localRef_merge own map ▸ h)
  places _ _ h := (step?_merge h).imp_right fun hmap _ hvia => .place hmap hvia

theorem MadeOf.inlined {stack : List String} {found : Fields} (h : MadeOf defs own map fields)
    (htarget : inlineTarget? defs stack fields = some (via, found)) :
    MadeOf defs own map (mergeDefinition fields found) := by
  obtain ⟨href, hlookup⟩ := target_ref htarget
  constructor
  · intro next hnext
    rw [localRef_merge] at hnext
    exact (h.ref via href).trans hlookup (.here hnext)
  · intro step u hstep
    rcases step?_merge hstep with hown | hfound
    · exact h.places step u hown
    · exact .inr fun next hnext => (h.ref via href).trans hlookup (.place hfound hnext)

/-- A ref that is visited below such a node stands in the definition, or in a place of `own`. -/
theorem MadeOf.visited {w : Fields} (h : Visited defs a b) (ha : a.schema = .object fields)
    (hmade : MadeOf defs own map fields) (hb : b.schema = .object w) (href : localRef w = some name) :
    Reaches defs (.object map) name ∨ ∃ step u stack path,
      step? geminiSlot (.object own) step = some u ∧ Visited defs a ⟨stack, path, u⟩ ∧
        Visited defs ⟨stack, path, u⟩ b := by
  induction h using Relation.ReflTransGen.head_induction_on generalizing fields with
  | refl =>
    rw [ha] at hb
    obtain rfl := Value.object.inj hb
    exact .inl (hmade.ref name href)
  | head hnext hrest ih =>
    cases hnext with
    | inlined htarget =>
      obtain rfl := Value.object.inj ha
      rcases ih rfl (hmade.inlined htarget) with hmap | ⟨step, u, stack, path, hown, hto, hfrom⟩
      · exact .inl hmap
      · exact .inr ⟨step, u, stack, path, hown, hto.head (.inlined htarget), hfrom⟩
    | @below stack path _ step u hplain hstep =>
      obtain rfl := Value.object.inj ha
      rcases hmade.places step u hstep with hown | hmap
      · exact .inr ⟨step, u, stack, _, hown, .single (.below hplain hstep), hrest⟩
      · exact .inl (hmap name (reaches_of_visited hrest hb href))

def pointed (schema : Value) (reference : String) : Option Value :=
  match stripPrefix? "#/$defs/" reference with
  | some name => (fieldsAt schema "$defs").lookup name
  | none => (stripPrefix? "#/definitions/" reference).bind fun name =>
      (fieldsAt schema "definitions").lookup name

/-- A visited node that points to the definition `map`, which does not refer to itself. -/
structure PointsTo (schema : Value) (fields : Fields) (name : String) (map : Fields) : Prop where
  ref : localRef fields = some name
  pointed : (refOf fields).bind (pointed schema) = some (.object map)
  acyclic : ¬Cyclic (schemaDefs schema) map name

/-- Every such node becomes its definition. -/
def AllInlined (schema : Value) (path : String) : Prop :=
  ∀ stack place fields name map, Visited (schemaDefs schema) ⟨[], path, schema⟩ ⟨stack, place, .object fields⟩ →
    PointsTo schema fields name map →
      inlineTarget? (schemaDefs schema) stack fields = some (name, map)

/-- No such ref is shadowed by a definition of the same name in the other table, and none
stands in a schema beside a ref to the same definition. -/
structure RefsApart (schema : Value) (path : String) : Prop where
  unshadowed : ∀ stack place fields name map,
    Visited (schemaDefs schema) ⟨[], path, schema⟩ ⟨stack, place, .object fields⟩ →
      PointsTo schema fields name map → (schemaDefs schema).lookup name = some (.object map)
  beside : ∀ stack place fields name map step u stack' place',
    Visited (schemaDefs schema) ⟨[], path, schema⟩ ⟨stack, place, .object fields⟩ →
      inlineTarget? (schemaDefs schema) stack fields = some (name, map) →
      step? geminiSlot (.object fields) step = some u →
      Visited (schemaDefs schema) ⟨name :: stack, place, .object (mergeDefinition fields map)⟩
        ⟨stack', place', u⟩ →
      ∀ stack'' place'' other found,
        Visited (schemaDefs schema) ⟨stack', place', u⟩ ⟨stack'', place'', .object other⟩ →
          ¬PointsTo schema other name found

theorem inlineTarget?_of {stack : List String} (href : localRef fields = some name)
    (hlookup : defs.lookup name = some (.object map)) (hfree : name ∉ stack) :
    inlineTarget? defs stack fields = some (name, map) := by
  unfold localRef at href
  rw [inlineTarget?, href, Option.bind_some, if_neg hfree, hlookup]

theorem refsApart_of_allInlined {schema : Value} {path : String} (h : AllInlined schema path) :
    RefsApart schema path := by
  constructor
  · intro stack place fields name map hvisited hpoints
    exact (inlineTarget?_some (h stack place fields name map hvisited hpoints)).2.2
  · intro stack place fields name map step u stack' place' hvisited htarget _ hbelow
      stack'' place'' other found hlast hpoints
    have hto := (hvisited.trans (.single (.inlined htarget))).trans (hbelow.trans hlast)
    have hmem : name ∈ stack'' := stack_kept (hbelow.trans hlast) List.mem_cons_self
    exact (inlineTarget?_some (h stack'' place'' other name found hto hpoints)).2.1 hmem

theorem allInlined_of_refsApart {schema : Value} {path : String} (h : RefsApart schema path) :
    AllInlined schema path := by
  intro stack place fields name map hvisited hpoints
  have hlookup := h.unshadowed stack place fields name map hvisited hpoints
  apply inlineTarget?_of hpoints.ref hlookup
  intro hmem
  obtain ⟨s, p, own, found, hbefore, htarget, hafter⟩ := pushed hvisited List.not_mem_nil hmem
  have hsame := (target_ref htarget).2.symm.trans hlookup
  obtain rfl := Value.object.inj (Option.some.inj hsame)
  rcases MadeOf.visited hafter rfl (.merged own found) rfl hpoints.ref with
    hcycle | ⟨step, u, stack', place', hown, hto, hfrom⟩
  · exact hpoints.acyclic hcycle
  · exact h.beside s p own name found step u stack' place' hbefore htarget hown hto stack place fields
      found hfrom hpoints

theorem next_at (h : Next defs a b) : ∃ steps,
    at? geminiSlot (relaxGeminiNode defs a.stack a.path a.schema).1 steps =
      some (relaxGeminiNode defs b.stack b.path b.schema).1 := by
  cases h with
  | inlined htarget =>
    refine ⟨[], ?_⟩
    rw [relax_inlined htarget]
    rfl
  | @below stack path fields step u hplain hstep =>
    refine ⟨[step], ?_⟩
    have hitems : ¬(isTuple fields = true ∧ step = .nested "items") := by
      rintro ⟨htuple, rfl⟩
      have hnone := Option.isNone_iff_eq_none.mp (Bool.and_eq_true_iff.mp htuple).2
      rw [step?, if_pos (.inl rfl)] at hstep
      change (fields.lookup "items").filter _ = _ at hstep
      rw [hnone] at hstep
      cases hstep
    rw [at?, step?_plain hplain, if_neg hitems, hstep]
    rfl

theorem at?_append (v : Value) (first second : List Step) : at? geminiSlot v (first ++ second) =
    (at? geminiSlot v first).bind fun u => at? geminiSlot u second := by
  induction first generalizing v with
  | nil => rfl
  | cons step rest ih =>
    rw [List.cons_append, at?, at?]
    cases step? geminiSlot v step with
    | none => rfl
    | some u => exact ih u

theorem visited_at (h : Visited defs a b) : ∃ steps,
    at? geminiSlot (relaxGeminiNode defs a.stack a.path a.schema).1 steps =
      some (relaxGeminiNode defs b.stack b.path b.schema).1 := by
  induction h with
  | refl => exact ⟨[], rfl⟩
  | tail _ hnext ih =>
    obtain ⟨before, hbefore⟩ := ih
    obtain ⟨more, hmore⟩ := next_at hnext
    refine ⟨before ++ more, ?_⟩
    rw [at?_append, hbefore, Option.bind_some]
    exact hmore

/-- An edited node stands in the result, and each key it lost is reported. The tables `$defs`
and `definitions`, of the schema and of any node in it, go without a report. -/
def Accounted (schema : Value) (path : String) : Prop :=
  ∀ stack place fields,
    Visited (schemaDefs schema) ⟨[], path, schema⟩ ⟨stack, place, .object fields⟩ →
      inlineTarget? (schemaDefs schema) stack fields = none →
        ∃ steps node, at? geminiSlot (relaxGeminiSchema schema path).1 steps = some node ∧
          ∀ key, (fields.lookup key).isSome = true →
            (node.get? key).isSome = true ∨ key ∈ ["$defs", "definitions"] ∨ ∃ detail,
              (⟨place ++ "." ++ key, .drop, detail⟩ : LossEvent) ∈ (relaxGeminiSchema schema path).2

theorem accounted (schema : Value) (path : String) : Accounted schema path := by
  intro stack place fields hvisited hplain
  obtain ⟨steps, hsteps⟩ := visited_at hvisited
  refine ⟨steps, _, hsteps, fun key hkey => ?_⟩
  rcases key_accounted hplain place hkey with hkept | hdefs | ⟨detail, hevent⟩
  · exact .inl hkept
  · exact .inr (.inl hdefs)
  · exact .inr (.inr ⟨detail, report_visited hvisited hevent⟩)

def stringFields : Fields := [("type", "string")]

def refFields : Fields := [("$ref", "#/$defs/a")]

/-- A ref to `a`, and beside it a property `x` that is a ref to `a` as well. -/
def besideFields : Fields :=
  [("$ref", "#/$defs/a"), ("properties", .object [("x", .object refFields)]),
    ("$defs", .object [("a", .object stringFields)])]

def besideDefs : Fields := schemaDefs (.object besideFields)

theorem stringFields_acyclic : ¬Cyclic besideDefs stringFields "a" := by
  intro hreaches
  cases hreaches with
  | here href => cases href
  | @place _ _ step u hstep _ =>
    have hempty : step? geminiSlot (.object stringFields) step = step? geminiSlot (.object []) step := by
      apply step?_congr
      intro key hkey
      have htype : key ≠ "type" := by
        rintro rfl
        exact hkey rfl
      simp [Value.get?, stringFields, htype]
    rw [hempty] at hstep
    cases step <;> simp [step?, Value.get?] at hstep
  | through href _ _ => cases href

end Wiremux.InlinedRefs
