import Wiremux.MessagesRequests

set_option autoImplicit false

/-!
# The loss event of a relaxed tool choice

Of all events of a Messages request only one is that of the step on the tool choice: every
other one has another action, another path or another detail.
-/
namespace Wiremux.ChoiceLosses
open JsonValue Losses RequestParts MessagesParts MessagesItems ToolPreparation
open MessagesCache MessagesSampling MessagesRequests

def isDowngrade (event : LossEvent) : Bool :=
  event.path == "sampling.tool_choice" && event.action == .degrade &&
    event.detail == modelForcesToolChoiceAuto

def downgrade : LossEvent := ⟨"sampling.tool_choice", .degrade, modelForcesToolChoiceAuto⟩

def Quiet (report : LossReport) : Prop := ∀ event ∈ report, isDowngrade event = false

def Drops (report : LossReport) : Prop := ∀ event ∈ report, event.action = .drop

variable {a b report : LossReport} {event : LossEvent} {sj : SerdeJson} {s : Encoding}

theorem isDowngrade_action (h : event.action ≠ .degrade) : isDowngrade event = false := by
  rw [isDowngrade, beq_false_of_ne h, Bool.and_false, Bool.false_and]

theorem isDowngrade_detail {path detail : String} {action : LossAction}
    (h : detail ≠ modelForcesToolChoiceAuto) : isDowngrade ⟨path, action, detail⟩ = false := by
  rw [isDowngrade, beq_false_of_ne h, Bool.and_false]

theorem quiet_nil : Quiet [] := fun _ hmem => absurd hmem List.not_mem_nil

theorem quiet_append (ha : Quiet a) (hb : Quiet b) : Quiet (a ++ b) :=
  List.forall_mem_append.mpr ⟨ha, hb⟩

theorem quiet_cons (he : isDowngrade event = false) (hb : Quiet b) : Quiet (event :: b) :=
  List.forall_mem_cons.mpr ⟨he, hb⟩

theorem quiet_one (he : isDowngrade event = false) : Quiet [event] := quiet_cons he quiet_nil

theorem quiet_noteIf {present : Bool} (he : isDowngrade event = false) : Quiet (noteIf present event) := by
  cases present with
  | false => exact quiet_nil
  | true => exact quiet_one he

theorem quiet_flatMap {α : Type} {f : α → LossReport} (hf : ∀ x, Quiet (f x)) (l : List α) :
    Quiet (l.flatMap f) := List.forall_mem_flatMap.mpr fun x _ => hf x

theorem dropped_quiet (path detail : String) : isDowngrade (dropped path detail) = false :=
  isDowngrade_action LossAction.noConfusion

theorem quiet_dropIf {present : Bool} (path detail : String) :
    Quiet (noteIf present (dropped path detail)) := quiet_noteIf (dropped_quiet path detail)

theorem quiet_noSlots (fields : List (String × Bool)) : Quiet (noSlots fields) :=
  quiet_flatMap (fun _ => quiet_dropIf _ _) fields

theorem quiet_of_drops (h : Drops report) : Quiet report := by
  intro event hmem
  refine isDowngrade_action ?_
  rw [h event hmem]
  exact LossAction.noConfusion

theorem drops_nil : Drops [] := fun _ hmem => absurd hmem List.not_mem_nil

theorem drops_append (ha : Drops a) (hb : Drops b) : Drops (a ++ b) :=
  List.forall_mem_append.mpr ⟨ha, hb⟩

theorem drops_cons (path detail : String) (hb : Drops b) : Drops (dropped path detail :: b) :=
  List.forall_mem_cons.mpr ⟨rfl, hb⟩

theorem drops_one (path detail : String) : Drops [dropped path detail] :=
  drops_cons path detail drops_nil

theorem drops_flatMap {α : Type} {f : α → LossReport} (hf : ∀ x, Drops (f x)) (l : List α) :
    Drops (l.flatMap f) := List.forall_mem_flatMap.mpr fun x _ => hf x

theorem drops_mode (mode : String) : Drops (droppedMode mode) := by
  unfold droppedMode
  split
  · exact drops_nil
  · exact drops_one _ _

theorem drops_imageUrl (url : String) (detail fileId : Option String) :
    Drops (encodeImageUrl url detail fileId).2 := by
  have hnoted : Drops (noteDroppedImageDetail detail "messages") := by
    unfold noteDroppedImageDetail
    split
    · exact drops_one _ _
    · exact drops_nil
  unfold encodeImageUrl
  split
  · split <;> exact drops_one _ _
  · split
    · exact drops_one _ _
    · dsimp only
      split
      · split
        · exact drops_append hnoted (drops_one _ _)
        · exact hnoted
      · exact hnoted

theorem drops_plain (part : IrPart) : Drops (encodePlain part).2 := by
  cases part with
  | imageUrl url detail format fileId =>
    rw [encodePlain]
    exact drops_imageUrl url detail fileId
  | text text =>
    rw [encodePlain]
    split <;> exact drops_nil
  | imageBase64 mediaType data =>
    rw [encodePlain]
    split
    · exact drops_one _ _
    · exact drops_nil
  | document source mediaType name citationsEnabled context =>
    rw [encodePlain]
    split
    · exact drops_one _ _
    · exact drops_nil
  | audio data format =>
    rw [encodePlain]
    exact drops_one _ _
  | thinking text signature =>
    rw [encodePlain]
    split
    · exact drops_one _ _
    · exact drops_nil
  | _ =>
    rw [encodePlain]
    exact drops_nil

theorem drops_raw (typeName : String) (raw : Value) : Drops (encodeRaw typeName raw).2 := by
  unfold encodeRaw
  split
  · exact drops_cons _ _ (drops_plain _)
  · split
    · exact drops_nil
    · split
      · exact drops_nil
      · exact drops_one _ _

theorem drops_part (part : IrPart) : Drops (encodePart part).2 := by
  induction part with
  | promptCacheBreakpoint mode inner ih => exact drops_append ih (drops_mode mode)
  | raw typeName raw => exact drops_raw typeName raw
  | _ => exact drops_plain _

theorem drops_parts (parts : List IrPart) : Drops (MessagesParts.encodeParts parts).2 :=
  drops_flatMap drops_part parts

theorem drops_resultPart (ordered : Bool) (part : IrPart) : Drops (resultPart sj ordered part).2 := by
  unfold resultPart
  split
  · exact drops_nil
  · split
    · exact drops_nil
    · exact drops_part _
  · split
    · exact drops_flatMap drops_mode _
    · exact drops_part _
  · exact drops_part _

theorem drops_resultContent (output : String) (parts : List IrPart) :
    Drops (resultContent sj output parts).2 := by
  unfold resultContent
  split
  · exact drops_nil
  · exact drops_flatMap (drops_resultPart _) parts

theorem drops_systemPart (part : IrPart) : Drops (systemPart part).2 := by
  unfold systemPart
  split <;> first | exact drops_nil | exact drops_one _ _

theorem drops_role (r : RoleText) : Drops (noteRole r) := by
  have hbreakpoint : ∀ mode, Drops (noteRoleBreakpoint mode) := by
    intro mode
    cases mode with
    | none => exact drops_nil
    | some mode => exact drops_mode mode
  unfold noteRole
  refine drops_append (hbreakpoint _) ?_
  split
  · exact drops_nil
  · exact hbreakpoint _

theorem drops_roleText (r : RoleText) : Drops (systemRoleText r).2 := by
  unfold systemRoleText
  split
  · exact drops_nil
  · exact drops_flatMap drops_systemPart _

theorem quiet_note {events : LossReport} (h : Quiet s.report) (he : Quiet events) :
    Quiet (s.note events).report := quiet_append h he

theorem quiet_rewriteId (callId : String) (idx : ℕ) (h : Quiet s.report) :
    Quiet (s.rewriteId callId idx).2.report := by
  unfold Encoding.rewriteId
  refine quiet_append h ?_
  split
  · exact quiet_nil
  · exact quiet_one (isDowngrade_detail (by decide))

theorem quiet_toolUse (idx : ℕ) (callId name arguments : String) (h : Quiet s.report) :
    Quiet (toolUseBlock sj idx callId name arguments s).2.report := by
  have hid := quiet_rewriteId callId idx h
  unfold toolUseBlock ToolArguments.callInput ToolArguments.jsonObjectOrRaw
  dsimp only
  split
  · exact quiet_append hid (quiet_one (isDowngrade_detail (by simp [modelForcesToolChoiceAuto])))
  · exact hid

theorem quiet_toolResult (idx : ℕ) (callId output : String) (parts : List IrPart) (isError : Bool)
    (h : Quiet s.report) : Quiet (toolResultBlock sj idx callId output parts isError s).2.report :=
  quiet_note (quiet_rewriteId callId idx h) (quiet_of_drops (drops_resultContent output parts))

theorem quiet_signature (idx : ℕ) (signature : Option String) : Quiet (noteSignature idx signature) := by
  unfold noteSignature
  split
  · exact quiet_one (dropped_quiet _ _)
  · exact quiet_nil

theorem quiet_reasoning (idx : ℕ) (block : Option Value) : Quiet (noteReasoning idx block) := by
  unfold noteReasoning
  split <;> exact quiet_one (isDowngrade_detail (by decide))

theorem quiet_emptied (idx : ℕ) : Quiet (emptied idx) :=
  quiet_one (isDowngrade_detail (by decide))

theorem quiet_results (sj : SerdeJson) (idx : ℕ) (rest : List IrItem) (h : Quiet s.report) :
    Quiet (followingResults sj idx rest s).2.report := by
  induction rest generalizing idx s with
  | nil => exact h
  | cons item rest ih =>
    cases item with
    | functionOutput callId output parts isError =>
      exact ih (idx + 1) (quiet_toolResult idx callId output parts isError h)
    | _ => exact h

theorem quiet_calls (sj : SerdeJson) (idx : ℕ) (rest : List IrItem) (h : Quiet s.report) :
    Quiet (followingCalls sj idx rest s).2.report := by
  induction rest generalizing idx s with
  | nil => exact h
  | cons item rest ih =>
    cases item with
    | functionCall callId name arguments signature =>
      exact ih (idx + 1) (quiet_toolUse idx callId name arguments
        (quiet_note h (quiet_signature idx signature)))
    | customToolCall callId name input => exact ih (idx + 1) (quiet_toolUse idx callId name input h)
    | reasoning encrypted summary raw => exact ih (idx + 1) (quiet_note h (quiet_reasoning idx _))
    | _ => exact h

theorem quiet_user (idx : ℕ) (parts : List IrPart) (rest : List IrItem) (h : Quiet s.report) :
    Quiet (encodeUser sj idx parts rest s).report := by
  have hown : Quiet (encodeUserParts idx parts).2 := by
    unfold encodeUserParts
    dsimp only
    split
    · exact quiet_append (quiet_of_drops (drops_parts parts)) (quiet_emptied idx)
    · exact quiet_of_drops (drops_parts parts)
  have hresults := quiet_results sj (idx + 1) rest (quiet_note h hown)
  unfold encodeUser pushAlternatingUser
  dsimp only
  split
  · split
    · exact quiet_append hresults (quiet_one (isDowngrade_detail (by decide)))
    · exact hresults
  · exact hresults

theorem quiet_assistant (idx : ℕ) (parts : List IrPart) (rest : List IrItem) (h : Quiet s.report) :
    Quiet (encodeAssistant sj idx parts rest s).report := by
  have hcalls := quiet_calls sj (idx + 1) rest
    (quiet_note h (quiet_of_drops (drops_parts parts)))
  unfold encodeAssistant
  dsimp only
  split
  · exact quiet_note hcalls (quiet_emptied idx)
  · exact hcalls

theorem quiet_role (r : RoleText) {events : LossReport} (h : Quiet s.report) (he : Quiet events) :
    Quiet (encodeRole r events s).report :=
  quiet_append h (quiet_append (quiet_append (quiet_of_drops (drops_role r)) he)
    (quiet_of_drops (drops_roleText r)))

theorem quiet_item (idx : ℕ) (item : IrItem) (rest : List IrItem) (h : Quiet s.report) :
    Quiet (encodeItem sj idx item rest s).2.report := by
  cases item with
  | system r =>
    refine quiet_role r h ?_
    split
    · exact quiet_nil
    · exact quiet_one (isDowngrade_detail (by decide))
  | systemCache raw => exact quiet_note h (quiet_one (dropped_quiet _ _))
  | systemGuard raw => exact quiet_note h (quiet_one (dropped_quiet _ _))
  | developer r => exact quiet_role r h (quiet_one (isDowngrade_detail (by decide)))
  | user parts => exact quiet_user idx parts rest h
  | assistant parts phase =>
    refine quiet_assistant idx parts rest (quiet_note h ?_)
    unfold dropPhase
    split
    · exact quiet_one (dropped_quiet _ _)
    · exact quiet_nil
  | functionCall callId name arguments signature =>
    exact quiet_toolUse idx callId name arguments (quiet_note h (quiet_signature idx signature))
  | customToolCall callId name input => exact quiet_toolUse idx callId name input h
  | functionOutput callId output parts isError =>
    exact quiet_toolResult idx callId output parts isError h
  | reasoning encrypted summary raw =>
    change Quiet (encodeReasoning idx (reasoningBlock encrypted summary raw) s).report
    unfold encodeReasoning
    split <;> exact quiet_note h (quiet_reasoning idx _)
  | hostedToolCall kind raw =>
    exact quiet_note h (quiet_one (isDowngrade_action LossAction.noConfusion))
  | unknown typeName raw =>
    unfold encodeItem
    dsimp only
    split
    · exact quiet_note h (quiet_one (dropped_quiet _ _))
    · exact h

theorem quiet_turns (items : List IrItem) : Quiet (encodeTurns sj items).report := by
  have hloop : Quiet (encodeFrom sj 0 0 items start).report :=
    encodeFrom_keeps (fun _ _ s => Quiet s.report)
      (fun _ idx item rest _ _ _ h => quiet_item idx item rest h) [] 0 items start quiet_nil
  unfold encodeTurns
  dsimp only
  split <;> exact hloop

theorem quiet_strict (path : String) (strict : Option Bool) : Quiet (strictLoss path strict) :=
  quiet_dropIf _ _

theorem quiet_tool (policy : ToolTypePolicy) (path : String) (tool : IrTool)
    (prepared : List PreparedTool) : Quiet (toolLosses policy path tool prepared) := by
  have hflat : ∀ tool, Quiet (flatStrictLoss path tool) := by
    intro tool
    cases tool with
    | function f => exact quiet_strict path f.strict
    | raw value => exact quiet_nil
  cases tool with
  | function f => exact quiet_strict path f.strict
  | namespaceTool name raw =>
    unfold toolLosses
    dsimp only
    split
    · exact quiet_one (isDowngrade_detail (by decide))
    · exact quiet_cons (isDowngrade_detail (by decide)) (quiet_flatMap hflat prepared)
  | hosted kind raw => exact quiet_one (isDowngrade_detail (by decide))
  | cachePoint raw => exact quiet_one (dropped_quiet _ _)
  | unknown typeName raw =>
    unfold toolLosses
    dsimp only
    split
    · exact quiet_one (dropped_quiet _ _)
    · split <;> exact quiet_one (isDowngrade_detail (by decide))

theorem quiet_prepared (policy : ToolTypePolicy) (prepared : List (IrTool × List PreparedTool)) :
    Quiet (preparedLosses policy prepared) :=
  quiet_flatMap (fun _ => quiet_tool policy _ _ _) _

theorem quiet_serviceTier (tier : Option String) : Quiet (serviceTierLosses tier) := by
  have hevent : ∀ tier, Quiet (serviceTierEvent tier) := by
    intro tier
    unfold serviceTierEvent
    split
    · exact quiet_nil
    · exact quiet_nil
    · exact quiet_one (isDowngrade_detail (by decide))
    · exact quiet_one (isDowngrade_detail (by decide))
    · exact quiet_one (dropped_quiet _ _)
  exact quiet_flatMap hevent _

theorem quiet_plain (s : IrSampling) (o : OtherSettings) (body : Value) :
    Quiet (plainLosses s o body) := by
  unfold plainLosses
  refine quiet_append (quiet_noSlots _) (quiet_append (quiet_noSlots _) (quiet_append ?_ ?_))
  · exact quiet_flatMap (fun _ => quiet_dropIf _ _) s.stop
  refine quiet_append (quiet_noteIf (isDowngrade_detail (by decide))) (quiet_append (quiet_noSlots _) ?_)
  refine quiet_append (quiet_noSlots _) (quiet_append (quiet_noSlots _) ?_)
  refine quiet_append (quiet_noSlots _) (quiet_append (quiet_noSlots _) ?_)
  refine quiet_append (quiet_noSlots _) (quiet_append (quiet_serviceTier _) ?_)
  exact quiet_noteIf (isDowngrade_detail (by decide))

theorem quiet_unused (s : IrSampling) (why : String) : Quiet (unusedThinking s why) :=
  quiet_append (quiet_dropIf _ _) (quiet_dropIf _ _)

theorem quiet_thinking (s : IrSampling) (body : Value) : Quiet (thinkingLosses s body) := by
  unfold thinkingLosses
  split
  · refine quiet_cons (isDowngrade_detail (by decide)) (quiet_append (quiet_dropIf _ _)
      (quiet_append (quiet_unused _ _) (quiet_noteIf ?_)))
    split
    · exact dropped_quiet _ _
    · exact isDowngrade_detail (by decide)
  · refine quiet_append (quiet_dropIf _ _) ?_
    split
    · exact quiet_cons (isDowngrade_detail (by decide))
        (quiet_append (quiet_dropIf _ _) (quiet_unused _ _))
    · split
      · exact quiet_nil
      · refine quiet_append (quiet_noteIf (isDowngrade_detail (by decide))) (quiet_append ?_
          (quiet_append (quiet_noteIf (isDowngrade_detail (by decide)))
            (quiet_noteIf (isDowngrade_detail (by decide)))))
        split
        · exact quiet_cons (isDowngrade_detail (by decide))
            (quiet_noteIf (isDowngrade_detail (by decide)))
        · exact quiet_noteIf (isDowngrade_detail (by decide))

theorem quiet_rejected (s : IrSampling) (body : Value) : Quiet (rejectedLosses s body) := by
  unfold rejectedLosses
  split
  · exact quiet_append (quiet_dropIf _ _) (quiet_append (quiet_dropIf _ _)
      (quiet_append (quiet_dropIf _ _) (quiet_noteIf (isDowngrade_detail (by decide)))))
  · exact quiet_nil

theorem quiet_late (s : IrSampling) (o : OtherSettings) (body : Value) :
    Quiet (lateLosses s o body) := by
  have hconfig : Quiet (outputConfigLosses s o) := by
    unfold outputConfigLosses
    split
    · exact quiet_nil
    · split
      · exact quiet_cons (isDowngrade_detail (by decide)) (quiet_dropIf _ _)
      · exact quiet_one (dropped_quiet _ _)
  exact quiet_append (quiet_noSlots _) (quiet_append (quiet_noteIf (isDowngrade_detail (by decide)))
    (quiet_append (quiet_noSlots _) (quiet_append hconfig (quiet_noSlots _))))

theorem quiet_strip (keys : List String) (body : Value) : Quiet (stripLosses keys body) := by
  induction keys generalizing body with
  | nil => exact quiet_nil
  | cons key rest ih => exact quiet_append (quiet_dropIf _ _) (ih _)

end Wiremux.ChoiceLosses
