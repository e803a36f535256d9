import Wiremux.MessagesItems

set_option autoImplicit false

/-!
# Tool blocks of a Messages request

The tool blocks of a body stand in the order of the items they come from. A block
that is built for a call or a result carries the id that the call was given at
first sight; a raw block is copied with the id it has.
-/
namespace Wiremux.MessagesToolIds
open JsonValue Losses RequestParts MessagesParts ToolUseIds MessagesItems

inductive ToolKind where
  | use
  | result
deriving DecidableEq

def jsonTool (block : Value) : Option (ToolKind × String) :=
  if block.strAt? "type" = some "tool_use" then (block.strAt? "id").map (.use, ·)
  else if block.strAt? "type" = some "tool_result" then
    (block.strAt? "tool_use_id").map (.result, ·)
  else none

def contentTools (message : Value) : List (ToolKind × String) :=
  (((message.get? "content").bind Value.asArray?).getD []).filterMap jsonTool

/-- The tool blocks of the messages of a body. -/
def bodyTools (messages : Value) : List (ToolKind × String) :=
  (messages.asArray?.getD []).flatMap contentTools

/-- What a tool block stands for. -/
inductive ToolSource where
  | call (kind : ToolKind) (callId : String)
  | raw (kind : ToolKind) (id : String)

def ToolSource.callId? : ToolSource → Option String
  | .call _ callId => some callId
  | .raw _ _ => none

def rawSources (tools : List (ToolKind × String)) : List ToolSource :=
  tools.map fun tool => .raw tool.1 tool.2

/-- A raw part that is copied, and is a tool block. -/
def rawTool : IrPart → Option (ToolKind × String)
  | .promptCacheBreakpoint _ inner => rawTool inner
  | .raw typeName raw =>
    if (plainMediaPart raw).isNone && (functionResponseImage (.raw typeName raw)).isNone &&
        messagesRawPassthrough raw then
      jsonTool raw
    else none
  | _ => none

def partSources (parts : List IrPart) : List ToolSource := rawSources (parts.filterMap rawTool)

/-- The tool blocks of an item: its call or result, or raw ones of its parts or its message. -/
def itemSources : IrItem → List ToolSource
  | .user parts | .assistant parts _ => partSources parts
  | .functionCall callId _ _ _ | .customToolCall callId _ _ => [.call .use callId]
  | .functionOutput callId _ _ _ => [.call .result callId]
  | .hostedToolCall _ raw => rawSources (contentTools raw)
  | .unknown typeName raw =>
    if typeName = "toolAddition" ∨ typeName = "toolRemoval" then [] else rawSources (contentTools raw)
  | _ => []

def sourcesOf (items : List IrItem) : List ToolSource := items.flatMap itemSources

def callIds (items : List IrItem) : List String := (sourcesOf items).filterMap ToolSource.callId?

/-- The tool block of a source, when each call has the id `assigned`. -/
def sentTool (assigned : String → String) : ToolSource → ToolKind × String
  | .call kind callId => (kind, assigned callId)
  | .raw kind id => (kind, id)

/-- The tool blocks of the sources, with the ids in the order of first sight. -/
def assignTools (toolIds : ToolIds) : List ToolSource → List (ToolKind × String) × ToolIds
  | [] => ([], toolIds)
  | .call kind callId :: rest =>
    let assigned := assignMessagesToolUseId callId toolIds
    let more := assignTools assigned.2 rest
    ((kind, assigned.1) :: more.1, more.2)
  | .raw kind id :: rest =>
    let more := assignTools toolIds rest
    ((kind, id) :: more.1, more.2)

theorem assignTools_append (toolIds : ToolIds) (first second : List ToolSource) :
    assignTools toolIds (first ++ second) =
      ((assignTools toolIds first).1 ++ (assignTools (assignTools toolIds first).2 second).1,
        (assignTools (assignTools toolIds first).2 second).2) := by
  induction first generalizing toolIds with
  | nil => rfl
  | cons source rest ih =>
    cases source with
    | call kind callId =>
      rw [List.cons_append, assignTools, ih]
      rfl
    | raw kind id =>
      rw [List.cons_append, assignTools, ih]
      rfl

theorem assignTools_raw (toolIds : ToolIds) (tools : List (ToolKind × String)) :
    assignTools toolIds (rawSources tools) = (tools, toolIds) := by
  induction tools with
  | nil => rfl
  | cons tool rest ih =>
    change ((tool.1, tool.2) :: (assignTools toolIds (rawSources rest)).1,
      (assignTools toolIds (rawSources rest)).2) = _
    rw [ih]

theorem assignTools_ids (toolIds : ToolIds) (sources : List ToolSource) :
    (assignTools toolIds sources).2 =
      (assignAll toolIds (sources.filterMap ToolSource.callId?)).2 := by
  induction sources generalizing toolIds with
  | nil => rfl
  | cons source rest ih =>
    cases source with
    | call kind callId => exact ih _
    | raw kind id => exact ih _

theorem assignTools_blocks (toolIds : ToolIds) (sources : List ToolSource) :
    (assignTools toolIds sources).1 =
      sources.map (sentTool (idIn (assignTools toolIds sources).2)) := by
  induction sources generalizing toolIds with
  | nil => rfl
  | cons source rest ih =>
    cases source with
    | call kind callId =>
      have hids := (assignAll_ids toolIds (callId :: rest.filterMap ToolSource.callId?)).1
      have hhead := (List.cons.inj (by simpa only [assignAll, List.map_cons] using hids)).1
      rw [assignTools, List.map_cons]
      refine congrArg₂ (· :: ·) (Prod.ext rfl ?_) (ih _)
      rw [assignTools_ids]
      exact hhead
    | raw kind id => exact congrArg ((kind, id) :: ·) (ih toolIds)

def blockTool (block : Block) : Option (ToolKind × String) := jsonTool block.toJson

theorem jsonTool_of_type {block : Value} (name : String) (h : block.strAt? "type" = some name)
    (huse : name ≠ "tool_use") (hresult : name ≠ "tool_result") : jsonTool block = none := by
  rw [jsonTool, h, if_neg (by simpa using huse), if_neg (by simpa using hresult)]

theorem blockTool_result (id : String) (isError : Bool) (content : Value) :
    blockTool (.toolResult id isError content) = some (.result, id) := by
  have hkey : ∀ key, key ≠ "content" → key ≠ "is_error" →
      (Block.toolResult id isError content).toJson.strAt? key =
        (Value.object [("type", "tool_result"), ("tool_use_id", id)]).strAt? key := by
    intro key hcontent herror
    rw [Value.strAt?, Value.strAt?, Block.toJson, Value.get?_insert_of_ne _ _ hcontent,
      Value.get?_insertSome_of_ne _ _ herror]
  rw [blockTool, jsonTool, hkey "type" (by decide) (by decide),
    hkey "tool_use_id" (by decide) (by decide)]
  rfl

theorem encodePlain_tool (part : IrPart) : (encodePlain part).1.bind jsonTool = none := by
  cases part with
  | text text =>
    rw [encodePlain]
    split <;> rfl
  | imageUrl url detail owner fileId =>
    rw [encodePlain, encodeImageUrl]
    split
    · split <;> rfl
    · split
      · rfl
      · dsimp only
        split
        · split <;> rfl
        · rfl
  | imageBase64 mediaType data =>
    rw [encodePlain]
    split <;> rfl
  | document source mediaType name citations context =>
    rw [encodePlain]
    split
    · rfl
    · refine jsonTool_of_type "document" ?_ (by decide) (by decide)
      rw [Value.strAt?_insertSome_of_ne _ _ (by decide), Value.strAt?_insertSome_of_ne _ _ (by decide),
        encodeDocument, Value.strAt?, Value.get?_insert_of_ne _ _ (by decide),
        Value.get?_insertSome_of_ne _ _ (by decide)]
      rfl
  | thinking text signature =>
    rw [encodePlain]
    split <;> rfl
  | audio data format => rfl
  | raw typeName raw => rfl
  | promptCacheBreakpoint mode inner => rfl

theorem encodePart_tool (part : IrPart) : (encodePart part).1.bind jsonTool = rawTool part := by
  induction part with
  | promptCacheBreakpoint mode inner ih => exact ih
  | raw typeName raw =>
    rw [encodePart, rawTool, encodeRaw]
    cases hplain : plainMediaPart raw with
    | some plain => exact encodePlain_tool plain
    | none =>
      cases himage : functionResponseImage (.raw typeName raw) with
      | some image => rfl
      | none =>
        cases hcopied : messagesRawPassthrough raw with
        | true => rfl
        | false => rfl
  | text text => exact encodePlain_tool _
  | imageUrl url detail owner fileId => exact encodePlain_tool _
  | imageBase64 mediaType data => exact encodePlain_tool _
  | thinking text signature => exact encodePlain_tool _
  | document source mediaType name citations context => exact encodePlain_tool _
  | audio data format => exact encodePlain_tool _

theorem encodeParts_tools (parts : List IrPart) :
    ((encodeParts parts).1.map Block.part).filterMap blockTool = parts.filterMap rawTool := by
  rw [encodeParts, List.filterMap_map, List.filterMap_filterMap]
  exact congrArg (parts.filterMap ·) (funext encodePart_tool)

theorem reasoningBlock_tool {encrypted summary : Option String} {raw : Option Value} {block : Value}
    (h : reasoningBlock encrypted summary raw = some block) : jsonTool block = none := by
  refine jsonTool_of_type "thinking" ?_ (by decide) (by decide)
  unfold reasoningBlock at h
  split at h
  · rename_i value hvalue
    obtain rfl := Option.some.inj h
    simpa using (Option.filter_eq_some_iff.mp hvalue).2
  · obtain ⟨text, _, rfl⟩ := Option.map_eq_some_iff.mp h
    rw [Value.strAt?_insertSome_of_ne _ _ (by decide)]
    rfl

variable {sj : SerdeJson}

def toolsOf (messages : List Message) : List (ToolKind × String) :=
  messages.flatMap fun message => contentTools message.toJson

/-- A step that gives the calls their ids, and writes their blocks behind the others. -/
structure Writes (s : Encoding) (sources : List ToolSource) (s' : Encoding) : Prop where
  ids : s'.toolIds = (assignTools s.toolIds sources).2
  blocks : toolsOf s'.messages = toolsOf s.messages ++ (assignTools s.toolIds sources).1

/-- The same for blocks that are not in a message yet. -/
structure Collects (s : Encoding) (sources : List ToolSource) (r : List Block × Encoding) :
    Prop where
  ids : r.2.toolIds = (assignTools s.toolIds sources).2
  blocks : r.1.filterMap blockTool = (assignTools s.toolIds sources).1
  messages : r.2.messages = s.messages

theorem contentTools_turn (role : Role) (content : List Block) :
    contentTools (Message.turn role content).toJson = content.filterMap blockTool :=
  List.filterMap_map

theorem toolsOf_push (messages : List Message) (role : Role) (content : List Block) :
    toolsOf (messages ++ [.turn role content]) = toolsOf messages ++ content.filterMap blockTool := by
  rw [toolsOf, List.flatMap_append, List.flatMap_singleton, contentTools_turn]
  rfl

theorem Writes.none {s s' : Encoding} (hids : s'.toolIds = s.toolIds)
    (hmessages : s'.messages = s.messages) : Writes s [] s' :=
  ⟨hids, by rw [hmessages]; exact (List.append_nil _).symm⟩

theorem Collects.of_note {s : Encoding} {events : LossReport} {sources : List ToolSource}
    {r : List Block × Encoding} (h : Collects (s.note events) sources r) : Collects s sources r :=
  ⟨h.ids, h.blocks, h.messages⟩

theorem Writes.of_note {s s' : Encoding} {events : LossReport} {sources : List ToolSource}
    (h : Writes (s.note events) sources s') : Writes s sources s' := ⟨h.ids, h.blocks⟩

theorem toolUseBlock_collects (idx : ℕ) (callId name arguments : String) (s : Encoding) :
    Collects s [.call .use callId] ([(toolUseBlock sj idx callId name arguments s).1],
      (toolUseBlock sj idx callId name arguments s).2) := ⟨rfl, rfl, rfl⟩

theorem toolResultBlock_collects (idx : ℕ) (callId output : String) (parts : List IrPart)
    (isError : Bool) (s : Encoding) :
    Collects s [.call .result callId] ([(toolResultBlock sj idx callId output parts isError s).1],
      (toolResultBlock sj idx callId output parts isError s).2) := by
  exact ⟨rfl, List.filterMap_cons_some (blockTool_result _ _ _), rfl⟩

theorem collects_raw {s s' : Encoding} {content : List Block} {tools : List (ToolKind × String)}
    (hids : s'.toolIds = s.toolIds) (hcontent : content.filterMap blockTool = tools)
    (hmessages : s'.messages = s.messages) : Collects s (rawSources tools) (content, s') :=
  ⟨by rw [assignTools_raw]; exact hids, by rw [assignTools_raw]; exact hcontent, hmessages⟩

theorem Collects.append {s : Encoding} {first second : List ToolSource}
    {r r' : List Block × Encoding} (h : Collects s first r) (h' : Collects r.2 second r') :
    Collects s (first ++ second) (r.1 ++ r'.1, r'.2) := by
  refine ⟨?_, ?_, h'.messages.trans h.messages⟩
  · rw [h'.ids, h.ids, assignTools_append]
  · rw [List.filterMap_append, h.blocks, h'.blocks, h.ids, assignTools_append]

theorem Collects.nil (s : Encoding) : Collects s [] ([], s) := ⟨rfl, rfl, rfl⟩

theorem followingResults_collects (sj : SerdeJson) (idx : ℕ) (items : List IrItem) (s : Encoding) :
    Collects s (sourcesOf (items.takeWhile IrItem.isOutput)) (followingResults sj idx items s) := by
  induction items generalizing idx s with
  | nil => exact Collects.nil s
  | cons item rest ih =>
    cases item with
    | functionOutput callId output parts isError =>
      exact (toolResultBlock_collects idx callId output parts isError s).append (ih _ _)
    | _ => exact Collects.nil s

theorem reasoning_collects {encrypted summary : Option String} {raw : Option Value} {s s' : Encoding}
    (hids : s'.toolIds = s.toolIds) (hmessages : s'.messages = s.messages) :
    Collects s [] ((reasoningBlock encrypted summary raw).toList.map Block.part, s') := by
  refine collects_raw hids (?_ : _ = []) hmessages
  cases hblock : reasoningBlock encrypted summary raw with
  | none => rfl
  | some block => exact List.filterMap_cons_none (reasoningBlock_tool hblock)

theorem followingCalls_collects (sj : SerdeJson) (idx : ℕ) (items : List IrItem) (s : Encoding) :
    Collects s (sourcesOf (items.takeWhile IrItem.isFollowUp)) (followingCalls sj idx items s) := by
  induction items generalizing idx s with
  | nil => exact Collects.nil s
  | cons item rest ih =>
    cases item with
    | functionCall callId name arguments signature =>
      exact ((toolUseBlock_collects idx callId name arguments
        (s.note (noteSignature idx signature))).append (ih _ _)).of_note
    | customToolCall callId name input =>
      exact (toolUseBlock_collects idx callId name input s).append (ih _ _)
    | reasoning encrypted summary raw =>
      have hown : Collects s [] ((reasoningBlock encrypted summary raw).toList.map Block.part,
          s.note (noteReasoning idx (reasoningBlock encrypted summary raw))) :=
        reasoning_collects rfl rfl
      exact hown.append (ih _ _)
    | _ => exact Collects.nil s

theorem Collects.push {s : Encoding} {sources : List ToolSource} {r : List Block × Encoding}
    (h : Collects s sources r) (role : Role) : Writes s sources (r.2.push (.turn role r.1)) := by
  refine ⟨h.ids, ?_⟩
  rw [show (r.2.push (.turn role r.1)).messages = r.2.messages ++ [.turn role r.1] from rfl,
    toolsOf_push, h.blocks, h.messages]

theorem contentTools_joinTo (content : List Block) {last : Message} (h : joinable last = true) :
    contentTools (joinTo content last).toJson =
      contentTools last.toJson ++ content.filterMap blockTool := by
  cases last with
  | turn role own => rw [joinTo, contentTools_turn, contentTools_turn, List.filterMap_append]
  | raw value joined =>
    obtain ⟨own, hown⟩ := Option.isSome_iff_exists.mp (Bool.and_eq_true_iff.mp h).2
    have hobject : value.isObject = true := by
      cases value <;> first | rfl | cases hown
    have hjoined : ∀ blocks : List Block, contentTools (Message.raw value blocks).toJson =
        own.filterMap jsonTool ++ blocks.filterMap blockTool := by
      intro blocks
      rw [contentTools, Message.toJson, hown]
      dsimp only
      rw [Value.get?_insert_self _ _ hobject]
      change (own ++ blocksJson blocks).filterMap jsonTool = _
      rw [List.filterMap_append, blocksJson, List.filterMap_map]
      rfl
    rw [joinTo, hjoined, hjoined, List.filterMap_append, List.append_assoc]

theorem toolsOf_joinTo (content : List Block) {messages : List Message} {last : Message}
    (hlast : messages.getLast? = some last) (h : joinable last = true) :
    toolsOf (messages.dropLast ++ [joinTo content last]) =
      toolsOf messages ++ content.filterMap blockTool := by
  obtain ⟨before, rfl⟩ := List.getLast?_eq_some_iff.mp hlast
  rw [List.dropLast_concat, toolsOf, toolsOf, List.flatMap_append, List.flatMap_append,
    List.flatMap_singleton, List.flatMap_singleton, contentTools_joinTo content h, List.append_assoc]

/-- A user turn is written the same way when it is joined to the one before it. -/
theorem Collects.pushUser {s : Encoding} {sources : List ToolSource}
    {r : List Block × Encoding} (h : Collects s sources r) (idx : ℕ) :
    Writes s sources (pushAlternatingUser idx r.1 r.2) := by
  unfold pushAlternatingUser
  cases hlast : r.2.messages.getLast? with
  | none => exact h.push .user
  | some last =>
    dsimp only
    split
    · rename_i hjoin
      refine ⟨h.ids, ?_⟩
      change toolsOf (r.2.messages.dropLast ++ [joinTo r.1 last]) = _
      rw [toolsOf_joinTo r.1 hlast hjoin, h.blocks, h.messages]
    · exact h.push .user

theorem encodeUserParts_tools (idx : ℕ) (parts : List IrPart) :
    (encodeUserParts idx parts).1.filterMap blockTool = parts.filterMap rawTool := by
  have hparts := encodeParts_tools parts
  unfold encodeUserParts
  dsimp only
  split
  · rename_i hempty
    rw [← hparts, List.isEmpty_iff.mp hempty]
    rfl
  · exact hparts

theorem encodeUser_writes (idx : ℕ) (parts : List IrPart) (rest : List IrItem) (s : Encoding) :
    Writes s (sourcesOf (.user parts :: rest.takeWhile IrItem.isOutput))
      (encodeUser sj idx parts rest s) := by
  have hown : Collects s (partSources parts)
      ((encodeUserParts idx parts).1, s.note (encodeUserParts idx parts).2) :=
    collects_raw rfl (encodeUserParts_tools idx parts) rfl
  exact (hown.append (followingResults_collects sj (idx + 1) rest _)).pushUser idx

theorem encodeAssistant_writes (idx : ℕ) (parts : List IrPart) (phase : Option String)
    (rest : List IrItem) (s : Encoding) :
    Writes s (sourcesOf (.assistant parts phase :: rest.takeWhile IrItem.isFollowUp))
      (encodeAssistant sj idx parts rest s) := by
  have hown : Collects s (partSources parts)
      ((encodeParts parts).1.map Block.part, s.note (encodeParts parts).2) :=
    collects_raw rfl (encodeParts_tools parts) rfl
  have hall := hown.append (followingCalls_collects sj (idx + 1) rest _)
  unfold encodeAssistant
  dsimp only
  split
  · rename_i hempty
    have hnone := hall.blocks
    rw [show _ ++ _ = ([] : List Block) from List.isEmpty_iff.mp hempty] at hnone
    have hdot : Collects s _ ([dot], (followingCalls sj (idx + 1) rest
        (s.note (encodeParts parts).2)).2.note (emptied idx)) := ⟨hall.ids, hnone, hall.messages⟩
    exact hdot.push .assistant
  · exact hall.push .assistant

theorem writes_raw (s : Encoding) (value : Value) :
    Writes s (rawSources (contentTools value)) (s.push (.raw value [])) := by
  have hsame : contentTools (Message.raw value []).toJson = contentTools value := by
    rw [Message.toJson]
    cases hown : (value.get? "content").bind Value.asArray? with
    | none => rfl
    | some own =>
      have hobject : value.isObject = true := by
        cases value <;> first | rfl | cases hown
      rw [contentTools, contentTools, Value.get?_insert_self _ _ hobject, hown, blocksJson,
        List.map_nil, List.append_nil]
      rfl
  refine ⟨by rw [assignTools_raw]; rfl, ?_⟩
  rw [assignTools_raw, ← hsame]
  change toolsOf (s.messages ++ [.raw value []]) = _
  rw [toolsOf, List.flatMap_append, List.flatMap_singleton]
  rfl

theorem encodeReasoning_writes (idx : ℕ) (encrypted summary : Option String) (raw : Option Value)
    (s : Encoding) :
    Writes s [] (encodeReasoning idx (reasoningBlock encrypted summary raw) s) := by
  have hblock : Collects s [] ((reasoningBlock encrypted summary raw).toList.map Block.part, s) :=
    reasoning_collects rfl rfl
  cases hreasoning : reasoningBlock encrypted summary raw with
  | none => exact Writes.none rfl rfl
  | some value =>
    rw [hreasoning] at hblock
    exact ⟨rfl, (hblock.push .assistant).blocks⟩

theorem Writes.single {s s' : Encoding} {item : IrItem} (h : Writes s (itemSources item) s') :
    Writes s (sourcesOf [item]) s' := by
  rwa [sourcesOf, List.flatMap_singleton]

theorem encodeItem_writes (idx : ℕ) (item : IrItem) (rest : List IrItem) (s : Encoding) :
    Writes s (sourcesOf (item :: taken item rest)) (encodeItem sj idx item rest s).2 := by
  cases item with
  | user parts => exact encodeUser_writes idx parts rest s
  | assistant parts phase =>
    exact (encodeAssistant_writes idx parts phase rest (s.note (dropPhase idx phase))).of_note
  | functionCall callId name arguments signature =>
    exact ((toolUseBlock_collects idx callId name arguments
      (s.note (noteSignature idx signature))).push .assistant).of_note
  | customToolCall callId name input =>
    exact (toolUseBlock_collects idx callId name input s).push .assistant
  | functionOutput callId output parts isError =>
    exact (toolResultBlock_collects idx callId output parts isError s).push .user
  | reasoning encrypted summary raw => exact encodeReasoning_writes idx encrypted summary raw s
  | hostedToolCall kind raw => exact (writes_raw (s.note _) raw).of_note.single
  | unknown typeName raw =>
    refine Writes.single ?_
    change Writes s (if typeName = "toolAddition" ∨ typeName = "toolRemoval" then _ else _)
      (if typeName = "toolAddition" ∨ typeName = "toolRemoval" then _ else _ : ℕ × Encoding).2
    split
    · exact Writes.none rfl rfl
    · exact writes_raw s raw
  | system r => exact Writes.none rfl rfl
  | systemCache raw => exact Writes.none rfl rfl
  | systemGuard raw => exact Writes.none rfl rfl
  | developer r => exact Writes.none rfl rfl

theorem Writes.trans {s s' s'' : Encoding} {first second : List ToolSource}
    (h : Writes s first s') (h' : Writes s' second s'') : Writes s (first ++ second) s'' := by
  refine ⟨?_, ?_⟩
  · rw [h'.ids, h.ids, assignTools_append]
  · rw [h'.blocks, h.blocks, h.ids, assignTools_append, List.append_assoc]

theorem encodeTurns_writes (items : List IrItem) :
    Writes start (sourcesOf items) (encodeTurns sj items) := by
  have hloop : Writes start (sourcesOf items) (encodeFrom sj 0 0 items start) := by
    refine encodeFrom_keeps (fun pre _ s => Writes start (sourcesOf pre) s) ?_ [] 0 items
      start ⟨rfl, rfl⟩
    intro pre idx item rest left s _ h
    rw [sourcesOf, List.flatMap_append]
    exact h.trans (encodeItem_writes idx item rest s)
  unfold encodeTurns
  dsimp only
  split
  · have hlast : Collects (encodeFrom sj 0 0 items start) []
        ([.part (textBlock "Continue.")], encodeFrom sj 0 0 items start) := ⟨rfl, rfl, rfl⟩
    have hnext := hloop.trans (hlast.push .user)
    rwa [List.append_nil] at hnext
  · exact hloop

/-- The tool blocks of a body are those of the sources, and a result refers to the
call with its id, or to a raw block that brought the same one. -/
structure ToolsMatch (sources : List ToolSource) (tools : List (ToolKind × String))
    (assigned : String → String) : Prop where
  blocks : tools = sources.map (sentTool assigned)
  refers : ∀ (i j : ℕ) (callId : String), sources[i]? = some (ToolSource.call .result callId) →
    tools[j]? = some (ToolKind.use, assigned callId) →
      sources[j]? = some (ToolSource.call .use callId) ∨
        sources[j]? = some (ToolSource.raw .use (assigned callId))

theorem mem_callIds {items : List IrItem} {i : ℕ} {kind : ToolKind} {callId : String}
    (h : (sourcesOf items)[i]? = some (ToolSource.call kind callId)) : callId ∈ callIds items :=
  List.mem_filterMap.mpr ⟨_, List.mem_of_getElem? h, rfl⟩

theorem toolsMatch_of_blocks {items : List IrItem} {tools : List (ToolKind × String)}
    {assigned : String → String} (hconsistent : Consistent (callIds items) assigned)
    (hblocks : tools = (sourcesOf items).map (sentTool assigned)) :
    ToolsMatch (sourcesOf items) tools assigned := by
  refine ⟨hblocks, fun i j callId hresult huse => ?_⟩
  rw [hblocks, List.getElem?_map] at huse
  obtain ⟨source, hsource, hsent⟩ := Option.map_eq_some_iff.mp huse
  rw [hsource]
  cases source with
  | call kind other =>
    obtain ⟨rfl, hid⟩ := Prod.mk.inj hsent
    have hsame := (hconsistent.apart other (mem_callIds hsource) callId (mem_callIds hresult)).mp hid
    exact .inl (by rw [hsame])
  | raw kind id =>
    obtain ⟨rfl, rfl⟩ := Prod.mk.inj hsent
    exact .inr rfl

/-- Assigned ids are legal and keep calls apart, the search for one ends, and the tool
blocks of a body are those of its calls and results under these ids, beside raw ones. -/
theorem tool_ids_consistent (sj : SerdeJson) :
    (∀ calls : List String, ∃ assigned : String → String, Consistent calls assigned ∧
      (assignAll [] calls).1 = calls.map assigned) ∧
    (∀ (used : List String) (base : String), ∃ rounds id,
      searchSuffix used base rounds base 2 = some id ∧ id ∉ used) ∧
    ∀ items : List IrItem, ∃ assigned : String → String, Consistent (callIds items) assigned ∧
      ToolsMatch (sourcesOf items) (bodyTools (encodeItems sj items).2.1) assigned := by
  refine ⟨fun calls => ?_, fun used base => ?_, fun items => ?_⟩
  · exact ⟨_, assignAll_consistent calls, (assignAll_ids [] calls).1⟩
  · exact ⟨_, _, searchSuffix_ends used base, unusedId_unused used base⟩
  · have hconsistent := assignAll_consistent (callIds items)
    refine ⟨_, hconsistent, toolsMatch_of_blocks hconsistent ?_⟩
    have hbody : bodyTools (encodeItems sj items).2.1 = toolsOf (encodeTurns sj items).messages :=
      List.flatMap_map _ _ _
    rw [hbody, (encodeTurns_writes items).blocks]
    change [] ++ (assignTools [] (sourcesOf items)).1 = _
    rw [List.nil_append, assignTools_blocks, assignTools_ids]
    rfl

/-- A user turn that brings a raw `tool_use` with the id of a call, and the call's result. -/
def copiedId : List IrItem :=
  [.user [.raw "tool_use" (.object [("type", "tool_use"), ("id", "a"), ("name", "f"), ("input", .object [])])],
    .functionCall "a" "f" "{}" none, .functionOutput "a" "1" [] false]

theorem raw_block_takes_id : ¬ ∀ (sj : SerdeJson) (items : List IrItem) (i j : ℕ) (callId id : String),
    (sourcesOf items)[i]? = some (ToolSource.call .result callId) →
    (bodyTools (encodeItems sj items).2.1)[i]? = some (ToolKind.result, id) →
    (bodyTools (encodeItems sj items).2.1)[j]? = some (ToolKind.use, id) →
      (sourcesOf items)[j]? = some (ToolSource.call .use callId) := by
  intro hall
  have hraw := hall flatJson copiedId 2 0 "a" "a" rfl rfl rfl
  cases hraw

end Wiremux.MessagesToolIds
