import Wiremux.ChatCompleteDecoding
import Wiremux.ConverseComplete
import Wiremux.GeminiComplete
import Wiremux.MessagesComplete
import Wiremux.ResponsesComplete

set_option autoImplicit false

/-!
# The calls of a translated complete body

Every encoder of a complete body keeps the calls in slots, and writes nothing else
that reads as a call. So a Chat body keeps its calls exactly when these stay apart,
come out in their order, and are written with their names and arguments.
-/
namespace Wiremux.UnaryCalls
open JsonValue StreamEvents StreamEventFrames CompleteTools Completion CallSlots ChatCompleteDecoding
open ChatComplete MessagesComplete GeminiComplete ResponsesComplete ConverseComplete

/-- The complete (non-SSE) client body of the events. -/
def encodeResponse (sj : SerdeJson) (wire : Wire) (model : String) (evs : List IrStreamEvent) :
    Except MapError Value :=
  match wire with
  | .chatCompletions => .ok (encodeChatComplete evs model)
  | .messages => .ok (encodeMessagesComplete sj evs model)
  | .gemini => .ok (encodeGeminiComplete sj evs model)
  | .responses => .ok (encodeResponsesComplete evs model)
  | .converse => encodeComplete sj evs

variable (sj : SerdeJson)

def firstItem (value : Value) (key : String) : Option Value := (items (value.get? key)).head?

def hasType (ty : String) (item : Value) : Bool := item.strAt? "type" = some ty

def isCallItem (item : Value) : Bool := hasType "function_call" item || hasType "custom_tool_call" item

/-- The items of a complete body that are calls. -/
def bodyCalls (wire : Wire) (out : Value) : List Value :=
  match wire with
  | .chatCompletions => items ((firstItem out "choices").bind fun choice =>
      pointer? choice ["message", "tool_calls"])
  | .messages => (items (out.get? "content")).filter (hasType "tool_use")
  | .gemini => (items ((firstItem out "candidates").bind fun candidate =>
      pointer? candidate ["content", "parts"])).filter fun part => (part.get? "functionCall").isSome
  | .responses => (items (out.get? "output")).filter isCallItem
  | .converse => (items (pointer? out ["output", "message", "content"])).filter fun block =>
      (block.get? "toolUse").isSome

def namePath : Wire → List String
  | .chatCompletions => ["function", "name"]
  | .messages => ["name"]
  | .gemini => ["functionCall", "name"]
  | .responses => ["name"]
  | .converse => ["toolUse", "name"]

def argsPath : Wire → List String
  | .chatCompletions => ["function", "arguments"]
  | .messages => ["input"]
  | .gemini => ["functionCall", "args"]
  | .responses => ["arguments"]
  | .converse => ["toolUse", "input"]

/-- The argument text itself, or the value it is the text of; no text is no arguments. -/
def argsKept (args : String) (v : Value) : Prop :=
  v = .string args ∨ sj.fromStr args = some v ∨ (args = "" ∧ v = .object [])

/-- The call of a body has the name and the arguments of the entry. -/
structure Carries (wire : Wire) (e : CallEntry) (call : Value) : Prop where
  name : pointer? call (namePath wire) = some (.string e.name)
  args : ∃ v, pointer? call (argsPath wire) = some v ∧ argsKept sj e.argText v

def callValue (wire : Wire) (tool : IndexedTool) : Value :=
  match wire with
  | .chatCompletions => chatToolCallValue tool
  | .messages => messagesToolUseValue sj tool
  | .gemini => functionCallPart tool.id tool.name (parsedToolInput sj tool.args tool.custom) tool.signature
  | .responses => responsesToolCallValue tool {}
  | .converse => converseToolUse sj tool

/-- Gemini leaves out calls without a name, Converse those with neither name nor id. -/
def shown (wire : Wire) (tool : IndexedTool) : Bool :=
  match wire with
  | .gemini => !tool.name.isEmpty
  | .converse => toolNamed tool
  | _ => true

def writtenArgs (wire : Wire) (args : String) : Value :=
  match wire with
  | .chatCompletions => .string args
  | .responses => .string args
  | .messages => (sj.fromStr args).getD (.object [])
  | .gemini => (sj.fromStr args).getD (.object [])
  | .converse => (sj.fromStr args).getD (.string args)

theorem functionCallPart_get (id name : String) (args : Value) (signature : Option String) :
    ∃ call, (functionCallPart id name args signature).get? "functionCall" = some call ∧
      call.get? "name" = some (.string name) ∧ call.get? "args" = some args := by
  refine ⟨_, Value.get?_insertSome_of_ne _ _ (by decide), ?_⟩
  split
  · exact ⟨rfl, rfl⟩
  · exact ⟨Value.get?_insert_of_ne _ _ (by decide), Value.get?_insert_of_ne _ _ (by decide)⟩

theorem callValue_name (wire : Wire) (e : CallEntry) :
    pointer? (callValue sj wire e.tool) (namePath wire) = some (.string e.name) := by
  cases wire with
  | gemini =>
    obtain ⟨call, hcall, hname, _⟩ := functionCallPart_get e.id e.name
      (parsedToolInput sj e.argText false) none
    rw [callValue, namePath, pointer?, CallEntry.tool]
    simp only
    rw [hcall, Option.bind_some, pointer?, hname]
    rfl
  | _ => rfl

theorem callValue_args (wire : Wire) (e : CallEntry) :
    pointer? (callValue sj wire e.tool) (argsPath wire) = some (writtenArgs sj wire e.argText) := by
  cases wire with
  | gemini =>
    obtain ⟨call, hcall, _, hargs⟩ := functionCallPart_get e.id e.name
      (parsedToolInput sj e.argText false) none
    rw [callValue, argsPath, pointer?, CallEntry.tool]
    simp only
    rw [hcall, Option.bind_some, pointer?, hargs]
    rfl
  | _ => rfl

/-- What stands in the slot of a call is that call. -/
structure Stands (wire : Wire) (e slot : CallEntry) : Prop where
  shown : shown wire slot.tool = true
  name : slot.name = e.name
  args : argsKept sj e.argText (writtenArgs sj wire slot.argText)

theorem carries_iff (wire : Wire) (e slot : CallEntry) :
    Carries sj wire e (callValue sj wire slot.tool) ↔
      slot.name = e.name ∧ argsKept sj e.argText (writtenArgs sj wire slot.argText) := by
  constructor
  · rintro ⟨hname, v, hv, hargs⟩
    rw [callValue_name] at hname
    rw [callValue_args] at hv
    exact ⟨Value.string.inj (Option.some.inj hname), Option.some.inj hv ▸ hargs⟩
  · rintro ⟨hname, hargs⟩
    exact ⟨hname ▸ callValue_name sj wire slot, _, callValue_args sj wire slot, hargs⟩

/-- A fold over the events keeps the calls in slots, and what is `clean` stays so. -/
structure KeepsCalls {B : Type*} (f : B → IrStreamEvent → Except MapError B) (tools : B → IndexedTools)
    (clean : B → Prop) : Prop where
  aside : ∀ b b' ev, aside ev = true → clean b → f b ev = .ok b' → tools b' = tools b ∧ clean b'
  start : ∀ b b' id name index, clean b → f b (.toolCallStart id name none index) = .ok b' →
    tools b' = indexedToolStart index id name false none (tools b) ∧ clean b'
  delta : ∀ b b' delta index, clean b → f b (.toolCallArgDelta delta index) = .ok b' →
    tools b' = indexedToolDelta index delta (tools b) ∧ clean b'

section Folds
variable {B : Type*} {f : B → IrStreamEvent → Except MapError B} {tools : B → IndexedTools}
  {clean : B → Prop}

theorem foldlM_cons_ok {ev : IrStreamEvent} {events : List IrStreamEvent} {b last : B}
    (h : (ev :: events).foldlM f b = .ok last) : ∃ next, f b ev = .ok next ∧
      events.foldlM f next = .ok last := by
  rw [List.foldlM_cons] at h
  cases hnext : f b ev with
  | error e =>
    rw [hnext] at h
    cases h
  | ok next =>
    rw [hnext] at h
    exact ⟨next, rfl, h⟩

theorem foldlM_append_ok {xs ys : List IrStreamEvent} {b last : B}
    (h : (xs ++ ys).foldlM f b = .ok last) : ∃ mid, xs.foldlM f b = .ok mid ∧
      ys.foldlM f mid = .ok last := by
  induction xs generalizing b with
  | nil => exact ⟨b, rfl, h⟩
  | cons ev rest ih =>
    obtain ⟨next, hnext, hrest⟩ := foldlM_cons_ok h
    obtain ⟨mid, hmid, hlast⟩ := ih hrest
    refine ⟨mid, ?_, hlast⟩
    rw [List.foldlM_cons, hnext]
    exact hmid

theorem KeepsCalls.asides (h : KeepsCalls f tools clean) {events : List IrStreamEvent} {b last : B}
    (hevents : Asides events) (hclean : clean b) (hfold : events.foldlM f b = .ok last) :
    tools last = tools b ∧ clean last := by
  induction events generalizing b with
  | nil =>
    obtain rfl := Except.ok.inj hfold
    exact ⟨rfl, hclean⟩
  | cons ev rest ih =>
    obtain ⟨next, hnext, hrest⟩ := foldlM_cons_ok hfold
    obtain ⟨htools, hnextClean⟩ := h.aside b next ev (hevents ev List.mem_cons_self) hclean hnext
    obtain ⟨hlast, hlastClean⟩ := ih (fun e he => hevents e (List.mem_cons_of_mem _ he)) hnextClean hrest
    exact ⟨hlast.trans htools, hlastClean⟩

theorem KeepsCalls.entry (h : KeepsCalls f tools clean) {e : CallEntry} {b last : B} (hclean : clean b)
    (hfold : (entryEvents e).foldlM f b = .ok last) :
    tools last = addEntry (tools b) e ∧ clean last := by
  obtain ⟨started, hstart, hrest⟩ := foldlM_cons_ok hfold
  obtain ⟨hstarted, hstartedClean⟩ := h.start b started e.id e.name e.index hclean hstart
  have hends : Asides [IrStreamEvent.toolCallEnd] := by
    intro ev hev
    obtain rfl := List.mem_singleton.mp hev
    rfl
  unfold addEntry
  cases hargs : e.args with
  | none =>
    rw [hargs] at hrest
    obtain ⟨hlast, hlastClean⟩ := h.asides hends hstartedClean hrest
    exact ⟨hlast.trans hstarted, hlastClean⟩
  | some delta =>
    rw [hargs] at hrest
    obtain ⟨filled, hdelta, hend⟩ := foldlM_cons_ok hrest
    obtain ⟨hfilled, hfilledClean⟩ := h.delta started filled delta e.index hstartedClean hdelta
    obtain ⟨hlast, hlastClean⟩ := h.asides hends hfilledClean hend
    refine ⟨hlast.trans (hfilled.trans ?_), hlastClean⟩
    rw [hstarted]

theorem KeepsCalls.entries (h : KeepsCalls f tools clean) {entries : List CallEntry} {b last : B}
    (hclean : clean b) (hfold : (entries.flatMap entryEvents).foldlM f b = .ok last) :
    tools last = entries.foldl addEntry (tools b) ∧ clean last := by
  induction entries generalizing b with
  | nil =>
    obtain rfl := Except.ok.inj hfold
    exact ⟨rfl, hclean⟩
  | cons e rest ih =>
    rw [List.flatMap_cons] at hfold
    obtain ⟨next, hnext, hrest⟩ := foldlM_append_ok hfold
    obtain ⟨htools, hnextClean⟩ := h.entry hclean hnext
    obtain ⟨hlast, hlastClean⟩ := ih hnextClean hrest
    rw [List.foldl_cons, ← htools]
    exact ⟨hlast, hlastClean⟩

theorem KeepsCalls.body (h : KeepsCalls f tools clean) {entries : List CallEntry}
    {front back : List IrStreamEvent} {b last : B} (hfront : Asides front) (hback : Asides back)
    (hclean : clean b) (hempty : tools b = {})
    (hfold : (front ++ (entries.flatMap entryEvents ++ back)).foldlM f b = .ok last) :
    tools last = addEntries entries ∧ clean last := by
  obtain ⟨before, hbefore, hrest⟩ := foldlM_append_ok hfold
  obtain ⟨after, hafter, hlast⟩ := foldlM_append_ok hrest
  obtain ⟨htools, hbeforeClean⟩ := h.asides hfront hclean hbefore
  obtain ⟨hcalls, hafterClean⟩ := h.entries hbeforeClean hafter
  obtain ⟨hsame, hlastClean⟩ := h.asides hback hafterClean hlast
  rw [htools, hempty] at hcalls
  exact ⟨hsame.trans hcalls, hlastClean⟩

theorem foldlM_ok {g : B → IrStreamEvent → B} (events : List IrStreamEvent) (b : B) :
    events.foldlM (fun b ev => (.ok (g b ev) : Except MapError B)) b = .ok (events.foldl g b) := by
  induction events generalizing b with
  | nil => rfl
  | cons ev rest ih => exact ih (g b ev)

end Folds

theorem chatProtocolField_tools (itemType : String) (payload : Value) (b : ChatBody) :
    (chatProtocolField itemType payload b).tools = b.tools := by
  unfold chatProtocolField
  repeat' split
  all_goals rfl

theorem keepsCalls_chat :
    KeepsCalls (fun b ev => .ok (chatBodyEvent b ev)) ChatBody.tools fun _ => True where
  aside := by
    intro b b' ev haside _ h
    obtain rfl := Except.ok.inj h
    cases ev with
    | protocol itemType payload => exact ⟨chatProtocolField_tools itemType payload b, trivial⟩
    | toolCallStart => cases haside
    | toolCallArgDelta => cases haside
    | customToolCallStart => cases haside
    | customToolCallInputDelta => cases haside
    | _ => exact ⟨rfl, trivial⟩
  start := by
    intro b b' id name index _ h
    obtain rfl := Except.ok.inj h
    exact ⟨rfl, trivial⟩
  delta := by
    intro b b' delta index _ h
    obtain rfl := Except.ok.inj h
    exact ⟨rfl, trivial⟩

def MessagesClean (b : MessagesBody) : Prop := ∀ block ∈ b.images, hasType "tool_use" block = false

theorem messagesClean_before {b : MessagesBody} (h : MessagesClean b) {block : Value}
    (hblock : hasType "tool_use" block = false) :
    ∀ x ∈ partsBefore b.text b.images ++ [block], hasType "tool_use" x = false := by
  intro x hx
  rcases List.mem_append.mp hx with hx | hx
  · unfold partsBefore at hx
    split at hx
    · exact h x hx
    · rcases List.mem_append.mp hx with hx | hx
      · exact h x hx
      · obtain rfl := List.mem_singleton.mp hx
        rfl
  · obtain rfl := List.mem_singleton.mp hx
    exact hblock

theorem messagesProtocolField_clean {itemType : String} (haside : chatItemTypes.contains itemType = true)
    (payload : Value) {b : MessagesBody} (h : MessagesClean b) :
    (messagesProtocolField itemType payload b).tools = b.tools ∧
      MessagesClean (messagesProtocolField itemType payload b) := by
  have hne : itemType ≠ "tool_use" := by
    rintro rfl
    revert haside
    decide
  unfold messagesProtocolField
  split
  · exact ⟨rfl, h⟩
  · split
    · rename_i hblock
      refine ⟨rfl, messagesClean_before h ?_⟩
      have htype : payload.strAt? "type" = some itemType := by
        unfold messagesContentBlock at hblock
        split at hblock
        · cases hblock
        · split at hblock
          · cases hblock
          · exact of_decide_eq_true hblock
      rw [hasType, htype]
      exact decide_eq_false fun heq => hne (Option.some.inj heq)
    · repeat' split
      all_goals exact ⟨rfl, h⟩

theorem keepsCalls_messages :
    KeepsCalls (fun b ev => .ok (messagesBodyEvent b ev)) MessagesBody.tools MessagesClean where
  aside := by
    intro b b' ev haside h hok
    obtain rfl := Except.ok.inj hok
    cases ev with
    | protocol itemType payload => exact messagesProtocolField_clean haside payload h
    | imageDelta mediaType data => exact ⟨rfl, messagesClean_before h rfl⟩
    | toolCallStart => cases haside
    | toolCallArgDelta => cases haside
    | customToolCallStart => cases haside
    | customToolCallInputDelta => cases haside
    | _ => exact ⟨rfl, h⟩
  start := by
    intro b b' id name index h hok
    obtain rfl := Except.ok.inj hok
    exact ⟨rfl, h⟩
  delta := by
    intro b b' delta index h hok
    obtain rfl := Except.ok.inj hok
    exact ⟨rfl, h⟩

/-- No part kept so far reads as a call. -/
structure GeminiClean (b : GeminiBody) : Prop where
  media : ∀ part ∈ b.mediaParts, part.get? "functionCall" = none
  code : b.codeParts = []

theorem geminiClean_before {b : GeminiBody} (h : GeminiClean b) {part : Value}
    (hpart : part.get? "functionCall" = none) :
    ∀ x ∈ mediaBefore b.text b.mediaParts ++ [part], x.get? "functionCall" = none := by
  intro x hx
  rcases List.mem_append.mp hx with hx | hx
  · unfold mediaBefore at hx
    split at hx
    · exact h.media x hx
    · rcases List.mem_append.mp hx with hx | hx
      · exact h.media x hx
      · obtain rfl := List.mem_singleton.mp hx
        rfl
  · obtain rfl := List.mem_singleton.mp hx
    exact hpart

theorem geminiProtocolField_aside {itemType : String} (haside : chatItemTypes.contains itemType = true)
    (payload : Value) (b : GeminiBody) : geminiProtocolField itemType payload b = b := by
  have hmem : itemType ∈ chatItemTypes := List.contains_iff_mem.mp haside
  simp only [chatItemTypes, List.mem_cons, List.not_mem_nil, or_false] at hmem
  rcases hmem with rfl | rfl | rfl | rfl | rfl | rfl | rfl <;> rfl

theorem GeminiClean.of_eq {b b' : GeminiBody} (h : GeminiClean b) (hmedia : b'.mediaParts = b.mediaParts)
    (hcode : b'.codeParts = b.codeParts) : GeminiClean b' :=
  ⟨hmedia ▸ h.media, hcode.trans h.code⟩

theorem keepsCalls_gemini :
    KeepsCalls (fun b ev => .ok (geminiBodyEvent b ev)) GeminiBody.tools GeminiClean where
  aside := by
    intro b b' ev haside h hok
    obtain rfl := Except.ok.inj hok
    cases ev with
    | protocol itemType payload =>
      rw [geminiBodyEvent, geminiProtocolField_aside haside]
      exact ⟨rfl, h⟩
    | annotationAdded ann =>
      rw [geminiBodyEvent]
      split
      · exact ⟨rfl, ⟨h.media, h.code⟩⟩
      · exact ⟨rfl, h⟩
    | audioDelta data =>
      exact ⟨rfl, ⟨@geminiClean_before b h (inlineDataPart "audio/mpeg" data) rfl, h.code⟩⟩
    | imageDelta mediaType data =>
      exact ⟨rfl, ⟨@geminiClean_before b h (inlineDataPart mediaType data) rfl, h.code⟩⟩
    | toolCallStart => cases haside
    | toolCallArgDelta => cases haside
    | customToolCallStart => cases haside
    | customToolCallInputDelta => cases haside
    | serviceTier tier =>
      rw [geminiBodyEvent]
      exact ⟨rfl, h.of_eq rfl rfl⟩
    | _ => exact ⟨rfl, h.of_eq rfl rfl⟩
  start := by
    intro b b' id name index h hok
    obtain rfl := Except.ok.inj hok
    exact ⟨rfl, ⟨h.media, h.code⟩⟩
  delta := by
    intro b b' delta index h hok
    obtain rfl := Except.ok.inj hok
    exact ⟨rfl, ⟨h.media, h.code⟩⟩

/-- No sidecar fields, and no item kept whole that reads as a call. -/
structure ResponsesClean (b : ResponsesBody) : Prop where
  extras : b.toolExtras = fun _ => none
  replay : ∀ item ∈ b.replayItems, isCallItem item = false

theorem responsesProtocolField_clean {itemType : String}
    (haside : chatItemTypes.contains itemType = true) (payload : Value) {b : ResponsesBody}
    (h : ResponsesClean b) : (responsesProtocolField itemType payload b).tools = b.tools ∧
      ResponsesClean (responsesProtocolField itemType payload b) := by
  have hmem : itemType ∈ chatItemTypes := List.contains_iff_mem.mp haside
  simp only [chatItemTypes, List.mem_cons, List.not_mem_nil, or_false] at hmem
  have hextra : ResponsesEncoder.toolExtraFromProtocol itemType payload = none := by
    unfold ResponsesEncoder.toolExtraFromProtocol
    split
    · rfl
    · rcases hmem with rfl | rfl | rfl | rfl | rfl | rfl | rfl <;> rfl
  have hreplay : responsesProtocolField itemType payload b = replayItem itemType payload b := by
    unfold responsesProtocolField
    rw [hextra]
    rcases hmem with rfl | rfl | rfl | rfl | rfl | rfl | rfl <;> rfl
  have hne : itemType ≠ "function_call" ∧ itemType ≠ "custom_tool_call" := by
    constructor
    · rintro rfl
      revert haside
      decide
    · rintro rfl
      revert haside
      decide
  rw [hreplay]
  unfold replayItem
  split
  · rename_i hitem
    have htype : payload.strAt? "type" = some itemType := by
      unfold responsesOutputItem at hitem
      repeat' split at hitem
      all_goals first | cases hitem | exact of_decide_eq_true hitem
    refine ⟨rfl, h.extras, fun item hi => ?_⟩
    rcases List.mem_append.mp hi with hi | hi
    · exact h.replay item hi
    · obtain rfl := List.mem_singleton.mp hi
      simp [isCallItem, hasType, htype, hne]
  · exact ⟨rfl, h⟩

theorem keepsCalls_responses :
    KeepsCalls (fun b ev => .ok (responsesBodyEvent b ev)) ResponsesBody.tools ResponsesClean where
  aside := by
    intro b b' ev haside h hok
    obtain rfl := Except.ok.inj hok
    cases ev with
    | protocol itemType payload => exact responsesProtocolField_clean haside payload h
    | toolCallStart => cases haside
    | toolCallArgDelta => cases haside
    | customToolCallStart => cases haside
    | customToolCallInputDelta => cases haside
    | _ => exact ⟨rfl, ⟨h.extras, h.replay⟩⟩
  start := by
    intro b b' id name index h hok
    obtain rfl := Except.ok.inj hok
    exact ⟨rfl, ⟨h.extras, h.replay⟩⟩
  delta := by
    intro b b' delta index h hok
    obtain rfl := Except.ok.inj hok
    exact ⟨rfl, ⟨h.extras, h.replay⟩⟩

/-- No block kept so far reads as a call, and no field is passed through. -/
structure ConverseClean (b : ConverseBody) : Prop where
  content : ∀ block ∈ b.content, block.get? "toolUse" = none
  passthrough : b.passthrough = []

theorem ConverseClean.flush {b : ConverseBody} (h : ConverseClean b) : ConverseClean (flushText b) := by
  unfold flushText
  split
  · exact h
  · refine ⟨fun block hblock => ?_, h.passthrough⟩
    rcases List.mem_append.mp hblock with hblock | hblock
    · exact h.content block hblock
    · obtain rfl := List.mem_singleton.mp hblock
      rfl

theorem flushText_tools (b : ConverseBody) : (flushText b).tools = b.tools := by
  unfold flushText
  split <;> rfl

theorem ConverseClean.add {b : ConverseBody} (h : ConverseClean b) {block : Value}
    (hblock : block.get? "toolUse" = none) : ConverseClean (addBlock block b) := by
  refine ⟨fun x hx => ?_, h.flush.passthrough⟩
  rcases List.mem_append.mp hx with hx | hx
  · exact h.flush.content x hx
  · obtain rfl := List.mem_singleton.mp hx
    exact hblock

theorem converseProtocolField_aside {itemType : String} (haside : chatItemTypes.contains itemType = true)
    (payload : Value) (b : ConverseBody) : converseProtocolField itemType payload b = b := by
  have hmem : itemType ∈ chatItemTypes := List.contains_iff_mem.mp haside
  simp only [chatItemTypes, List.mem_cons, List.not_mem_nil, or_false] at hmem
  rcases hmem with rfl | rfl | rfl | rfl | rfl | rfl | rfl <;>
    simp [converseProtocolField, converseBlockKey, StreamEncoderPush.isConversePassthrough]

theorem keepsCalls_converse : KeepsCalls converseBodyEvent ConverseBody.tools ConverseClean where
  aside := by
    intro b b' ev haside h hok
    cases ev with
    | protocol itemType payload =>
      rw [converseBodyEvent, converseProtocolField_aside haside] at hok
      obtain rfl := Except.ok.inj hok
      exact ⟨rfl, h⟩
    | imageDelta mediaType data =>
      rw [converseBodyEvent] at hok
      split at hok
      · obtain rfl := Except.ok.inj hok
        exact ⟨flushText_tools b, h.add rfl⟩
      · cases hok
    | toolCallStart => cases haside
    | toolCallArgDelta => cases haside
    | customToolCallStart => cases haside
    | customToolCallInputDelta => cases haside
    | _ =>
      obtain rfl := Except.ok.inj hok
      exact ⟨rfl, ⟨h.content, h.passthrough⟩⟩
  start := by
    intro b b' id name index h hok
    obtain rfl := Except.ok.inj hok
    refine ⟨?_, ⟨h.flush.content, h.flush.passthrough⟩⟩
    change noteConverseTool index id name false (flushText b).tools = _
    rw [flushText_tools]
    rfl
  delta := by
    intro b b' delta index h hok
    obtain rfl := Except.ok.inj hok
    exact ⟨rfl, ⟨h.content, h.passthrough⟩⟩

theorem get?_insertText_of_ne {key other : String} (v : Value) (text : String) (h : other ≠ key) :
    (insertText v key text).get? other = v.get? other := by
  unfold insertText
  split
  · rfl
  · exact Value.get?_insert_of_ne v _ h

theorem get?_insertItems_of_ne {key other : String} (v : Value) (xs : List Value) (h : other ≠ key) :
    (insertItems v key xs).get? other = v.get? other := by
  unfold insertItems
  split
  · rfl
  · exact Value.get?_insert_of_ne v _ h

theorem items_insertItems {v : Value} {key : String} (xs : List Value) (hobject : v.isObject = true)
    (hnone : v.get? key = none) : items ((insertItems v key xs).get? key) = xs := by
  unfold insertItems
  split
  · rename_i hempty
    rw [hnone, List.isEmpty_iff.mp hempty]
    rfl
  · rw [Value.get?_insert_self key _ hobject]
    rfl

/-- The slots that the body of a wire shows, as it writes them. -/
def writtenCalls (wire : Wire) (tools : IndexedTools) : List Value :=
  (((indexedToolFinish tools).map Prod.snd).filter (shown wire)).map (callValue sj wire)

theorem bodyCalls_chat (model : String) (b : ChatBody) :
    bodyCalls .chatCompletions (chatBodyValue model b) = writtenCalls sj .chatCompletions b.tools := by
  have hchoice : firstItem (chatBodyValue model b) "choices" = some (chatChoice b) := by
    unfold firstItem chatBodyValue
    simp only [Value.get?_insertSome_of_ne _ _ (show "choices" ≠ "usage" by decide),
      Value.get?_insertSome_of_ne _ _ (show "choices" ≠ "moderation" by decide),
      Value.get?_insertSome_of_ne _ _ (show "choices" ≠ "metadata" by decide),
      Value.get?_insertSome_of_ne _ _ (show "choices" ≠ "system_fingerprint" by decide),
      Value.get?_insertSome_of_ne _ _ (show "choices" ≠ "service_tier" by decide),
      Value.get?_insertSome_of_ne _ _ (show "choices" ≠ "created" by decide),
      get?_insertText_of_ne _ _ (show "choices" ≠ "model" by decide)]
    rfl
  have hmessage : (chatChoice b).get? "message" = some (chatMessage b) := by
    unfold chatChoice
    simp only
    rw [Value.get?_insertSome_of_ne _ _ (by decide)]
    split
    · rfl
    · exact Value.get?_insert_of_ne _ _ (by decide)
  have hcalls : items ((chatMessage b).get? "tool_calls") = chatToolCalls b := by
    unfold chatMessage
    simp only
    rw [Value.get?_insertSome_of_ne _ _ (by decide), get?_insertItems_of_ne _ _ (by decide),
      Value.get?_insertSome_of_ne _ _ (by decide), get?_insertText_of_ne _ _ (by decide),
      get?_insertText_of_ne _ _ (by decide)]
    exact items_insertItems _ rfl rfl
  have htrue : ∀ tools : List IndexedTool, tools.filter (shown .chatCompletions) = tools :=
    fun tools => List.filter_eq_self.mpr fun _ _ => rfl
  rw [bodyCalls, hchoice, Option.bind_some, pointer?, hmessage, Option.bind_some, pointer?]
  rw [writtenCalls, htrue, List.map_map]
  cases hget : (chatMessage b).get? "tool_calls" with
  | none =>
    rw [hget] at hcalls
    exact hcalls
  | some calls =>
    rw [hget] at hcalls
    exact hcalls

theorem filter_none {p : Value → Bool} {xs : List Value} (h : ∀ x ∈ xs, p x = false) :
    xs.filter p = [] := List.filter_eq_nil_iff.mpr fun x hx => by simp [h x hx]

theorem hasType_insert {ty key : String} (v x : Value) (h : "type" ≠ key) :
    hasType ty (v.insert key x) = hasType ty v := by
  rw [hasType, hasType, Value.strAt?, Value.strAt?, Value.get?_insert_of_ne v x h]

theorem messagesClean_cited {b : MessagesBody} (h : MessagesClean b) :
    ∀ x ∈ citeFirstText b.citations (partsBefore b.text b.images), hasType "tool_use" x = false := by
  have hparts : ∀ x ∈ partsBefore b.text b.images, hasType "tool_use" x = false := fun x hx =>
    @messagesClean_before b h (textPart "") rfl x (List.mem_append_left _ hx)
  intro x hx
  unfold citeFirstText at hx
  split at hx
  · exact hparts x hx
  · split at hx
    · rename_i i hi
      rcases List.mem_iff_getElem.mp hx with ⟨n, hn, rfl⟩
      rw [List.getElem_modify]
      rw [List.length_modify] at hn
      have hmem := hparts _ (List.getElem_mem hn)
      split
      · rw [hasType_insert _ _ (by decide)]
        exact hmem
      · exact hmem
    · rcases List.mem_append.mp hx with hx | hx
      · exact hparts x hx
      · obtain rfl := List.mem_singleton.mp hx
        rfl

theorem bodyCalls_messages (model : String) {b : MessagesBody} (h : MessagesClean b) :
    bodyCalls .messages (messagesBodyValue sj model b) = writtenCalls sj .messages b.tools := by
  have hcontent : (messagesBodyValue sj model b).get? "content" =
      some (.array (messagesContent sj b)) := by
    unfold messagesBodyValue
    simp only
    rw [Value.get?_insertSome_of_ne _ _ (by decide), Value.get?_insertSome_of_ne _ _ (by decide),
      Value.get?_insertSome_of_ne _ _ (by decide), Value.get?_insertSome_of_ne _ _ (by decide),
      Value.get?_insertSome_of_ne _ _ (by decide)]
    split
    · rw [Value.get?_insertSome_of_ne _ _ (by decide), get?_insertText_of_ne _ _ (by decide)]
      rfl
    · rw [Value.get?_insert_of_ne _ _ (by decide), Value.get?_insertSome_of_ne _ _ (by decide),
        get?_insertText_of_ne _ _ (by decide)]
      rfl
  have hthinking : ∀ x ∈ thinkingBlock b, hasType "tool_use" x = false := by
    intro x hx
    unfold thinkingBlock at hx
    split at hx
    · cases hx
    · obtain rfl := List.mem_singleton.mp hx
      rw [hasType, Value.strAt?_insertSome_of_ne _ _ (by decide)]
      rfl
  have hcalls : ∀ x ∈ (indexedToolFinish b.tools).map (fun p => messagesToolUseValue sj p.2),
      hasType "tool_use" x = true := by
    intro x hx
    obtain ⟨p, _, rfl⟩ := List.mem_map.mp hx
    rfl
  have htrue : ∀ tools : List IndexedTool, tools.filter (shown .messages) = tools :=
    fun tools => List.filter_eq_self.mpr fun _ _ => rfl
  rw [bodyCalls, hcontent]
  change (messagesContent sj b).filter (hasType "tool_use") = _
  rw [messagesContent, List.filter_append, List.filter_append, filter_none hthinking,
    filter_none (messagesClean_cited h), List.filter_eq_self.mpr hcalls, writtenCalls, htrue, List.map_map]
  rfl

theorem geminiCalls (tools : List (ℕ × IndexedTool)) :
    tools.filterMap (fun p => geminiFunctionCallValue sj p.2) =
      ((tools.map Prod.snd).filter (shown .gemini)).map (callValue sj .gemini) := by
  induction tools with
  | nil => rfl
  | cons p rest ih =>
    rw [List.filterMap_cons, List.map_cons, List.filter_cons, ih]
    unfold geminiFunctionCallValue
    change _ = List.map _ (if (!p.2.name.isEmpty) = true then _ else _)
    cases p.2.name.isEmpty <;> rfl

theorem filter_isSome_none {key : String} {xs : List Value} (h : ∀ x ∈ xs, x.get? key = none) :
    xs.filter (fun x => (x.get? key).isSome) = [] :=
  filter_none fun x hx => by rw [h x hx, Option.isSome_none]

theorem bodyCalls_gemini (model : String) {b : GeminiBody} (h : GeminiClean b) :
    bodyCalls .gemini (geminiBodyValue sj model b) = writtenCalls sj .gemini b.tools := by
  have hcandidate : firstItem (geminiBodyValue sj model b) "candidates" =
      some (geminiBodyCandidate sj b) := by
    unfold firstItem geminiBodyValue
    simp only [Value.get?_insertSome_of_ne _ _ (show "candidates" ≠ "usageMetadata" by decide),
      Value.get?_insertSome_of_ne _ _ (show "candidates" ≠ "promptFeedback" by decide),
      get?_insertText_of_ne _ _ (show "candidates" ≠ "modelVersion" by decide)]
    rfl
  have hcontent : (geminiBodyCandidate sj b).get? "content" =
      some (.object [("role", "model"), ("parts", .array (geminiParts sj b))]) := by
    unfold geminiBodyCandidate
    simp only
    split
    · simp only [Value.get?_insertSome_of_ne _ _ (show "content" ≠ "groundingMetadata" by decide),
        get?_insertText_of_ne _ _ (show "content" ≠ "finishMessage" by decide),
        Value.get?_insertSome_of_ne _ _ (show "content" ≠ "citationMetadata" by decide),
        Value.get?_insertSome_of_ne _ _ (show "content" ≠ "urlContextMetadata" by decide),
        Value.get?_insertSome_of_ne _ _ (show "content" ≠ "safetyRatings" by decide),
        Value.get?_insertSome_of_ne _ _ (show "content" ≠ "tokenCount" by decide),
        Value.get?_insertSome_of_ne _ _ (show "content" ≠ "avgLogprobs" by decide),
        Value.get?_insertSome_of_ne _ _ (show "content" ≠ "finishReason" by decide)]
      rfl
    · simp only [Value.get?_insert_of_ne _ _ (show "content" ≠ "logprobsResult" by decide),
        Value.get?_insertSome_of_ne _ _ (show "content" ≠ "groundingMetadata" by decide),
        get?_insertText_of_ne _ _ (show "content" ≠ "finishMessage" by decide),
        Value.get?_insertSome_of_ne _ _ (show "content" ≠ "citationMetadata" by decide),
        Value.get?_insertSome_of_ne _ _ (show "content" ≠ "urlContextMetadata" by decide),
        Value.get?_insertSome_of_ne _ _ (show "content" ≠ "safetyRatings" by decide),
        Value.get?_insertSome_of_ne _ _ (show "content" ≠ "tokenCount" by decide),
        Value.get?_insertSome_of_ne _ _ (show "content" ≠ "avgLogprobs" by decide),
        Value.get?_insertSome_of_ne _ _ (show "content" ≠ "finishReason" by decide)]
      rfl
  have hthought : ∀ x ∈ thoughtPart b, x.get? "functionCall" = none := by
    intro x hx
    unfold thoughtPart at hx
    split at hx
    · cases hx
    · obtain rfl := List.mem_singleton.mp hx
      rw [Value.get?_insertSome_of_ne _ _ (by decide)]
      rfl
  have hmedia : ∀ x ∈ mediaBefore b.text b.mediaParts, x.get? "functionCall" = none := fun x hx =>
    @geminiClean_before b h (plainText "") rfl x (List.mem_append_left _ hx)
  have hcalls : ∀ x ∈ ((indexedToolFinish b.tools).map Prod.snd).filter (shown .gemini)
      |>.map (callValue sj .gemini), (x.get? "functionCall").isSome = true := by
    intro x hx
    obtain ⟨tool, _, rfl⟩ := List.mem_map.mp hx
    obtain ⟨call, hcall, _⟩ := functionCallPart_get tool.id tool.name
      (parsedToolInput sj tool.args tool.custom) tool.signature
    rw [callValue, hcall, Option.isSome_some]
  rw [bodyCalls, hcandidate, Option.bind_some, pointer?, hcontent]
  change (geminiParts sj b).filter (fun part => (part.get? "functionCall").isSome) = _
  rw [geminiParts, h.code, List.append_nil, List.filter_append, List.filter_append,
    filter_isSome_none hthought, filter_isSome_none hmedia, geminiCalls,
    List.filter_eq_self.mpr hcalls]
  rfl

theorem responsesToolCalls_none (tools : List (ℕ × IndexedTool)) :
    responsesToolCalls (fun _ => none) tools = tools.map fun p => responsesToolCallValue p.2 {} := by
  induction tools with
  | nil => rfl
  | cons p rest ih =>
    have hupdate : Function.update (fun _ => none : ℕ → Option EncoderState.ResponsesToolExtra)
        p.1 none = fun _ => none := Function.update_eq_self p.1 _
    rw [responsesToolCalls, hupdate, ih, List.map_cons]
    rfl

theorem isCallItem_of_type {item : Value} {ty : String} (h : item.strAt? "type" = some ty)
    (hne : ty ≠ "function_call" ∧ ty ≠ "custom_tool_call") : isCallItem item = false := by
  simp [isCallItem, hasType, h, hne]

theorem responsesReasoningItem_type (b : ResponsesBody) :
    ∀ x ∈ responsesReasoningItem b, x.strAt? "type" = some "reasoning" := by
  intro x hx
  unfold responsesReasoningItem at hx
  simp only at hx
  split at hx
  · obtain rfl := List.mem_singleton.mp hx
    rw [Value.strAt?_insertSome_of_ne _ _ (by decide), Value.strAt?_insertSome_of_ne _ _ (by decide)]
    split
    · rw [Value.strAt?_insertSome_of_ne _ _ (by decide), Value.strAt?_insertSome_of_ne _ _ (by decide)]
      rfl
    · rw [Value.strAt?, Value.get?_insert_of_ne _ _ (by decide), ← Value.strAt?,
        Value.strAt?_insertSome_of_ne _ _ (by decide), Value.strAt?_insertSome_of_ne _ _ (by decide)]
      rfl
  · cases hx

theorem responsesMessage_type (b : ResponsesBody) :
    ∀ x ∈ responsesMessage b, x.strAt? "type" = some "message" := by
  intro x hx
  unfold responsesMessage at hx
  simp only at hx
  split at hx
  · cases hx
  · obtain rfl := List.mem_singleton.mp hx
    rw [Value.strAt?_insertSome_of_ne _ _ (by decide), Value.strAt?_insertSome_of_ne _ _ (by decide),
      Value.strAt?_insertSome_of_ne _ _ (by decide), Value.strAt?_insertSome_of_ne _ _ (by decide)]
    rfl

theorem responsesAudio_type (b : ResponsesBody) :
    ∀ x ∈ responsesAudio b, x.strAt? "type" = some "output_audio" := by
  intro x hx
  unfold responsesAudio at hx
  split at hx
  · cases hx
  · obtain rfl := List.mem_singleton.mp hx
    rw [Value.strAt?, get?_insertText_of_ne _ _ (by decide), get?_insertText_of_ne _ _ (by decide)]
    rfl

theorem bodyCalls_responses (model : String) {b : ResponsesBody} (h : ResponsesClean b) :
    bodyCalls .responses (responsesBodyValue model b) = writtenCalls sj .responses b.tools := by
  have houtput : (responsesBodyValue model b).get? "output" = some (.array (ResponsesComplete.responsesOutput b)) := by
    unfold responsesBodyValue
    simp only
    rw [Value.get?_insertSome_of_ne _ _ (by decide), get?_insertText_of_ne _ _ (by decide),
      Value.get?_insertSome_of_ne _ _ (by decide), Value.get?_insertSome_of_ne _ _ (by decide),
      Value.get?_insertSome_of_ne _ _ (by decide), Value.get?_insertSome_of_ne _ _ (by decide),
      get?_insertText_of_ne _ _ (by decide), Value.get?_insertSome_of_ne _ _ (by decide),
      Value.get?_insertSome_of_ne _ _ (by decide)]
    rfl
  have hreasoning : ∀ x ∈ responsesReasoningItem b, isCallItem x = false := fun x hx =>
    isCallItem_of_type (responsesReasoningItem_type b x hx) (by decide)
  have hmessage : ∀ x ∈ responsesMessage b, isCallItem x = false := fun x hx =>
    isCallItem_of_type (responsesMessage_type b x hx) (by decide)
  have haudio : ∀ x ∈ responsesAudio b, isCallItem x = false := fun x hx =>
    isCallItem_of_type (responsesAudio_type b x hx) (by decide)
  have hcalls : ∀ x ∈ (indexedToolFinish b.tools).map (fun p => responsesToolCallValue p.2 {}),
      isCallItem x = true := by
    intro x hx
    obtain ⟨p, _, rfl⟩ := List.mem_map.mp hx
    unfold responsesToolCallValue
    split <;> rfl
  have htrue : ∀ tools : List IndexedTool, tools.filter (shown .responses) = tools :=
    fun tools => List.filter_eq_self.mpr fun _ _ => rfl
  rw [bodyCalls, houtput]
  change (ResponsesComplete.responsesOutput b).filter isCallItem = _
  rw [ResponsesComplete.responsesOutput, h.extras, responsesToolCalls_none]
  simp only [List.filter_append]
  rw [filter_none h.replay, filter_none hreasoning, filter_none hmessage, filter_none haudio,
    List.filter_eq_self.mpr hcalls, writtenCalls, htrue, List.map_map]
  rfl

theorem conversePrefix_calls (b : ConverseBody) :
    ∀ x ∈ conversePrefix b, x.get? "toolUse" = none := by
  intro x hx
  unfold conversePrefix at hx
  simp only at hx
  rcases List.mem_append.mp hx with hx | hx
  · rcases List.mem_append.mp hx with hx | hx
    · obtain ⟨blob, _, rfl⟩ := List.mem_map.mp hx
      rfl
    · split at hx
      · cases hx
      · obtain rfl := List.mem_singleton.mp hx
        rfl
  · split at hx
    · cases hx
    · obtain rfl := List.mem_singleton.mp hx
      rfl

theorem converseContent_calls {b : ConverseBody} (h : ConverseClean b) :
    ∀ x ∈ converseContent b, x.get? "toolUse" = none := by
  have hall : ∀ x ∈ conversePrefix b ++ (flushText b).content, x.get? "toolUse" = none := by
    intro x hx
    rcases List.mem_append.mp hx with hx | hx
    · exact conversePrefix_calls b x hx
    · exact h.flush.content x hx
  intro x hx
  unfold converseContent at hx
  split at hx
  · exact hall x hx
  · unfold citeFirstRun at hx
    simp only at hx
    rcases List.mem_append.mp hx with hx | hx
    · exact hall x ((List.takeWhile_sublist _).mem hx)
    · rcases List.mem_cons.mp hx with rfl | hx
      · rfl
      · exact hall x ((List.dropWhile_sublist _).mem ((List.dropWhile_sublist _).mem hx))

theorem bodyCalls_converse {b : ConverseBody} (h : ConverseClean b) :
    bodyCalls .converse (converseBodyValue sj b) = writtenCalls sj .converse b.tools := by
  have hcontent : pointer? (converseBodyValue sj b) ["output", "message", "content"] =
      some (.array (converseContent b ++ (converseCalls b).map (converseToolUse sj))) := by
    unfold converseBodyValue
    simp only [h.passthrough, List.foldl_nil]
    rw [pointer?, Value.get?_insertSome_of_ne _ _ (by decide), Value.get?_insertSome_of_ne _ _ (by decide)]
    rfl
  have hcalls : ∀ x ∈ (converseCalls b).map (converseToolUse sj), (x.get? "toolUse").isSome = true := by
    intro x hx
    obtain ⟨tool, _, rfl⟩ := List.mem_map.mp hx
    rfl
  rw [bodyCalls, hcontent]
  change (converseContent b ++ (converseCalls b).map (converseToolUse sj)).filter
    (fun block => (block.get? "toolUse").isSome) = _
  rw [List.filter_append, filter_isSome_none (converseContent_calls h), List.filter_eq_self.mpr hcalls]
  rfl

/-- The calls of the body that a wire makes of the events of a Chat body. -/
theorem encodeResponse_calls {wire : Wire} {model : String} {entries : List CallEntry}
    {front back : List IrStreamEvent} {out : Value} (hfront : Asides front) (hback : Asides back)
    (h : encodeResponse sj wire model (front ++ (entries.flatMap entryEvents ++ back)) = .ok out) :
    bodyCalls wire out = writtenCalls sj wire (addEntries entries) := by
  cases wire with
  | chatCompletions =>
    obtain rfl := Except.ok.inj h
    obtain ⟨htools, _⟩ := keepsCalls_chat.body hfront hback trivial rfl
      (@foldlM_ok ChatBody chatBodyEvent (front ++ (entries.flatMap entryEvents ++ back)) {})
    rw [← htools]
    exact bodyCalls_chat sj model _
  | messages =>
    obtain rfl := Except.ok.inj h
    have hclean : MessagesClean {} := fun _ hblock => by cases hblock
    obtain ⟨htools, hlast⟩ := keepsCalls_messages.body hfront hback hclean rfl
      (@foldlM_ok MessagesBody messagesBodyEvent (front ++ (entries.flatMap entryEvents ++ back)) {})
    rw [← htools]
    exact bodyCalls_messages sj model hlast
  | gemini =>
    obtain rfl := Except.ok.inj h
    have hclean : GeminiClean {} := ⟨fun _ hpart => (List.not_mem_nil hpart).elim, rfl⟩
    obtain ⟨htools, hlast⟩ := keepsCalls_gemini.body hfront hback hclean rfl
      (@foldlM_ok GeminiBody geminiBodyEvent (front ++ (entries.flatMap entryEvents ++ back)) {})
    rw [← htools]
    exact bodyCalls_gemini sj model hlast
  | responses =>
    obtain rfl := Except.ok.inj h
    have hclean : ResponsesClean {} := ⟨rfl, fun _ hitem => by cases hitem⟩
    obtain ⟨htools, hlast⟩ := keepsCalls_responses.body hfront hback hclean rfl
      (@foldlM_ok ResponsesBody responsesBodyEvent
        (front ++ (entries.flatMap entryEvents ++ back)) {})
    rw [← htools]
    exact bodyCalls_responses sj model hlast
  | converse =>
    have hclean : ConverseClean {} := ⟨fun _ hblock => (List.not_mem_nil hblock).elim, rfl⟩
    change ((front ++ (entries.flatMap entryEvents ++ back)).foldlM converseBodyEvent {}).map
      (converseBodyValue sj) = .ok out at h
    cases hfold : (front ++ (entries.flatMap entryEvents ++ back)).foldlM converseBodyEvent {} with
    | error e =>
      rw [hfold] at h
      cases h
    | ok last =>
      rw [hfold] at h
      obtain rfl := Except.ok.inj h
      obtain ⟨htools, hlast⟩ := keepsCalls_converse.body hfront hback hclean rfl hfold
      rw [← htools]
      exact bodyCalls_converse sj hlast

theorem all_shown {wire : Wire} {entries : List CallEntry}
    (h : entries.length = (writtenCalls sj wire (addEntries entries)).length) :
    ApartCalls entries ∧
      ∀ slot ∈ arranged entries, shown wire slot.tool = true := by
  have hfilter := List.length_filter_le (shown wire)
    ((indexedToolFinish (addEntries entries)).map Prod.snd)
  rw [writtenCalls, List.length_map] at h
  rw [List.length_map] at hfilter
  have hapart : ApartCalls entries := apart_of_length (by omega)
  refine ⟨hapart, ?_⟩
  have hlength : (indexedToolFinish (addEntries entries)).length ≤ entries.length :=
    finish_length_le entries
  have hall : (((indexedToolFinish (addEntries entries)).map Prod.snd).filter (shown wire)).length =
      ((indexedToolFinish (addEntries entries)).map Prod.snd).length := by
    rw [List.length_map]
    omega
  intro slot hslot
  rw [finish_of_apart hapart] at hall
  exact List.length_filter_eq_length_iff.mp hall _ (List.mem_map_of_mem hslot)

theorem writtenCalls_of_apart {wire : Wire} {entries : List CallEntry} (hapart : ApartCalls entries)
    (hshown : ∀ slot ∈ arranged entries, shown wire slot.tool = true) :
    writtenCalls sj wire (addEntries entries) =
      (arranged entries).map fun slot => callValue sj wire slot.tool := by
  have hfilter : ((arranged entries).map CallEntry.tool).filter (shown wire) =
      (arranged entries).map CallEntry.tool := by
    apply List.filter_eq_self.mpr
    intro tool htool
    obtain ⟨slot, hslot, rfl⟩ := List.mem_map.mp htool
    exact hshown slot hslot
  rw [writtenCalls, finish_of_apart hapart, hfilter, List.map_map]
  rfl

theorem forall₂_and_right {α β : Type*} {p : β → Prop} {R : α → β → Prop} {l : List α} {u : List β} :
    List.Forall₂ (fun a b => p b ∧ R a b) l u ↔ (∀ b ∈ u, p b) ∧ List.Forall₂ R l u := by
  induction u generalizing l with
  | nil =>
    rw [List.forall₂_nil_right_iff, List.forall₂_nil_right_iff]
    exact ⟨fun h => ⟨fun b hb => (List.not_mem_nil hb).elim, h⟩, And.right⟩
  | cons b rest ih =>
    simp only [List.forall₂_cons_right_iff, ih, List.forall_mem_cons]
    constructor
    · rintro ⟨a, l', ⟨hb, hab⟩, ⟨hrest, hl⟩, rfl⟩
      exact ⟨⟨hb, hrest⟩, a, l', hab, hl, rfl⟩
    · rintro ⟨⟨hb, hrest⟩, a, l', hab, hl, rfl⟩
      exact ⟨a, l', ⟨hb, hab⟩, ⟨hrest, hl⟩, rfl⟩

/-- The slots stand for the entries exactly when all are shown and each is written as its entry. -/
theorem forall₂_stands {wire : Wire} {entries slots : List CallEntry} :
    List.Forall₂ (Stands sj wire) entries slots ↔ (∀ slot ∈ slots, shown wire slot.tool = true) ∧
      List.Forall₂ (fun e slot => Carries sj wire e (callValue sj wire slot.tool)) entries slots := by
  rw [← forall₂_and_right]
  have hiff : ∀ e slot, Stands sj wire e slot ↔
      shown wire slot.tool = true ∧ Carries sj wire e (callValue sj wire slot.tool) := by
    intro e slot
    rw [carries_iff]
    exact ⟨fun h => ⟨h.shown, h.name, h.args⟩, fun h => ⟨h.1, h.2.1, h.2.2⟩⟩
  exact ⟨List.Forall₂.imp fun e slot => (hiff e slot).mp, List.Forall₂.imp fun e slot => (hiff e slot).mpr⟩

/-- A Chat body keeps its calls on a wire exactly when they stay apart, come out in
their order, and are written there with their names and arguments. -/
theorem chat_calls_kept {wire : Wire} {model : String} {body out : Value} {calls : List Value}
    {events : List IrStreamEvent} (hcalls : chatCalls body = some calls)
    (hfunctions : ∀ call ∈ calls, isFunctionCall call = true)
    (hdecode : decodeChatComplete sj body = .ok events)
    (hencode : encodeResponse sj wire model events = .ok out) :
    List.Forall₂ (Carries sj wire) (calls.map (entryOf sj)) (bodyCalls wire out) ↔
      ApartCalls (calls.map (entryOf sj)) ∧
        List.Forall₂ (Stands sj wire) (calls.map (entryOf sj)) (arranged (calls.map (entryOf sj))) := by
  obtain ⟨front, back, hfront, hback, rfl⟩ := decodeChatComplete_calls hcalls hfunctions hdecode
  rw [encodeResponse_calls sj hfront hback hencode]
  generalize calls.map (entryOf sj) = entries
  rw [forall₂_stands]
  constructor
  · intro hcarries
    obtain ⟨hapart, hshown⟩ := all_shown sj hcarries.length_eq
    rw [writtenCalls_of_apart sj hapart hshown, List.forall₂_map_right_iff] at hcarries
    exact ⟨hapart, hshown, hcarries⟩
  · rintro ⟨hapart, hshown, hcarries⟩
    rw [writtenCalls_of_apart sj hapart hshown, List.forall₂_map_right_iff]
    exact hcarries

def unaryCall (name : String) : Value := .object [("type", "function"),
  ("function", .object [("name", name), ("arguments", "{}")])]

def unaryBody (calls : List Value) : Value := .object [("choices", .array [
  .object [("message", .object [("role", "assistant"), ("tool_calls", .array calls)]),
    ("finish_reason", "tool_calls")]])]

def unaryEvents (calls : List Value) : List IrStreamEvent :=
  (decodeChatComplete flatJson (unaryBody calls)).toOption.getD []

def unaryOut (wire : Wire) (calls : List Value) : Value :=
  (encodeResponse flatJson wire "m" (unaryEvents calls)).toOption.getD .null

theorem single_call_kept : chatCalls (unaryBody [unaryCall "a"]) = some [unaryCall "a"] ∧
    (List.Forall₂ (Carries flatJson .messages) ([unaryCall "a"].map (entryOf flatJson))
      (bodyCalls .messages (unaryOut .messages [unaryCall "a"])) ↔
    ApartCalls ([unaryCall "a"].map (entryOf flatJson)) ∧
      List.Forall₂ (Stands flatJson .messages) ([unaryCall "a"].map (entryOf flatJson))
        (arranged ([unaryCall "a"].map (entryOf flatJson)))) :=
  ⟨rfl, @chat_calls_kept flatJson .messages "m" (unaryBody [unaryCall "a"])
    (unaryOut .messages [unaryCall "a"]) [unaryCall "a"] (unaryEvents [unaryCall "a"])
    rfl (by simp [isFunctionCall, unaryCall]; rfl) rfl rfl⟩

theorem calls_without_ids_merge : ∃ (body out : Value) (calls : List Value) (events : List IrStreamEvent),
    chatCalls body = some calls ∧ calls ≠ [] ∧ (∀ call ∈ calls, isFunctionCall call = true) ∧
    decodeChatComplete flatJson body = .ok events ∧
    encodeResponse flatJson .chatCompletions "m" events = .ok out ∧
    ¬ List.Forall₂ (Carries flatJson .chatCompletions) (calls.map (entryOf flatJson))
      (bodyCalls .chatCompletions out) := by
  refine ⟨unaryBody [unaryCall "a", unaryCall "b"],
    unaryOut .chatCompletions [unaryCall "a", unaryCall "b"], [unaryCall "a", unaryCall "b"],
    unaryEvents [unaryCall "a", unaryCall "b"], rfl, List.cons_ne_nil _ _, ?_, rfl, rfl, ?_⟩
  · intro call hcall
    rcases List.mem_cons.mp hcall with rfl | hcall
    · rfl
    · obtain rfl := List.mem_singleton.mp hcall
      rfl
  · intro hcarries
    have hone : (bodyCalls .chatCompletions
        (unaryOut .chatCompletions [unaryCall "a", unaryCall "b"])).length = 1 := rfl
    have hlength := hcarries.length_eq
    rw [hone] at hlength
    exact absurd hlength (by decide)

end Wiremux.UnaryCalls
