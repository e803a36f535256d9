import Wiremux.JsonValue

set_option autoImplicit false

/-!
# Whether a JSON body has visible output

One predicate for the shapes of all wires: Chat `choices`, Gemini `candidates`,
Responses `output`, Messages `content` and Converse `output`. An empty string, a
bare id or a bare `type` does not count.
-/
namespace Wiremux.Completion
open JsonValue

def pointer? (value : Value) : List String → Option Value
  | [] => some value
  | key :: rest => (value.get? key).bind fun v => pointer? v rest

def isText (value : Value) : Bool := value.asStr?.any fun text => !text.isEmpty

def nonemptyStr (value : Value) (key : String) : Bool := (value.get? key).any isText

def nonemptyAt (value : Value) (path : List String) : Bool := (pointer? value path).any isText

def items (value : Option Value) : List Value := (value.bind Value.asArray?).getD []

def arrayAny (value : Value) (key : String) (pred : Value → Bool) : Bool :=
  (items (value.get? key)).any pred

def jsonPayload : Option Value → Bool
  | none => false
  | some .null => false
  | some (.string text) => !text.isEmpty
  | some _ => true

mutual
def mediaLeafVisible : Value → Bool
  | .string text => !text.isEmpty
  | .object fields =>
    nonemptyStr (.object fields) "url" || nonemptyStr (.object fields) "data" ||
      nonemptyStr (.object fields) "transcript" || sourceLeafVisible fields
  | _ => false

def sourceLeafVisible : List (String × Value) → Bool
  | [] => false
  | (key, v) :: rest => if key = "source" then mediaLeafVisible v else sourceLeafVisible rest
end

def mediaPayloadVisible (value : Value) : Bool :=
  nonemptyStr value "url" || nonemptyStr value "data" || nonemptyStr value "transcript" ||
    (value.get? "image_url").any mediaLeafVisible ||
    (value.get? "input_audio").any mediaLeafVisible ||
    (value.get? "audio").any mediaLeafVisible || (value.get? "source").any mediaLeafVisible

def argumentVisible (value : Value) : Bool :=
  jsonPayload ((value.get? "arguments").orElse fun _ => value.get? "input")

/-- Id, name or arguments, here or in the body of a function or custom call. -/
def toolCallVisible (call : Value) : Bool :=
  nonemptyStr call "id" || nonemptyStr call "name" || argumentVisible call ||
    ["function", "custom"].any fun key =>
      (call.get? key).any fun body =>
        nonemptyStr body "name" || nonemptyStr body "id" || argumentVisible body

def contentPartVisible (item : Value) : Bool :=
  isText item || nonemptyStr item "text" || nonemptyStr item "refusal" || mediaPayloadVisible item

def contentVisible : Value → Bool
  | .string text => !text.isEmpty
  | .array parts => parts.any contentPartVisible
  | _ => false

def audioVisible (body : Value) : Bool :=
  ((body.get? "audio").filter Value.isObject).any fun audio =>
    nonemptyStr audio "data" || nonemptyStr audio "transcript"

def choiceBody (choice : Value) : Value :=
  ((choice.get? "message").orElse fun _ => choice.get? "delta").getD choice

def choiceVisible (choice : Value) : Bool :=
  let body := choiceBody choice
  (body.get? "content").any contentVisible || nonemptyStr body "refusal" ||
    nonemptyStr body "reasoning" || nonemptyStr body "reasoning_content" || audioVisible body ||
    arrayAny body "tool_calls" toolCallVisible || (body.get? "function_call").any toolCallVisible

def messagesTextBlockVisible (block : Value) : Bool :=
  nonemptyStr block "text" ||
    arrayAny block "citations" fun citation =>
      citation.isObject && ((citation.get? "type").bind Value.asStr?).isSome

def messagesThinkingBlockVisible (block : Value) : Bool :=
  nonemptyStr block "thinking" || nonemptyStr block "signature"

def sourceFileVisible (source : Value) : Bool :=
  nonemptyStr source "file_id" || nonemptyStr source "id"

def messagesContentFieldVisible : Option Value → Bool
  | none => false
  | some (.string text) => !text.isEmpty
  | some (.array parts) => parts.any fun item =>
    isText item || nonemptyStr item "text" || nonemptyStr item "thinking" ||
      toolCallVisible item || mediaPayloadVisible item
  | some (.object fields) =>
    nonemptyStr (.object fields) "text" || toolCallVisible (.object fields) ||
      mediaPayloadVisible (.object fields)
  | some _ => false

def messagesBlockHasPayload (block : Value) : Bool :=
  ["text", "thinking", "signature", "data", "id", "name", "tool_use_id"].any (nonemptyStr block) ||
    toolCallVisible block || mediaPayloadVisible block ||
    (block.get? "source").any sourceFileVisible ||
    messagesContentFieldVisible (block.get? "content")

def messagesBlockKeepsCompletion (block : Value) : Bool :=
  match (block.get? "type").bind Value.asStr? with
  | none => false
  | some "text" => messagesTextBlockVisible block
  | some "thinking" => messagesThinkingBlockVisible block
  | some "tool_use" => toolCallVisible block
  | some _ => messagesBlockHasPayload block

def messagesContentVisible (value : Value) : Bool :=
  arrayAny value "content" messagesBlockKeepsCompletion

def geminiFunctionCallVisible (call : Value) : Bool :=
  nonemptyStr call "id" || nonemptyStr call "name" || jsonPayload (call.get? "args")

def geminiResponseVisible (value : Value) : Bool :=
  nonemptyStr value "name" || nonemptyStr value "id" || jsonPayload (value.get? "response")

def geminiSidePartVisible (part : Value) : Bool :=
  ((part.get? "fileData").any fun v => nonemptyStr v "fileUri" || nonemptyStr v "uri") ||
    ((part.get? "executableCode").any fun v => nonemptyStr v "language" || nonemptyStr v "code") ||
    ((part.get? "codeExecutionResult").any fun v =>
      nonemptyStr v "outcome" || nonemptyStr v "output") ||
    (part.get? "functionResponse").any geminiResponseVisible ||
    (part.get? "toolCall").any geminiFunctionCallVisible ||
    (part.get? "toolResponse").any geminiResponseVisible

def geminiPartVisible (part : Value) : Bool :=
  nonemptyStr part "text" || (part.get? "functionCall").any geminiFunctionCallVisible ||
    ((part.get? "inlineData").any fun v => nonemptyStr v "data") || geminiSidePartVisible part

def candidateVisible (candidate : Value) : Bool :=
  nonemptyStr candidate "finishMessage" ||
    (items (pointer? candidate ["content", "parts"])).any geminiPartVisible

def responsesPartVisible (part : Value) : Bool :=
  ["text", "refusal", "data", "transcript", "image_url"].any (nonemptyStr part)

def responsesCallVisible (item : Value) : Bool :=
  ["name", "call_id", "id"].any (nonemptyStr item) || jsonPayload (item.get? "arguments") ||
    jsonPayload (item.get? "input")

def responsesReasoningVisible (item : Value) : Bool :=
  nonemptyStr item "encrypted_content" || arrayAny item "summary" responsesPartVisible ||
    arrayAny item "content" responsesPartVisible

def responsesHostedFieldPresent : Value → Bool
  | .string text => !text.isEmpty
  | .array parts => !parts.isEmpty
  | .object fields => !fields.isEmpty
  | .number _ => true
  | .bool _ => true
  | .null => false

def responsesHostedVisible : Value → Bool
  | .object fields => fields.any fun f => f.1 != "type" && responsesHostedFieldPresent f.2
  | _ => false

def responsesItemVisible (item : Value) : Bool :=
  match (item.get? "type").bind Value.asStr? with
  | none => false
  | some "message" => arrayAny item "content" responsesPartVisible
  | some "function_call" => responsesCallVisible item
  | some "custom_tool_call" => responsesCallVisible item
  | some "reasoning" => responsesReasoningVisible item
  | some "output_audio" => responsesPartVisible item
  | some "audio" => responsesPartVisible item
  | some _ => responsesHostedVisible item

def responsesOutput (value : Value) : List Value :=
  (((value.get? "output").bind Value.asArray?).orElse fun _ =>
    (pointer? value ["response", "output"]).bind Value.asArray?).getD []

def responsesHasVisibleOutput (value : Value) : Bool :=
  nonemptyStr value "text" || (responsesOutput value).any responsesItemVisible

mutual
def nestedNonemptyString : Value → Bool
  | .string text => !isBlank text
  | .array parts => anyNestedString parts
  | .object fields => anyNestedField fields
  | _ => false

def anyNestedString : List Value → Bool
  | [] => false
  | v :: rest => nestedNonemptyString v || anyNestedString rest

def anyNestedField : List (String × Value) → Bool
  | [] => false
  | (_, v) :: rest => nestedNonemptyString v || anyNestedField rest
end

def converseToolVisible (tool : Value) : Bool :=
  nonemptyStr tool "toolUseId" || nonemptyStr tool "name" || jsonPayload (tool.get? "input")

def converseMediaVisible (value : Value) : Bool :=
  nonemptyStr value "name" || nonemptyAt value ["source", "bytes"] ||
    nonemptyAt value ["source", "s3Location", "uri"]

def converseBlockVisible (block : Value) : Bool :=
  nonemptyStr block "text" || nonemptyAt block ["reasoningContent", "reasoningText", "text"] ||
    nonemptyAt block ["reasoningContent", "reasoningText", "signature"] ||
    nonemptyAt block ["reasoningContent", "redactedContent"] ||
    (block.get? "toolUse").any converseToolVisible ||
    (block.get? "image").any converseMediaVisible ||
    (block.get? "document").any converseMediaVisible ||
    (block.get? "video").any converseMediaVisible ||
    ((block.get? "audio").any fun audio => nonemptyAt audio ["source", "bytes"]) ||
    (block.get? "guardContent").any nestedNonemptyString ||
    (pointer? block ["citationsContent", "citations"]).any nestedNonemptyString

def converseHasCompletion (value : Value) : Bool :=
  (((value.get? "stopReason").bind Value.asStr?).any fun text => !isBlank text) ||
    match value.get? "output" with
    | some (.object _) => (items (pointer? value ["output", "message", "content"])).any
        converseBlockVisible
    | some (.array parts) => parts.any converseBlockVisible
    | _ => false

def jsonHasCompletion (value : Value) : Bool :=
  arrayAny value "choices" choiceVisible || arrayAny value "candidates" candidateVisible ||
    responsesHasVisibleOutput value || messagesContentVisible value || converseHasCompletion value

def jsonStringError (value : Value) : Option String :=
  (((value.get? "error").bind Value.asStr?).map trim).filter fun text => !text.isEmpty

/-- `as_i64`. -/
def asI64Text : Value → Option String
  | .number (.posInt n) => if n < 9223372036854775808 then some (toString n) else none
  | .number (.negInt n) => some (toString (-(n : ℤ)))
  | _ => none

def errorCode (err : Value) (key : String) : Option String :=
  (err.get? key).bind fun value =>
    match value with
    | .string text =>
      let text := trim text
      if text.isEmpty || (key == "type" && text == "error") then none else some text
    | other => asI64Text other

def errorObjectDetail (err : Value) : Option String :=
  let message := (((err.get? "message").bind Value.asStr?).map trim).filter fun t => !t.isEmpty
  match ["code", "type", "status"].findSome? (errorCode err), message with
  | some code, some message => some (code ++ ": " ++ message)
  | none, some message => some message
  | some code, none => some code
  | none, none => none

end Wiremux.Completion
