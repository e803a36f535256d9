import Wiremux.EncoderState

set_option autoImplicit false

/-!
# The Chat stream encoder

Function calls are renumbered densely from 0. A custom call keeps the index
it came with: its events go through the stateless `encode`.
-/
namespace Wiremux.ChatEncoder
open JsonValue StreamEvents UsageFields StreamEventEncoding StreamEventFrames EncoderState

def attachChatDestModel (s : StreamEncoder) (frame : RawSse) : RawSse :=
  match frame.data with
  | .text _ => frame
  | .json v =>
    if v.isObject then
      let v := v.insert "id" (s.chat.completionId.getD "chatcmpl-wiremux")
      let v := v.insert "object" "chat.completion.chunk"
      let v := v.insert "created" (.ofInt (s.createdAt.getD 1700000000))
      let v := if s.model.isEmpty then v else v.insert "model" s.model
      ⟨frame.event, .json v⟩
    else frame

def chatRoleFrame : RawSse := chatDelta (.object [("role", "assistant")])

def startChat (s : StreamEncoder) : List RawSse × StreamEncoder :=
  if s.started then ([], s) else ([chatRoleFrame], { s with started := true })

section
variable (sj : SerdeJson)

def chatEvent (ev : IrStreamEvent) (s : StreamEncoder) :
    Except MapError (List RawSse × StreamEncoder) :=
  match ev with
  | .toolCallStart id name _ index =>
    let alloc := allocTool index s
    .ok ([chatToolCallDelta (chatFunctionStart alloc.1 id name)], alloc.2)
  | .toolCallArgDelta delta index =>
    let routed := toolEnc index s
    .ok ([chatToolCallDelta (chatFunctionArgs routed.1 delta)], routed.2)
  | .finishReason reason _ => .ok ([], { s with finish := some reason })
  | .usage u _ => .ok ([], { s with usage := some u })
  | .toolCallEnd => .ok ([], s)
  | other =>
    let s := if isCustomTool other then { s with chat := { s.chat with sawCustomTool := true } }
      else s
    (encodeStreamEvent sj .chatCompletions other).map (fun f => ([f], s))

def pushChat (s : StreamEncoder) (ev : IrStreamEvent) :
    Except MapError (List RawSse × StreamEncoder) :=
  let s := match ev with
    | .created unix => { s with createdAt := some unix }
    | _ => s
  let opening := startChat s
  (chatEvent sj ev opening.2).map (fun r =>
    ((opening.1 ++ r.1).map (attachChatDestModel r.2), r.2))

def finishChat (s : StreamEncoder) : List RawSse × StreamEncoder :=
  let sawTool : Bool := s.tools.used.Nonempty ∨ s.chat.sawCustomTool
  let finish := (s.finish.map (fun reason => chatFinish (finishAfterTool reason sawTool))).toList
  let usage := (s.usage.map (fun u => unnamed ((encodeChat u).insert "usage"
    (insertChatPredictionTokens (chatUsage u) s.chat.acceptedPredictionTokens
      s.chat.rejectedPredictionTokens)))).toList
  let s := { s with
    finish := none
    usage := none
    chat := if s.usage.isSome then
      { s.chat with acceptedPredictionTokens := none, rejectedPredictionTokens := none }
    else s.chat }
  ((finish ++ usage ++ [doneFrame]).map (attachChatDestModel s), s)

end

end Wiremux.ChatEncoder
