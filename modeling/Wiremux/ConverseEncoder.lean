import Wiremux.EmittingRuns
import Wiremux.EncoderState

set_option autoImplicit false

/-!
# The Converse stream encoder

A text block has no start frame: its deltas carry the block index. A tool call
announced while another is open is held to the end of the stream; the call
that is open is closed by `ToolCallEnd` or by a block of another kind.
-/
namespace Wiremux.ConverseEncoder
open JsonValue StreamEvents UsageFields StreamEventEncoding StreamEventFrames
open EmittingRuns EncoderState

def attachBlockIndex (index : ℕ) (value : Value) : Value :=
  ["contentBlockDelta", "contentBlockStart", "contentBlockStop"].foldl (fun v key =>
    match v.get? key with
    | some (.object fields) => v.insert key ((Value.object fields).insert "contentBlockIndex" index)
    | _ => v) value

def converseFrameWithIndex (value : Value) (index : ℕ) : RawSse :=
  unnamed (attachBlockIndex index value)

section
variable (sj : SerdeJson)

def closeConverse (s : StreamEncoder) : List RawSse × StreamEncoder :=
  match s.openBlock with
  | none => ([], s)
  | some (index, _) =>
    let taken := takeCustomJson sj index { s with openBlock := none }
    ((taken.1.map (fun text => converseFrameWithIndex (converseToolInput text) index)).toList ++
      [converseFrameWithIndex converseBlockStop index], taken.2)

def ensureConverseBlock (kind : BlockKind) (s : StreamEncoder) : List RawSse × StreamEncoder :=
  if s.opensKind kind then ([], s)
  else
    let closed := closeConverse sj s
    (closed.1, { closed.2 with
      nextBlock := satAdd closed.2.nextBlock 1
      openBlock := some (closed.2.nextBlock, kind) })

def inConverseBlock (kind : BlockKind) (ev : IrStreamEvent) (s : StreamEncoder) :
    Except MapError (List RawSse × StreamEncoder) :=
  let ensured := ensureConverseBlock sj kind s
  (converseEncode sj ev).map (fun body =>
    (ensured.1 ++ [converseFrameWithIndex body ensured.2.openIndex], ensured.2))

def converseMedia (ev : IrStreamEvent) (s : StreamEncoder) :
    Except MapError (List RawSse × StreamEncoder) :=
  (converseEncode sj ev).map (fun body =>
    let closed := closeConverse sj s
    let index := closed.2.nextBlock
    (closed.1 ++ [converseFrameWithIndex body index, converseFrameWithIndex converseBlockStop index],
      { closed.2 with nextBlock := satAdd index 1 }))

def converseToolCallStart (custom : Bool) (id name : String) (thoughtSignature : Option String)
    (index : ℕ) (s : StreamEncoder) : List RawSse × StreamEncoder :=
  let alloc := allocTool index s
  let enc := alloc.1
  let otherOpen := alloc.2.openBlock.any (fun b => b.2 = .tool ∧ b.1 ≠ enc)
  let s := noteCustomSlot enc custom alloc.2
  if otherOpen then
    ([], { s with converseHeld := s.converseHeld.insert enc ⟨id, name, thoughtSignature, ""⟩ })
  else
    let closed := closeConverse sj s
    (closed.1 ++ [converseFrameWithIndex (converseToolStart id name) enc],
      { closed.2 with openBlock := some (enc, .tool) })

def converseToolCallArg (custom : Bool) (delta : String) (index : ℕ) (s : StreamEncoder) :
    List RawSse × StreamEncoder :=
  let routed := toolEnc index s
  let enc := routed.1
  let s := routed.2
  if custom || (s.customArgs enc).isSome then
    ([], { s with customArgs := pushStr s.customArgs enc delta })
  else
    match s.converseHeld[enc]? with
    | some held =>
      let appended := { held with args := held.args ++ delta }
      ([], { s with converseHeld := s.converseHeld.insert enc appended })
    | none => ([converseFrameWithIndex (converseToolInput delta) enc], s)

def converseUsageFrame (u : IrUsage) (s : StreamEncoder) : List RawSse × StreamEncoder :=
  let metadata := s.conversePassthrough.foldl (fun m p => m.insert p.1 p.2)
    (Value.object [("usage", encodeConverseUsage u)])
  ([unnamed (.object [("metadata", metadata)])], { s with conversePassthrough := [] })

def converseEvent (custom : Bool) (ev : IrStreamEvent) (s : StreamEncoder) :
    Except MapError (List RawSse × StreamEncoder) :=
  match ev with
  | .textDelta text => inConverseBlock sj .text (.textDelta text) s
  | .reasoningDelta text => inConverseBlock sj .thinking (.reasoningDelta text) s
  | .reasoningSignature signature =>
    inConverseBlock sj .thinking (.reasoningSignature signature) s
  | .toolCallStart id name sig index => .ok (converseToolCallStart sj custom id name sig index s)
  | .toolCallArgDelta delta index => .ok (converseToolCallArg custom delta index s)
  | .toolCallEnd => .ok (closeConverse sj s)
  | .finishReason reason _ => .ok ([], { s with finish := some reason })
  | .imageDelta mediaType data => converseMedia sj (.imageDelta mediaType data) s
  | .audioDelta data => converseMedia sj (.audioDelta data) s
  | .logprobs _ _ => .ok ([], s)
  | .created _ => .ok ([], s)
  | .serviceTier _ => .ok ([], s)
  | .metadata _ => .ok ([], s)
  | .moderation _ _ => .ok ([], s)
  | .diagnostics _ => .ok ([], s)
  | .container _ => .ok ([], s)
  | .contextManagement _ => .ok ([], s)
  | .stopSequence _ => .ok ([], s)
  | .audioTranscriptDelta text => inConverseBlock sj .text (.audioTranscriptDelta text) s
  | .annotationAdded ann => inConverseBlock sj .text (.annotationAdded ann) s
  | .usage u _ => .ok (converseUsageFrame u s)
  | other => (encodeStreamEvent sj .converse other).map (fun f => ([f], s))

def pushConverse (s : StreamEncoder) (ev : IrStreamEvent) :
    Except MapError (List RawSse × StreamEncoder) :=
  converseEvent sj (isCustomTool ev) (customToolAsFunction ev) s

def heldConverseFrames (p : ℕ × ConverseHeld) (s : StreamEncoder) :
    List RawSse × StreamEncoder :=
  let taken := takeCustomJson sj p.1 s
  let input := match taken.1 with
    | some text => [converseFrameWithIndex (converseToolInput text) p.1]
    | none => if p.2.args.isEmpty then []
      else [converseFrameWithIndex (converseToolInput p.2.args) p.1]
  (converseFrameWithIndex (converseToolStart p.2.id p.2.name) p.1 ::
    (input ++ [converseFrameWithIndex converseBlockStop p.1]), taken.2)

def flushConverseHeld (s : StreamEncoder) : List RawSse × StreamEncoder :=
  emitEach (heldConverseFrames sj) s.converseHeld.toList { s with converseHeld := ∅ }

def finishConverse (s : StreamEncoder) : List RawSse × StreamEncoder :=
  let closed := closeConverse sj s
  let flushed := flushConverseHeld sj closed.2
  let reason := flushed.2.finish.getD "end_turn"
  (closed.1 ++ flushed.1 ++ [unnamed (converseMessageStop (converseFinishReason reason))],
    { flushed.2 with finish := none })

end

end Wiremux.ConverseEncoder
