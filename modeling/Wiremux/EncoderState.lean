import Mathlib.Data.Finset.Card
import Std.Data.TreeMap.Lemmas
import Wiremux.StreamEventFrames

set_option autoImplicit false

/-!
# State of the stream encoder

One record for the five wires. Fields that a single wire reads are grouped
under that wire. A `HashMap` is a function to `Option`, a `HashSet` a finite
set, a `BTreeMap` an ordered map; a missing `tool_slots` queue is empty.
-/
namespace Wiremux.EncoderState
open JsonValue StreamEvents

inductive BlockKind where
  | text
  | thinking
  | tool
  | customTool
deriving DecidableEq

/-- A Messages tool start that arrived while another tool block was open. -/
structure HeldTool where
  enc : ℕ
  id : String
  name : String
  args : String
deriving DecidableEq

structure ConverseHeld where
  id : String
  name : String
  signature : Option String
  args : String
deriving DecidableEq

/-- One Gemini function call while its argument fragments are still open. -/
structure GeminiHeldCall where
  id : String
  name : String
  args : String
  thoughtSignature : Option String
  custom : Bool
deriving DecidableEq

structure ToolItem where
  id : String
  name : String
  args : String
deriving DecidableEq

structure ResponsesToolExtra where
  status : Option String := none
  ns : Option String := none
  createdBy : Option String := none
  caller : Option Value := none
  itemId : Option String := none

/-- Slots of the calls: which encoded indexes an IR index was given. -/
structure ToolSlots where
  used : Finset ℕ := ∅
  next : ℕ := 0
  slots : ℕ → List ℕ := fun _ => []
  gotArg : Finset ℕ := ∅
  last : ℕ → Option ℕ := fun _ => none

structure ChatSide where
  completionId : Option String := none
  acceptedPredictionTokens : Option ℕ := none
  rejectedPredictionTokens : Option ℕ := none
  sawCustomTool : Bool := false

structure MessagesSide where
  id : Option String := none
  webSearchRequests : Option ℕ := none
  webFetchRequests : Option ℕ := none
  cacheCreation : Option Value := none
  container : Option Value := none
  containerWritten : Bool := false
  contextManagement : Option Value := none
  cacheMiss : Option Value := none
  stopSequence : Option String := none
  usageInferenceGeo : Option String := none

structure ResponsesSide where
  id : Option String := none
  previousId : Option String := none
  messageId : Option String := none
  messageStatus : Option String := none
  messagePhase : Option String := none
  messageAgent : Option Value := none
  reasoningId : Option String := none
  reasoningStatus : Option String := none
  reasoningContent : Option Value := none
  toolPending : ℕ → Option ResponsesToolExtra := fun _ => none
  toolExtra : ℕ → Option ResponsesToolExtra := fun _ => none
  textItems : ℕ → Option String := fun _ => none
  messageParts : ℕ → Option (List Value) := fun _ => none
  textAnnotations : ℕ → Option (List Value) := fun _ => none
  textLogprobs : ℕ → Option (List Value) := fun _ => none
  refusalItems : ℕ → Option String := fun _ => none
  reasoningItems : ℕ → Option String := fun _ => none
  metadata : Option (List (String × String)) := none
  moderation : Option (Option Value × Option Value) := none

structure GeminiSide where
  responseId : Option String := none
  safetyRatings : Option Value := none
  promptSafety : Option Value := none
  blockReasonMessage : Option String := none
  trafficType : Option String := none
  toolUsePromptTokens : Option ℕ := none
  avgLogprobs : Option Number := none
  candidateTokens : Option ℕ := none
  promptTokenDetails : Option Value := none
  candidateTokenDetails : Option Value := none
  urlContext : Option Value := none
  citationMetadata : Option Value := none

structure StreamEncoder where
  wire : Wire
  model : String := ""
  started : Bool := false
  finished : Bool := false
  nextBlock : ℕ := 0
  openBlock : Option (ℕ × BlockKind) := none
  finish : Option String := none
  usage : Option IrUsage := none
  tools : ToolSlots := {}
  toolItems : ℕ → Option ToolItem := fun _ => none
  toolIds : ℕ → Option String := fun _ => none
  createdAt : Option ℤ := none
  serviceTier : Option String := none
  refusal : String := ""
  chat : ChatSide := {}
  messages : MessagesSide := {}
  responses : ResponsesSide := {}
  gemini : GeminiSide := {}
  conversePassthrough : List (String × Value) := []
  /-- Messages tool starts held behind an open tool block, by IR index. -/
  heldTools : Std.TreeMap ℕ HeldTool := ∅
  /-- Responses function calls held behind an open call, by encoded index. -/
  responsesHeld : Std.TreeMap ℕ Unit := ∅
  /-- Converse calls held behind an open call, by encoded index. -/
  converseHeld : Std.TreeMap ℕ ConverseHeld := ∅
  /-- Messages events that arrived while a tool block was open. -/
  deferred : List IrStreamEvent := []
  closedTools : Finset ℕ := ∅
  geminiOpenCalls : Std.TreeMap ℕ GeminiHeldCall := ∅
  /-- Custom-tool input for Messages and Converse, by encoded block. -/
  customArgs : ℕ → Option String := fun _ => none
  geminiDeferred : List RawSse := []

def StreamEncoder.new (wire : Wire) (model : String) : StreamEncoder :=
  { wire := wire, model := model }

namespace StreamEncoder

def openIndex (s : StreamEncoder) : ℕ := (s.openBlock.map Prod.fst).getD 0

def opensKind (s : StreamEncoder) (kind : BlockKind) : Bool :=
  s.openBlock.any (fun b => b.2 = kind)

end StreamEncoder

/-- The `while` of the Chat allocation. The slot after every used one is free,
so the fuel is spent only when the counter has saturated, where the source
loop does not end. -/
def firstFree (used : Finset ℕ) : ℕ → ℕ → ℕ
  | 0, n => n
  | fuel + 1, n => if n ∈ used then firstFree used fuel (satAdd n 1) else n

/-- Encoded index of a new call, and the record of it under its IR index. -/
def ToolSlots.assign (t : ToolSlots) (irIndex enc : ℕ) : ToolSlots :=
  let queue := t.slots irIndex
  let kept := if queue.getLast?.any (fun prev => prev ∈ t.gotArg) then [] else queue
  { t with
    used := insert enc t.used
    next := max t.next (satAdd enc 1)
    slots := Function.update t.slots irIndex (kept ++ [enc])
    last := Function.update t.last irIndex (some enc) }

def allocTool (irIndex : ℕ) (s : StreamEncoder) : ℕ × StreamEncoder :=
  if s.wire = .chatCompletions then
    let enc := firstFree s.tools.used s.tools.used.card s.tools.next
    (enc, { s with tools := s.tools.assign irIndex enc })
  else
    (s.nextBlock, { s with
      nextBlock := satAdd s.nextBlock 1
      tools := s.tools.assign irIndex s.nextBlock })

/-- Encoded index of the call a fragment at `irIndex` belongs to: the first
waiting slot, else the last one, else a new one. -/
def toolEnc (irIndex : ℕ) (s : StreamEncoder) : ℕ × StreamEncoder :=
  match s.tools.slots irIndex with
  | front :: rest =>
    let queue := if rest.isEmpty then [front] else rest
    (front, { s with tools := { s.tools with
      gotArg := insert front s.tools.gotArg
      slots := Function.update s.tools.slots irIndex queue } })
  | [] =>
    match s.tools.last irIndex with
    | some enc => (enc, { s with tools := { s.tools with gotArg := insert enc s.tools.gotArg } })
    | none => allocTool irIndex s

/-- Append to a buffer kept under `key`, starting it when it is missing. -/
def pushStr (buffers : ℕ → Option String) (key : ℕ) (text : String) : ℕ → Option String :=
  Function.update buffers key (some ((buffers key).getD "" ++ text))

def noteCustomSlot (enc : ℕ) (custom : Bool) (s : StreamEncoder) : StreamEncoder :=
  if custom then { s with customArgs := pushStr s.customArgs enc "" } else s

/-- Buffered custom input as the JSON text of its object; nothing when empty. -/
def takeCustomJson (sj : SerdeJson) (enc : ℕ) (s : StreamEncoder) :
    Option String × StreamEncoder :=
  match s.customArgs enc with
  | none => (none, s)
  | some args =>
    (if args.isEmpty then none else some (customInputText sj args),
      { s with customArgs := Function.update s.customArgs enc none })

end Wiremux.EncoderState
