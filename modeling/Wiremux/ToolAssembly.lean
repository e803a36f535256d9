import Mathlib.Data.Finset.Lattice.Fold
import Wiremux.CallEvents
import Wiremux.StreamEventFrames
import Wiremux.TerminalEvents

set_option autoImplicit false

/-!
# Assembling tool calls

A start that lacks its id or its name is held under its index, and so are the
arguments that come before a whole start. A finish or the end of the stream
releases what is held.
-/
namespace Wiremux.ToolAssembly
open JsonValue StreamEvents StreamEventFrames CallEvents TerminalEvents

structure PendingToolStart where
  id : String
  name : String
  thoughtSignature : Option String
  index : ℕ
  args : List String

namespace PendingToolStart

def isNamed (p : PendingToolStart) : Bool := !p.id.isEmpty || !p.name.isEmpty

def intoEvents (p : PendingToolStart) : List IrStreamEvent :=
  (if p.isNamed then [.toolCallStart p.id p.name p.thoughtSignature p.index] else []) ++
    p.args.map fun delta => .toolCallArgDelta delta p.index

end PendingToolStart

structure ToolCallAssembler where
  pending : Std.TreeMap ℕ PendingToolStart := ∅
  /-- Indexes whose start was already emitted. -/
  started : Finset ℕ := ∅

namespace ToolCallAssembler

/-- Emit the held starts in the order of their indexes. -/
def flush (a : ToolCallAssembler) : List IrStreamEvent × ToolCallAssembler :=
  let held := a.pending.toList.map Prod.snd
  (held.flatMap PendingToolStart.intoEvents,
    ⟨∅, a.started ∪ ((held.filter PendingToolStart.isNamed).map PendingToolStart.index).toFinset⟩)

/-- What is held for the call, with what the new start brings. -/
def mergedStart (a : ToolCallAssembler) (id name : String) (thoughtSignature : Option String)
    (index : ℕ) : PendingToolStart :=
  match a.pending[index]? with
  | some prev =>
    ⟨if id.isEmpty then prev.id else id, if name.isEmpty then prev.name else name,
      thoughtSignature.or prev.thoughtSignature, index, prev.args⟩
  | none => ⟨id, name, thoughtSignature, index, []⟩

/-- A later chunk may repeat the id of a call that started. -/
def pushStart (a : ToolCallAssembler) (id name : String) (thoughtSignature : Option String)
    (index : ℕ) : List IrStreamEvent × ToolCallAssembler :=
  if index ∈ a.started then ([], a)
  else
    let pending := mergedStart a id name thoughtSignature index
    if pending.id.isEmpty || pending.name.isEmpty then
      ([], { a with pending := a.pending.insert index pending })
    else (pending.intoEvents, ⟨a.pending.erase index, insert index a.started⟩)

def pushArgs (a : ToolCallAssembler) (delta : String) (index : ℕ) :
    List IrStreamEvent × ToolCallAssembler :=
  match a.pending[index]? with
  | some pending =>
    let appended := { pending with args := pending.args ++ [delta] }
    ([], { a with pending := a.pending.insert index appended })
  | none =>
    if index ∈ a.started then ([.toolCallArgDelta delta index], a)
    else ([], { a with pending := a.pending.insert index ⟨"", "", none, index, [delta]⟩ })

/-- Every Chat chunk carries an `id` before the tool fields, so a protocol
event releases nothing. -/
def push (a : ToolCallAssembler) (ev : IrStreamEvent) : List IrStreamEvent × ToolCallAssembler :=
  match ev with
  | .toolCallStart id name thoughtSignature index => pushStart a id name thoughtSignature index
  | .toolCallArgDelta delta index => pushArgs a delta index
  | other =>
    if isEnd other then ((flush a).1 ++ [other], (flush a).2)
    else ([other], a)

/-- The assembled events of a list. -/
def pushAll (a : ToolCallAssembler) : List IrStreamEvent → List IrStreamEvent × ToolCallAssembler
  | [] => ([], a)
  | ev :: evs =>
    let pushed := push a ev
    let rest := pushAll pushed.2 evs
    (pushed.1 ++ rest.1, rest.2)

theorem pushAll_append (a : ToolCallAssembler) (xs ys : List IrStreamEvent) :
    pushAll a (xs ++ ys) = ((pushAll a xs).1 ++ (pushAll (pushAll a xs).2 ys).1,
      (pushAll (pushAll a xs).2 ys).2) := by
  induction xs generalizing a with
  | nil => rfl
  | cons x xs ih =>
    simp only [List.cons_append, pushAll, ih, List.append_assoc]

end ToolCallAssembler

/-- A start or an argument of a function call. -/
def isFunctionCallPart : IrStreamEvent → Bool
  | .toolCallStart .. => true
  | .toolCallArgDelta .. => true
  | _ => false

variable {a : ToolCallAssembler} {ev : IrStreamEvent}

theorem mem_intoEvents {p : PendingToolStart} (h : ev ∈ p.intoEvents) :
    isFunctionCallPart ev = true := by
  unfold PendingToolStart.intoEvents at h
  rcases List.mem_append.mp h with hstart | harg
  · split at hstart
    · obtain rfl := List.mem_singleton.mp hstart
      rfl
    · cases hstart
  · obtain ⟨delta, _, rfl⟩ := List.mem_map.mp harg
    rfl

theorem mem_flush (h : ev ∈ a.flush.1) : isFunctionCallPart ev = true := by
  obtain ⟨p, _, hp⟩ := List.mem_flatMap.mp h
  exact mem_intoEvents hp

theorem mem_pushStart {id name : String} {sig : Option String} {index : ℕ}
    (h : ev ∈ (a.pushStart id name sig index).1) : isFunctionCallPart ev = true := by
  unfold ToolCallAssembler.pushStart at h
  split at h
  · cases h
  · simp only at h
    split at h
    · cases h
    · exact mem_intoEvents h

theorem mem_pushArgs {delta : String} {index : ℕ} (h : ev ∈ (a.pushArgs delta index).1) :
    isFunctionCallPart ev = true := by
  unfold ToolCallAssembler.pushArgs at h
  split at h
  · cases h
  · split at h
    · obtain rfl := List.mem_singleton.mp h
      rfl
    · cases h

theorem mem_push {new : IrStreamEvent} (h : ev ∈ (a.push new).1) :
    ev = new ∨ isFunctionCallPart ev = true := by
  unfold ToolCallAssembler.push at h
  split at h
  · exact .inr (mem_pushStart h)
  · exact .inr (mem_pushArgs h)
  · split at h
    · rcases List.mem_append.mp h with hflush | hnew
      · exact .inr (mem_flush hflush)
      · exact .inl (List.mem_singleton.mp hnew)
    · exact .inl (List.mem_singleton.mp h)

theorem mem_pushAll {evs : List IrStreamEvent} (h : ev ∈ (a.pushAll evs).1) :
    ev ∈ evs ∨ isFunctionCallPart ev = true := by
  induction evs generalizing a with
  | nil => cases h
  | cons new evs ih =>
    rcases List.mem_append.mp h with hpush | hrest
    · rcases mem_push hpush with rfl | hpart
      · exact .inl List.mem_cons_self
      · exact .inr hpart
    · rcases ih hrest with hmem | hpart
      · exact .inl (List.mem_cons_of_mem new hmem)
      · exact .inr hpart

def messagesProtocolReemits (itemType : String) : Bool :=
  ["message_start", "content_block_start", "content_block_delta", "content_block_stop",
    "message_delta", "message_stop", "ping"].contains itemType

def protocolHasSlot (wire : Wire) (itemType : String) (payload : Value) : Bool :=
  match wire with
  | .messages => messagesProtocolReemits itemType ||
    ["messages_id", "messages_web_search_requests", "messages_web_fetch_requests",
      "messages_cache_creation", "messages_citation"].contains itemType
  | .responses =>
    ["responses_id", "responses_previous_id", "responses_message_id", "responses_message_status",
      "responses_message_phase", "responses_message_agent", "responses_reasoning_id",
      "responses_reasoning_status", "responses_reasoning_content", "responses_tool_status",
      "responses_tool_namespace", "responses_tool_created_by", "responses_tool_caller",
      "responses_tool_item_id"].contains itemType || responsesOutputItem itemType payload
  | .chatCompletions =>
    ["system_fingerprint", "chat_completion_id", "chat_audio_id", "chat_audio_expires",
      "chat_accepted_prediction_tokens", "chat_rejected_prediction_tokens"].contains itemType
  | .gemini =>
    ["gemini_response_id", "gemini_safety_ratings", "gemini_url_context",
      "gemini_citation_metadata", "gemini_code_part", "gemini_prompt_safety",
      "gemini_block_reason_message", "gemini_traffic_type", "gemini_tool_use_prompt_tokens",
      "gemini_avg_logprobs", "gemini_candidate_tokens", "gemini_prompt_token_details",
      "gemini_candidate_token_details"].contains itemType
  | .converse =>
    ["additionalModelResponseFields", "metrics", "trace", "performanceConfig", "converse_frame",
      "converse_citation", "converse_redacted_content"].contains itemType

def eventHasSlot (wire : Wire) : IrStreamEvent → Bool
  | .protocol itemType payload => protocolHasSlot wire itemType payload
  | .unknown .. => wire = .messages ∨ wire = .responses
  | _ => true

end Wiremux.ToolAssembly
