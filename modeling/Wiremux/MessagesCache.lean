import Wiremux.Completion
import Wiremux.StreamEvents

set_option autoImplicit false

/-!
# Cache breakpoints of a Messages body

Every `cache_control` in the body is removed first; then at most two blocks are
tagged, one among the tools and the system text and one more in the first user
message.
-/
namespace Wiremux.MessagesCache
open JsonValue Completion Losses

structure IrCache where
  enabled : Bool := false
  retention : Option String := none
  minCacheableTokens : Option ℕ := none

def cacheControlKey : String := "cache_control"

def ephemeralCacheControl (ttl : Option String) : Value :=
  (Value.object [("type", "ephemeral")]).insertSome "ttl" (ttl.map .string)

/-- `value[key] = x`; a value that is neither null nor an object would panic. -/
def indexSet (value : Value) (key : String) (x : Value) : Value :=
  match value with
  | .null => .object [(key, x)]
  | other => other.insert key x

def tag (ttl : Option String) (block : Value) : Value :=
  indexSet block cacheControlKey (ephemeralCacheControl ttl)

mutual
def stripAllCacheControl : Value → Value
  | .array items => .array (stripItems items)
  | .object fields => .object (stripFields fields)
  | other => other

def stripItems : List Value → List Value
  | [] => []
  | v :: rest => stripAllCacheControl v :: stripItems rest

def stripFields : List (String × Value) → List (String × Value)
  | [] => []
  | (key, v) :: rest =>
    if key = cacheControlKey then stripFields rest
    else (key, stripAllCacheControl v) :: stripFields rest
end

mutual
def countCacheControl : Value → ℕ
  | .array items => countItems items
  | .object fields => countFields fields
  | _ => 0

def countItems : List Value → ℕ
  | [] => 0
  | v :: rest => countCacheControl v + countItems rest

def countFields : List (String × Value) → ℕ
  | [] => 0
  | (key, v) :: rest =>
    (if key = cacheControlKey then 1 else 0) + countCacheControl v + countFields rest
end

def onFirst (f : Value → Value) : List Value → List Value
  | [] => []
  | v :: rest => f v :: rest

def onLast (f : Value → Value) : List Value → List Value
  | [] => []
  | [v] => [f v]
  | v :: rest => v :: onLast f rest

def hasTools (body : Value) : Bool := (body.get? "tools").any Value.isNonEmptyArray

def tagLastTool (body : Value) (ttl : Option String) : Value :=
  match body.get? "tools" with
  | some (.array tools) => body.insert "tools" (.array (onLast (tag ttl) tools))
  | _ => body

def taggedText (ttl : Option String) (text : String) : Value :=
  .array [.object [("type", "text"), ("text", .string text),
    (cacheControlKey, ephemeralCacheControl ttl)]]

def tagSystemSlot (body : Value) (ttl : Option String) (first : Bool) : Bool × Value :=
  match body.get? "system" with
  | some (.array []) => (false, body)
  | some (.array blocks) =>
    (true, body.insert "system"
      (.array (if first then onFirst (tag ttl) blocks else onLast (tag ttl) blocks)))
  | some (.string text) => (true, body.insert "system" (taggedText ttl text))
  | some (.object fields) => (true, body.insert "system" (tag ttl (.object fields)))
  | _ => (false, body)

def nonemptyTextBlock (part : Value) : Bool :=
  part.strAt? "type" == some "text" && (part.strAt? "text").any fun text => !isBlank text

def cacheableUserBlock (part : Value) : Bool :=
  (part.strAt? "type").any fun ty => ["image", "document", "tool_result", "tool_use"].contains ty

/-- The block that carries the breakpoint: a `.` gives way to a payload after it. -/
def chosenBlock (parts : List Value) : Option ℕ :=
  let textIdx := parts.findIdx? nonemptyTextBlock
  let payloadIdx := (parts.reverse.findIdx? cacheableUserBlock).map fun i => parts.length - 1 - i
  let placeholder := (textIdx.bind fun i => parts[i]?).any fun part => part.strAt? "text" == some "."
  if textIdx.isSome && !(placeholder && payloadIdx.isSome) then textIdx else payloadIdx.or textIdx

def tagUserContentBlocks (parts : List Value) (ttl : Option String) : List Value :=
  match chosenBlock parts with
  | some i => parts.modify i (tag ttl)
  | none => parts

def tagUser (ttl : Option String) (user : Value) : Value :=
  match user.get? "content" with
  | some (.array parts) => user.insert "content" (.array (tagUserContentBlocks parts ttl))
  | some (.string text) =>
    if isBlank text then user else user.insert "content" (taggedText ttl text)
  | _ => user

def isUserMessage (message : Value) : Bool := message.strAt? "role" == some "user"

def onFirstUser (f : Value → Value) : List Value → List Value
  | [] => []
  | message :: rest =>
    if isUserMessage message then f message :: rest else message :: onFirstUser f rest

def tagFirstUserText (body : Value) (ttl : Option String) : Value :=
  match body.get? "messages" with
  | some (.array messages) => body.insert "messages" (.array (onFirstUser (tagUser ttl) messages))
  | _ => body

/-- A long lifetime must sit early: the tools, then the first system block. -/
def applyPreferredCacheBreakpoints (body : Value) (ttl : Option String) : Value :=
  if ttl.isSome then
    if hasTools body then
      let tagged := tagSystemSlot (tagLastTool body ttl) ttl true
      if tagged.1 then tagged.2 else tagFirstUserText tagged.2 ttl
    else tagFirstUserText (tagSystemSlot body ttl true).2 ttl
  else
    let tagged := tagSystemSlot body ttl false
    tagFirstUserText (if tagged.1 then tagged.2 else (tagSystemSlot tagged.2 ttl true).2) ttl

def preferredBlocks : ℕ := 2

def enforceCacheControlLimit (body : Value) (ttl : Option String) : Value :=
  if countCacheControl body ≤ preferredBlocks then body
  else applyPreferredCacheBreakpoints (stripAllCacheControl body) ttl

def ttlOf : Option String → Option String
  | some "1h" => some "1h"
  | some "long" => some "1h"
  | some "5m" => none
  | some "short" => none
  | none => none
  | some other => some other

def belowFloor (cache : IrCache) (estimated : ℕ) : Bool :=
  cache.minCacheableTokens.any fun floor => 0 < floor && estimated < floor

def applyCacheBreakpoints (body : Value) (cache : IrCache) (estimated : ℕ) (report : LossReport) :
    Value × LossReport :=
  if !cache.enabled || cache.retention == some "none" then (body, report)
  else if belowFloor cache estimated then
    (body, record report "sampling.cache" .drop
      ("below min_cacheable_tokens floor " ++ toString (cache.minCacheableTokens.getD 0)))
  else
    let ttl := ttlOf cache.retention
    let body := enforceCacheControlLimit
      (applyPreferredCacheBreakpoints (stripAllCacheControl body) ttl) ttl
    if countCacheControl body = 0 then
      (body, record report "sampling.cache" .drop "no cacheable block")
    else (body, record report "sampling.cache" .preserve "messages cache")

end Wiremux.MessagesCache
