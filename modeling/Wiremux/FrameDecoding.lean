import Wiremux.Completion
import Wiremux.Upstream
import Wiremux.UsageDecoding

set_option autoImplicit false

/-!
# What the decoders of the wires share

Typed fields, indexes under a cap, the error of a frame without output, and the
policy for event names the profile does not list.
-/
namespace Wiremux.FrameDecoding
open JsonValue StreamEvents Completion UsageDecoding SseReader

def maxToolCallIndex : ℕ := 128

def maxContentBlockIndex : ℕ := 128

inductive StreamUnknownPolicy where
  | hardError
  | passthrough
deriving DecidableEq

/-- What a profile says about stream events. -/
structure Dialect where
  streamEvents : List String
  streamUnknownPolicy : StreamUnknownPolicy

def protocol (name : String) (value : Value) : IrStreamEvent := .protocol name value

def usageEvent (u : IrUsage × Option String) : IrStreamEvent := .usage u.1 u.2

def nonempty (text : Option String) : Option String := text.filter fun t => !t.isEmpty

def nonBlank (text : Option String) : Option String := text.filter fun t => !isBlank t

def textAt (value : Value) (path : List String) : Option String :=
  (pointer? value path).bind Value.asStr?

def objectAt (value : Value) (path : List String) : Option Value :=
  (pointer? value path).filter Value.isObject

def firstOf (value : Value) (key : String) : Option Value :=
  (value.get? key).bind fun v => (v.nth? 0).orElse fun _ => v.get? "0"

def asI64? : Value → Option ℤ
  | .number (.posInt n) => if n < 9223372036854775808 then some n else none
  | .number (.negInt n) => some (-(n : ℤ))
  | _ => none

variable (sj : SerdeJson)

/-- A string, or the text of an object or array; an empty string is absent. -/
def jsonTextField (value : Value) (key : String) : Except MapError (Option String) :=
  match value.get? key with
  | none => .ok none
  | some (.string text) => .ok (if text.isEmpty then none else some text)
  | some (.object fields) => .ok (some (sj.toString (.object fields)))
  | some (.array parts) => .ok (some (sj.toString (.array parts)))
  | some _ => .error (.invalid (key ++ " must be a string, object, or array"))

def checkIndex (value : Value) (key : String) (cap : ℕ) (kind : String) : Except MapError Unit :=
  match value.get? key with
  | none => .ok ()
  | some raw =>
    match raw.asU64? with
    | none => .error (.invalid (kind ++ " index must be an unsigned integer"))
    | some n =>
      if cap < n then
        .error (.invalid (kind ++ " index " ++ toString n ++ " exceeds cap (" ++ toString cap ++ ")"))
      else .ok ()

def indexField (value : Value) (key : String) : ℕ := (u32Field value key).getD 0

def plainErrorDetail (value : Value) : Option String :=
  (jsonStringError value).orElse fun _ =>
    ((value.get? "error").filter Value.isObject).bind errorObjectDetail

def responsesGatewayError (value : Value) : Option String :=
  if (value.strAt? "status").isSome then none
  else if value.strAt? "object" = some "response" then none
  else if "response.".toList.isPrefixOf ((value.strAt? "type").getD "").toList then none
  else if ["output", "content", "choices", "candidates"].any fun key =>
      !(items (value.get? key)).isEmpty then none
  else plainErrorDetail value

def usefulFailure (err : Value) : Bool :=
  err.isObject &&
    (((err.strAt? "message").any fun text => !isBlank text) ||
      match err.get? "code" with
      | some (.string text) => !isBlank text
      | some (.number _) => true
      | _ => false)

def failureObject (value : Value) : Option Value :=
  ((pointer? value ["response", "error"]).filter usefulFailure).orElse fun _ =>
    (pointer? value ["response", "last_error"]).filter usefulFailure

def lastErrorCode (last : Value) : Option String :=
  (last.get? "code").bind fun code =>
    match code with
    | .string text => nonempty (some (trim text))
    | other => asI64Text other

def failureDetail (value : Value) : Option String :=
  (failureObject value).bind fun last =>
    match lastErrorCode last, nonempty ((last.strAt? "message").map trim) with
    | some code, some message => some (code ++ ": " ++ message)
    | none, some message => some message
    | some code, none => some code
    | none, none => none

/-- The vendor error of a Responses frame that the profile does not list. -/
def responsesBareError (data : String) : Option String :=
  (sj.fromStr data).bind fun value =>
    (responsesGatewayError value).orElse fun _ =>
      (plainErrorDetail value).orElse fun _ => failureDetail value

def payloadKeys : List String :=
  ["delta", "arguments", "code", "command", "text", "input", "refusal", "partial_image_b64",
    "output"]

def responsesUnknownCarriesPayload (data : String) : Bool :=
  match sj.fromStr data with
  | none => true
  | some (.object fields) =>
    payloadKeys.any fun key => ((Value.object fields).get? key).any nestedNonemptyString
  | some value => (value.asStr?).any fun text => !isBlank text

def unknownDetail (name : String) : String :=
  "unknown stream event `" ++ name ++
    "` (stream_unknown_policy = hard-error|passthrough, or add `" ++ name ++ "` to stream_events)"

def unknownPolicy (wire : Wire) (dialect : Dialect) (name data : String) :
    Except MapError (Option IrStreamEvent) :=
  match dialect.streamUnknownPolicy with
  | .hardError =>
    if wire = .responses ∧ responsesUnknownCarriesPayload sj data = false then .ok none
    else .error (.hardError name (unknownDetail name))
  | .passthrough => .ok (some (.unknown name ((sj.fromStr data).getD (.string data))))

def unknownEvent (wire : Wire) (dialect : Dialect) (name data : String) :
    Except MapError (Option IrStreamEvent) :=
  if wire = .responses ∧ responsesUnknownCarriesPayload sj data = false then
    match responsesBareError sj data with
    | some detail => .error (.invalid detail)
    | none => unknownPolicy sj wire dialect name data
  else unknownPolicy sj wire dialect name data

end Wiremux.FrameDecoding
