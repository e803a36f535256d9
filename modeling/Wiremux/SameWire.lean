import Wiremux.SseWriting

set_option autoImplicit false

/-!
# The same-wire gate

Upstream bytes are forwarded as they are while the frames in them are watched.
An open Responses frame is held back, the frames after a vendor error are
written anew without `[DONE]`, and a failed Responses frame ends the stream.
-/
namespace Wiremux.SameWire
open JsonValue StreamEvents SseReader Upstream SseWriting

def incompleteStreamMessage : String := "upstream stream ended before a terminal event"

def maxUpstreamBody : ℕ := 16 * 1024 * 1024

/-- What the gate asks about whole bodies and about failed frames: the error of
decoding a frame, the vendor failure in a JSON body, and the stream a JSON
completion is promoted to. -/
structure BodyChecks where
  decodeError : SseFrame → Option String
  vendorFailure : List UInt8 → Option String
  completionToSse : List UInt8 → Option (List UInt8)

structure SameWireGate where
  reader : UpstreamFrames
  sawFrame : Bool := false
  sawTerminal : Bool := false
  sawVendorError : Bool := false
  dropRest : Bool := false
  held : List UInt8 := []

inductive SameWirePush where
  | hold
  | forward (bytes : List UInt8)

inductive SameWireEnd where
  | done (tail : List UInt8)
  | replace (message : String)
  | append (tail : List UInt8) (message : String)
  | promote (bytes : List UInt8)

variable (sj : SerdeJson) (checks : BodyChecks) (wire : Wire)

def SameWireGate.new (wire : Wire) : SameWireGate := { reader := .forWire wire }

/-- A failed Responses frame whose decoding is an error. -/
def responsesFailedVendorError (raw : SseFrame) : Option String :=
  if wire = .responses ∧ frameEventName sj wire raw = "response.failed" then checks.decodeError raw
  else none

def isWrappedError (raw : SseFrame) : Bool := (sseWrappedErrorMessage sj raw.data).isSome

def noteTerminal (g : SameWireGate) (raw : SseFrame) : SameWireGate :=
  if frameIsTerminal sj wire raw || isWrappedError sj raw then { g with sawTerminal := true } else g

def rewrite (g : SameWireGate) : List SseFrame → List UInt8 × SameWireGate
  | [] => ([], g)
  | raw :: rest =>
    if sseDoneFrame raw then rewrite g rest
    else
      let out := rewrite (noteTerminal sj wire g raw) rest
      (formatSse raw ++ out.1, out.2)

def noFrameMessage (body : List UInt8) : String :=
  (checks.vendorFailure body).getD incompleteStreamMessage

/-- The frames before the first failed one, and its error. -/
def splitFailed : List SseFrame → Option (List SseFrame × String)
  | [] => none
  | raw :: rest =>
    match responsesFailedVendorError sj checks wire raw with
    | some msg => some ([], msg)
    | none => (splitFailed rest).map fun r => (raw :: r.1, r.2)

def pushError (g : SameWireGate) (bytes : List UInt8) (err : String) :
    Except String SameWirePush × SameWireGate :=
  if g.sawFrame then (.error err, g)
  else
    let body := g.held ++ bytes
    let message := noFrameMessage checks body
    if message ≠ incompleteStreamMessage then (.error message, g)
    else (.ok .hold, { g with held := body })

def pushPartial (g : SameWireGate) (bytes : List UInt8) : SameWirePush × SameWireGate :=
  if !g.sawFrame then (.hold, { g with held := g.held ++ bytes })
  else if g.sawVendorError then (.hold, g)
  else if wire = .responses ∧ g.reader.hasOpenFrame = true then
    (.hold, { g with held := g.held ++ bytes })
  else (.forward bytes, g)

/-- Frames are complete in this chunk, and none of them is a failed one. -/
def pushFrames (g : SameWireGate) (bytes : List UInt8) (frames : List SseFrame) :
    SameWirePush × SameWireGate :=
  let g := if frames.any (isWrappedError sj) then { g with sawVendorError := true } else g
  if g.sawVendorError then
    let out := rewrite sj wire { g with sawFrame := true, held := [] } frames
    (.forward out.1, out.2)
  else
    (.forward (g.held ++ bytes),
      frames.foldl (noteTerminal sj wire) { g with sawFrame := true, held := [] })

def push (g : SameWireGate) (bytes : List UInt8) : Except String SameWirePush × SameWireGate :=
  if g.dropRest then (.ok .hold, g)
  else if !g.sawFrame && decide (maxUpstreamBody < g.held.length + bytes.length) then
    (.error incompleteStreamMessage, g)
  else
    match g.reader.feed sj bytes with
    | (.error err, reader) => pushError checks { g with reader } bytes err
    | (.ok (frames, terminal), reader) =>
      let g := { g with reader }
      match splitFailed sj checks wire frames with
      | some (before, msg) =>
        let out := rewrite sj wire g before
        (.ok (.forward (out.1 ++ destErrorBytes sj wire msg)),
          { out.2 with
            sawFrame := true
            sawTerminal := true
            sawVendorError := true
            dropRest := true
            held := [] })
      | none =>
        if wire = .responses ∧ g.sawVendorError = false ∧ g.reader.hasOpenFrame = true ∧
            frames ≠ [] ∧ frames.any (isWrappedError sj) = false then
          let out := rewrite sj wire g frames
          (.ok (.forward out.1),
            { out.2 with
              sawFrame := true
              held := pendingOf out.2.reader })
        else if terminal.isSome then
          (.ok (.forward (g.held ++ bytes)),
            { g with sawFrame := true, sawTerminal := true, held := [] })
        else if frames.isEmpty then
          let out := pushPartial wire g bytes
          (.ok out.1, out.2)
        else
          let out := pushFrames sj wire g bytes frames
          (.ok out.1, out.2)

def noFrameEnd (body : List UInt8) : SameWireEnd :=
  let message := noFrameMessage checks body
  if message ≠ incompleteStreamMessage then .replace message
  else
    match checks.completionToSse body with
    | some sse => .promote sse
    | none => .replace message

/-- The end, once the reader has given its last frame. -/
def finishWith (g : SameWireGate) (synthesized : List UInt8) : SameWireEnd :=
  let tail := g.held ++ synthesized
  if !g.sawFrame then noFrameEnd checks tail
  else if !g.sawTerminal then .append tail incompleteStreamMessage
  else .done tail

def finish (g : SameWireGate) : SameWireEnd :=
  if g.dropRest then .done []
  else
    match g.reader.finish with
    | .error err => if !g.sawFrame then noFrameEnd checks g.held else .append g.held err
    | .ok none => finishWith checks g []
    | .ok (some raw) =>
      match responsesFailedVendorError sj checks wire raw with
      | some msg => .replace msg
      | none =>
        let synthesized := if g.sawVendorError && !doneFramePrefix raw then formatSse raw else []
        finishWith checks (noteTerminal sj wire { g with sawFrame := true } raw) synthesized

end Wiremux.SameWire
