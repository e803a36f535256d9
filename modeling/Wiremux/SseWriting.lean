import Wiremux.Upstream

set_option autoImplicit false

/-!
# Writing SSE frames and error frames
-/
namespace Wiremux.SseWriting
open JsonValue StreamEvents SseReader EventStream Upstream

/-- The bytes of a text. -/
def utf8 (text : List Char) : List UInt8 := text.flatMap String.utf8EncodeChar

theorem utf8_append (front back : List Char) : utf8 (front ++ back) = utf8 front ++ utf8 back :=
  List.flatMap_append

def fieldLine (name value : List Char) : List UInt8 := utf8 (name ++ ':' :: ' ' :: value) ++ [newline]

def eventName : List Char := ['e', 'v', 'e', 'n', 't']

def dataName : List Char := ['d', 'a', 't', 'a']

def eventLine (event : Option String) : List UInt8 :=
  match event with
  | some event => fieldLine eventName event.toList
  | none => []

def dataLines (lines : List (List Char)) : List UInt8 := lines.flatMap (fieldLine dataName)

def formatSse (raw : SseFrame) : List UInt8 :=
  eventLine raw.event ++ dataLines (raw.data.toList.splitOn '\n') ++ [newline]

/-- The bytes of the frame still open, from what the reader keeps of it. -/
def pendingWireBytes (r : SseFrameReader) : List UInt8 :=
  eventLine r.event ++ dataLines (r.data.map String.toList) ++ r.buffer

def pendingOf : UpstreamFrames → List UInt8
  | .sse r => pendingWireBytes r
  | .event _ => []

def sseDoneFrame (raw : SseFrame) : Bool := trim raw.data == "[DONE]"

/-- `[D` or `[DONE]`: a terminator, or the first part of one. -/
def doneFramePrefix (raw : SseFrame) : Bool :=
  let data := trim raw.data
  !data.isEmpty && data.toList.isPrefixOf "[DONE]".toList

def isCodeChar (c : Char) : Bool :=
  ('a' ≤ c && c ≤ 'z') || ('A' ≤ c && c ≤ 'Z') || ('0' ≤ c && c ≤ '9') || c == '_'

def splitColonBlank : List Char → Option (List Char × List Char)
  | [] => none
  | [_] => none
  | a :: b :: rest =>
    if a = ':' ∧ b = ' ' then some ([], rest)
    else (splitColonBlank (b :: rest)).map fun halves => (a :: halves.1, halves.2)

def splitErrorPrefix (msg : String) : Option String × String :=
  match splitColonBlank msg.toList with
  | some (code, rest) =>
    if !code.isEmpty && !rest.isEmpty && code.all isCodeChar then
      (some (String.ofList code), String.ofList rest)
    else (none, msg)
  | none => (none, msg)

def destErrorJson (wire : Wire) (msg : String) : Value :=
  let split := splitErrorPrefix msg
  match wire with
  | .converse => .object [("message", msg)]
  | .messages => .object [("type", "error"),
      ("error", .object [("type", split.1.getD "api_error"), ("message", split.2)])]
  | .responses => .object [("type", "error"), ("message", split.2),
      ("code", split.1.getD "server_error")]
  | .gemini => .object [("error", .object [("message", split.2),
      ("status", split.1.getD "INTERNAL")])]
  | .chatCompletions => .object [("error", .object [("type", split.1.getD "server_error"),
      ("message", split.2)])]

def toBeBytes (width n : ℕ) : List UInt8 :=
  match width with
  | 0 => []
  | width + 1 => toBeBytes width (n / 256) ++ [UInt8.ofNat n]

/-- A string header of an Event Stream message. -/
def stringHeader (name value : String) : List UInt8 :=
  UInt8.ofNat (utf8 name.toList).length :: utf8 name.toList ++
    7 :: toBeBytes 2 (utf8 value.toList).length ++ utf8 value.toList

def encodeWithHeaders (headers payload : List UInt8) : List UInt8 :=
  let total := preludeLen + headers.length + payload.length + crcLen
  let prelude := toBeBytes 4 total ++ toBeBytes 4 headers.length
  let message := prelude ++ toBeBytes 4 (crc32Ieee prelude).toNat ++ headers ++ payload
  message ++ toBeBytes 4 (crc32Ieee message).toNat

def encodeExceptionMessage (exceptionType : String) (payload : List UInt8) : List UInt8 :=
  encodeWithHeaders (stringHeader ":message-type" "exception" ++
    stringHeader ":exception-type" exceptionType ++
    stringHeader ":content-type" "application/json") payload

def errorFrame (sj : SerdeJson) (wire : Wire) (msg : String) : SseFrame :=
  ⟨some "error", sj.toString (destErrorJson wire msg)⟩

def destErrorBytes (sj : SerdeJson) (wire : Wire) (msg : String) : List UInt8 :=
  match wire with
  | .converse => encodeExceptionMessage "internalServerException"
      (utf8 (sj.toString (destErrorJson wire msg)).toList)
  | _ => formatSse (errorFrame sj wire msg)

end Wiremux.SseWriting
