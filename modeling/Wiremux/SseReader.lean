import Wiremux.Utf8Lossy

set_option autoImplicit false

/-!
# The SSE frame reader

Bytes stay raw until a newline. A line over the cap, or a frame whose joined
data is over it, is an error that resets the reader.
-/
namespace Wiremux.SseReader
open Utf8Lossy

/-- `RawSse`, with the text of its data. -/
structure SseFrame where
  event : Option String
  data : String
deriving DecidableEq

def maxSsePending : ℕ := 16 * 1024 * 1024

structure SseFrameReader where
  buffer : List UInt8 := []
  event : Option String := none
  data : List String := []
  dataBytes : ℕ := 0
  hasFields : Bool := false
deriving DecidableEq

def newline : UInt8 := 0x0A

def carriageReturn : UInt8 := 0x0D

def lineTooLong : String := "SSE line exceeds 16777216 bytes"

def dataTooLong : String := "SSE data exceeds 16777216 bytes"

/-- The frame built so far, when any field was seen. -/
def takeFrame (r : SseFrameReader) : Option SseFrame × SseFrameReader :=
  if r.hasFields then
    (some ⟨r.event, "\n".intercalate r.data⟩,
      { r with event := none, data := [], dataBytes := 0, hasFields := false })
  else (none, r)

/-- `split_once(':')`, with one blank taken off the value. -/
def splitField (line : List Char) : String × String :=
  match line.dropWhile (· ≠ ':') with
  | [] => (String.ofList line, "")
  | _ :: value =>
    (String.ofList (line.takeWhile (· ≠ ':')),
      String.ofList (match value with
        | ' ' :: value => value
        | value => value))

def pushData (value : String) (r : SseFrameReader) : Except String SseFrameReader :=
  let extra := if r.data.isEmpty then value.utf8ByteSize else value.utf8ByteSize + 1
  if maxSsePending < r.dataBytes + extra then .error dataTooLong
  else .ok { r with
    dataBytes := r.dataBytes + extra
    data := r.data ++ [value]
    hasFields := true }

def pushLine (line : List Char) (r : SseFrameReader) :
    Except String (Option SseFrame × SseFrameReader) :=
  if line.isEmpty then .ok (takeFrame r)
  else if line.head? = some ':' then .ok (none, r)
  else
    let field := splitField line
    if field.1 = "event" then .ok (none, { r with event := some field.2, hasFields := true })
    else if field.1 = "data" then (pushData field.2 r).map fun r => (none, r)
    else if field.1 = "id" ∨ field.1 = "retry" then .ok (none, { r with hasFields := true })
    else .ok (none, r)

def dropReturn (line : List UInt8) : List UInt8 :=
  if line.getLast? = some carriageReturn then line.dropLast else line

/-- The `while` of `feed`, with the bytes of the line it is in. -/
def feedLines (r : SseFrameReader) (line : List UInt8) :
    List UInt8 → Except String (List SseFrame × SseFrameReader)
  | [] => .ok ([], { r with buffer := line })
  | b :: rest =>
    if b = newline then
      if maxSsePending < line.length then .error lineTooLong
      else
        match pushLine (fromUtf8Lossy (dropReturn line)) r with
        | .error e => .error e
        | .ok (frame, r) =>
          (feedLines r [] rest).map fun out => (frame.toList ++ out.1, out.2)
    else feedLines r (line ++ [b]) rest

/-- Append the bytes and take every complete frame. -/
def feed (r : SseFrameReader) (bytes : List UInt8) :
    Except String (List SseFrame × SseFrameReader) :=
  if maxSsePending < r.buffer.length + bytes.length ∧ newline ∉ bytes ∧ newline ∉ r.buffer then
    .error lineTooLong
  else
    match feedLines { r with buffer := [] } [] (r.buffer ++ bytes) with
    | .error e => .error e
    | .ok (out, r) => if maxSsePending < r.buffer.length then .error lineTooLong else .ok (out, r)

def trimReturns (line : List Char) : List Char :=
  (line.reverse.dropWhile (· = '\r')).reverse

/-- The end of the input: a pending line counts as complete. -/
def finish (r : SseFrameReader) : Except String (Option SseFrame) :=
  if r.buffer.isEmpty then .ok (takeFrame r).1
  else
    match pushLine (trimReturns (fromUtf8Lossy r.buffer)) { r with buffer := [] } with
    | .error e => .error e
    | .ok (some frame, _) => .ok (some frame)
    | .ok (none, r) => .ok (takeFrame r).1

def hasOpenFrame (r : SseFrameReader) : Bool := r.hasFields || !r.buffer.isEmpty

end Wiremux.SseReader
