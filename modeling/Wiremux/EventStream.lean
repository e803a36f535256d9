import Mathlib.Data.Nat.Notation
import Mathlib.Logic.Function.Iterate
import Wiremux.JsonValue
import Wiremux.SseReader

set_option autoImplicit false

/-!
# AWS Event Stream

A message is a prelude with its own checksum, headers, a payload and a checksum
of the whole. `takeMessage` reads one at the front of the buffer; `feed` reads
as many as there are.
-/
namespace Wiremux.EventStream
open JsonValue Utf8Lossy SseReader

def maxEventstreamPending : ℕ := 16 * 1024 * 1024

def preludeLen : ℕ := 12

def crcLen : ℕ := 4

def slice (buf : List UInt8) (i j : ℕ) : List UInt8 := (buf.take j).drop i

def fromBeBytes (bytes : List UInt8) : ℕ := bytes.foldl (fun acc b => acc * 256 + b.toNat) 0

def signedFromBeBytes (bytes : List UInt8) : ℤ :=
  (BitVec.ofNat (8 * bytes.length) (fromBeBytes bytes)).toInt

def crcStep (crc : UInt32) : UInt32 :=
  if crc &&& 1 = 1 then (crc >>> 1) ^^^ 0xEDB88320 else crc >>> 1

def crc32Ieee (data : List UInt8) : UInt32 :=
  ~~~ data.foldl (fun crc b => crcStep^[8] (crc ^^^ b.toUInt32)) 0xFFFFFFFF

def fromUtf8 (bytes : List UInt8) : Option String := String.fromUTF8? bytes.toByteArray

def fromSlice (sj : SerdeJson) (bytes : List UInt8) : Option Value :=
  (fromUtf8 bytes).bind sj.fromStr

def fromUtf8LossyText (bytes : List UInt8) : String := String.ofList (fromUtf8Lossy bytes)

def hexByte (b : UInt8) : String :=
  String.ofList [Nat.digitChar (b.toNat / 16), Nat.digitChar (b.toNat % 16)]

def takeBytes (rest : List UInt8) (n : ℕ) : Except String (List UInt8 × List UInt8) :=
  if rest.length < n then .error "eventstream header value truncated"
  else .ok (rest.take n, rest.drop n)

def takeSized (rest : List UInt8) : Except String (List UInt8 × List UInt8) :=
  match takeBytes rest 2 with
  | .error e => .error e
  | .ok (len, rest) => takeBytes rest (fromBeBytes len)

/-- The bytes taken, as text. -/
def textOf (text : List UInt8 → String) (taken : Except String (List UInt8 × List UInt8)) :
    Except String (String × List UInt8) :=
  taken.map fun r => (text r.1, r.2)

def signedText (bytes : List UInt8) : String := toString (signedFromBeBytes bytes)

def debugText (bytes : List UInt8) : String :=
  "[" ++ ", ".intercalate (bytes.map fun b => toString b.toNat) ++ "]"

def readHeaderValue (ty : UInt8) (rest : List UInt8) : Except String (String × List UInt8) :=
  match ty with
  | 0 => .ok ("true", rest)
  | 1 => .ok ("false", rest)
  | 2 => textOf (fun b => toString (fromBeBytes b)) (takeBytes rest 1)
  | 3 => textOf signedText (takeBytes rest 2)
  | 4 => textOf signedText (takeBytes rest 4)
  | 5 => textOf signedText (takeBytes rest 8)
  | 6 => textOf debugText (takeSized rest)
  | 7 =>
    match takeSized rest with
    | .error e => .error e
    | .ok (bytes, rest) =>
      match fromUtf8 bytes with
      | none => .error "eventstream string header is not UTF-8"
      | some text => .ok (text, rest)
  | 8 => textOf signedText (takeBytes rest 8)
  | 9 => textOf (fun b => String.join (b.map hexByte)) (takeBytes rest 16)
  | other => .error s!"eventstream unknown header type {other.toNat}"

structure ParsedHeaders where
  eventType : Option String := none
  messageType : Option String := none
  exceptionType : Option String := none

def ParsedHeaders.set (h : ParsedHeaders) (name value : String) : ParsedHeaders :=
  if name = ":event-type" then { h with eventType := some value }
  else if name = ":message-type" then { h with messageType := some value }
  else if name = ":exception-type" then { h with exceptionType := some value }
  else h

/-- One header: its name, its value and the bytes after it. -/
def readHeader (nameLen : UInt8) (rest : List UInt8) :
    Except String (String × String × List UInt8) :=
  if rest.length < nameLen.toNat + 1 then .error "eventstream header name truncated"
  else
    match fromUtf8 (rest.take nameLen.toNat) with
    | none => .error "eventstream header name is not UTF-8"
    | some name =>
      match rest.drop nameLen.toNat with
      | [] => .error "eventstream header name truncated"
      | ty :: rest => (readHeaderValue ty rest).map fun r => (name, r.1, r.2)

theorem takeBytes_length {rest bytes after : List UInt8} {n : ℕ}
    (h : takeBytes rest n = .ok (bytes, after)) : after.length ≤ rest.length := by
  unfold takeBytes at h
  split at h
  · cases h
  · obtain ⟨_, rfl⟩ := Prod.mk.inj (Except.ok.inj h)
    simp

theorem takeSized_length {rest bytes after : List UInt8}
    (h : takeSized rest = .ok (bytes, after)) : after.length ≤ rest.length := by
  unfold takeSized at h
  split at h
  · cases h
  · rename_i len mid hlen
    exact (takeBytes_length h).trans (takeBytes_length hlen)

theorem textOf_length {text : List UInt8 → String} {rest after : List UInt8} {value : String}
    {taken : Except String (List UInt8 × List UInt8)}
    (htaken : ∀ bytes left, taken = .ok (bytes, left) → left.length ≤ rest.length)
    (h : textOf text taken = .ok (value, after)) : after.length ≤ rest.length := by
  cases taken with
  | error e => cases h
  | ok r =>
    obtain ⟨_, rfl⟩ := Prod.mk.inj (Except.ok.inj h)
    exact htaken r.1 r.2 rfl

theorem readHeaderValue_length {ty : UInt8} {rest after : List UInt8} {value : String}
    (h : readHeaderValue ty rest = .ok (value, after)) : after.length ≤ rest.length := by
  have hfixed : ∀ (text : List UInt8 → String) (n : ℕ),
      textOf text (takeBytes rest n) = .ok (value, after) → after.length ≤ rest.length :=
    fun _ _ => textOf_length fun _ _ => takeBytes_length
  unfold readHeaderValue at h
  split at h
  · exact (Prod.mk.inj (Except.ok.inj h)).2 ▸ le_rfl
  · exact (Prod.mk.inj (Except.ok.inj h)).2 ▸ le_rfl
  · exact hfixed _ _ h
  · exact hfixed _ _ h
  · exact hfixed _ _ h
  · exact hfixed _ _ h
  · exact textOf_length (fun _ _ => takeSized_length) h
  · split at h
    · cases h
    · rename_i bytes left hsized
      split at h
      · cases h
      · obtain ⟨_, rfl⟩ := Prod.mk.inj (Except.ok.inj h)
        exact takeSized_length hsized
  · exact hfixed _ _ h
  · exact hfixed _ _ h
  · cases h

theorem readHeader_length {nameLen : UInt8} {rest after : List UInt8} {name value : String}
    (h : readHeader nameLen rest = .ok (name, value, after)) : after.length ≤ rest.length := by
  unfold readHeader at h
  split at h
  · cases h
  · split at h
    · cases h
    · split at h
      · cases h
      · rename_i ty left hdrop
        have hleft : left.length ≤ rest.length := by
          have hlen := congrArg List.length hdrop
          rw [List.length_drop, List.length_cons] at hlen
          omega
        cases hvalue : readHeaderValue ty left with
        | error e => rw [hvalue] at h; cases h
        | ok r =>
          rw [hvalue] at h
          obtain ⟨_, hr⟩ := Prod.mk.inj (Except.ok.inj h)
          obtain ⟨_, rfl⟩ := Prod.mk.inj hr
          exact (readHeaderValue_length hvalue).trans hleft

/-- The `while` of `parse_headers`. -/
def parseHeaders (h : ParsedHeaders) (buf : List UInt8) : Except String ParsedHeaders :=
  match buf with
  | [] => .ok h
  | nameLen :: rest =>
    match _hheader : readHeader nameLen rest with
    | .error e => .error e
    | .ok (name, value, after) => parseHeaders (h.set name value) after
termination_by buf.length
decreasing_by
  have hlen := readHeader_length _hheader
  rw [List.length_cons]
  omega

structure EventStreamMessage where
  eventType : Option String
  payload : List UInt8

inductive Take where
  | frame (msg : EventStreamMessage) (consumed : ℕ)
  | exception (err : String) (consumed : ℕ)

/-- The member struct goes under its event name, unless it is there already. -/
def wrapEventPayload (sj : SerdeJson) (eventType : Option String) (payload : List UInt8) : String :=
  let text := fromUtf8LossyText payload
  match eventType.filter (· ≠ "") with
  | none => text
  | some eventType =>
    match fromSlice sj payload with
    | some (.object fields) =>
      if ((Value.object fields).get? eventType).isSome then text
      else sj.toString (.object [(eventType, .object fields)])
    | _ => text

def EventStreamMessage.intoRawSse (sj : SerdeJson) (msg : EventStreamMessage) : SseFrame :=
  ⟨msg.eventType, wrapEventPayload sj msg.eventType msg.payload⟩

def exceptionError (sj : SerdeJson) (exceptionType : String) (payload : List UInt8) : String :=
  let message := (((fromSlice sj payload).bind fun value => value.get? "message").bind
    Value.asStr?).getD (fromUtf8LossyText payload)
  s!"eventstream exception {exceptionType}: {message}"

/-- `none` while the message is not all there. -/
def takeMessage (sj : SerdeJson) (buf : List UInt8) : Except String (Option Take) :=
  if buf.length < preludeLen then .ok none
  else
    let total := fromBeBytes (slice buf 0 4)
    let headersLen := fromBeBytes (slice buf 4 8)
    if (crc32Ieee (slice buf 0 8)).toNat ≠ fromBeBytes (slice buf 8 12) then
      .error "eventstream prelude CRC mismatch"
    else if total < preludeLen + crcLen ∨ maxEventstreamPending < total then
      .error s!"eventstream total_length {total} is invalid"
    else if buf.length < total then .ok none
    else if (crc32Ieee (slice buf 0 (total - crcLen))).toNat ≠
        fromBeBytes (slice buf (total - crcLen) total) then
      .error "eventstream message CRC mismatch"
    else if total - crcLen < preludeLen + headersLen then
      .error "eventstream headers overflow payload"
    else
      match parseHeaders {} (slice buf preludeLen (preludeLen + headersLen)) with
      | .error e => .error e
      | .ok headers =>
        let payload := slice buf (preludeLen + headersLen) (total - crcLen)
        if headers.messageType = some "exception" then
          .ok (some (.exception
            (exceptionError sj (headers.exceptionType.getD "unknown") payload) total))
        else .ok (some (.frame ⟨headers.eventType, payload⟩ total))

theorem takeMessage_consumed {sj : SerdeJson} {buf : List UInt8} {msg : EventStreamMessage}
    {consumed : ℕ} (h : takeMessage sj buf = .ok (some (.frame msg consumed))) :
    0 < consumed ∧ consumed ≤ buf.length := by
  unfold takeMessage at h
  split at h
  · cases h
  · simp only at h
    split at h
    · cases h
    · split at h
      · cases h
      · rename_i htotal
        split at h
        · cases h
        · rename_i hall
          split at h
          · cases h
          · split at h
            · cases h
            · split at h
              · cases h
              · split at h
                · cases h
                · obtain ⟨_, rfl⟩ := Take.frame.inj (Option.some.inj (Except.ok.inj h))
                  have hleast : preludeLen + crcLen ≤ fromBeBytes (slice buf 0 4) :=
                    not_lt.mp fun hlt => htotal (.inl hlt)
                  exact ⟨lt_of_lt_of_le (by decide) hleast, not_lt.mp hall⟩

structure EventStreamReader where
  buffer : List UInt8 := []

/-- The `loop` of `feed`, from the cursor on, and the bytes it leaves. -/
def feedMessages (sj : SerdeJson) (out : List SseFrame) (buf : List UInt8) :
    Except String (List SseFrame × Option String) × EventStreamReader :=
  match _htake : takeMessage sj buf with
  | .ok none => (.ok (out, none), ⟨buf⟩)
  | .ok (some (.frame msg consumed)) =>
    feedMessages sj (out ++ [msg.intoRawSse sj]) (buf.drop consumed)
  | .ok (some (.exception err _)) => (.ok (out, some err), {})
  | .error err => (.error err, ⟨buf⟩)
termination_by buf.length
decreasing_by
  obtain ⟨hpos, hle⟩ := takeMessage_consumed _htake
  rw [List.length_drop]
  omega

/-- An exception comes after the frames before it, an error instead of them. -/
def feed (sj : SerdeJson) (r : EventStreamReader) (bytes : List UInt8) :
    Except String (List SseFrame × Option String) × EventStreamReader :=
  if maxEventstreamPending < r.buffer.length + bytes.length then
    (.error s!"eventstream buffer exceeds {maxEventstreamPending} bytes", {})
  else feedMessages sj [] (r.buffer ++ bytes)

/-- Bytes left over are a truncated message. -/
def finish (r : EventStreamReader) : Except String (Option SseFrame) :=
  if r.buffer.isEmpty then .ok none
  else .error s!"eventstream ended with {r.buffer.length} trailing bytes"

end Wiremux.EventStream
