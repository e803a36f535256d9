import Wiremux.CheckedBytes
import Wiremux.EventStreamHeaders

set_option autoImplicit false

/-!
# Offsets into an Event Stream buffer

`takeMessage` and the loop around it as the code computes them: offsets and
lengths in `usize`, reads by index. A read outside the buffer, or a number that
does not fit, is `none`, and so is a loop that is out of fuel. None of this
happens, and what is computed is what the message reader says.
-/
namespace Wiremux.EventStreamOffsets
open JsonValue EventStream EventStreamHeaders CheckedBytes
open SseReader (SseFrame)

/-- The numbers of a machine whose `usize` holds a `u32`. -/
structure Machine where
  bits : ℕ
  wide : 32 ≤ bits

def Machine.usizeMax (m : Machine) : ℕ := 2 ^ m.bits - 1

def Machine.isizeMax (m : Machine) : ℕ := 2 ^ (m.bits - 1) - 1

/-- A slice is never longer than `isize::MAX`. -/
structure ByteSlice (m : Machine) where
  bytes : List UInt8
  fits : bytes.length ≤ m.isizeMax

variable {m : Machine}

theorem Machine.isize_room (m : Machine) : m.isizeMax + 65536 ≤ m.usizeMax := by
  obtain ⟨bits, wide⟩ := m
  obtain ⟨extra, rfl⟩ := Nat.exists_eq_add_of_le' wide
  have hhalf : 2 ^ (extra + 32) = 2 * 2 ^ (extra + 31) := by rw [← Nat.pow_succ']
  have hleast : 2 ^ 31 ≤ 2 ^ (extra + 31) := Nat.pow_le_pow_right (by decide) (by omega)
  have hless : extra + 32 - 1 = extra + 31 := rfl
  simp only [isizeMax, usizeMax, hless]
  rw [hhalf]
  have hroom : (65536 : ℕ) ≤ 2 ^ 31 := by decide
  omega

theorem Machine.pending_fits (m : Machine) : maxEventstreamPending ≤ m.isizeMax := by
  have hleast : 2 ^ 31 ≤ 2 ^ (m.bits - 1) :=
    Nat.pow_le_pow_right (by decide) (Nat.le_sub_of_add_le m.wide)
  have hroom : maxEventstreamPending ≤ 2 ^ 31 - 1 := by decide
  rw [isizeMax]
  omega

variable (m)

/-- `take_bytes`. -/
def takeBytesAt (buf : List UInt8) (i n : ℕ) : Option (Except String (List UInt8 × ℕ)) := do
  let stop ← checkedAdd m.usizeMax i n
  if buf.length < stop then return .error "eventstream header value truncated"
  let stop ← checkedAdd m.usizeMax i n
  let slice ← range buf i stop
  let i ← checkedAdd m.usizeMax i n
  return .ok (slice, i)

def takeNumberAt (text : List UInt8 → String) (buf : List UInt8) (i n : ℕ) :
    Option (Except String (String × ℕ)) := do
  match ← takeBytesAt m buf i n with
  | .error e => return .error e
  | .ok (bytes, i) =>
    let bytes ← exactly n bytes
    return .ok (text bytes, i)

def takeSizedAt (buf : List UInt8) (i : ℕ) : Option (Except String (List UInt8 × ℕ)) := do
  match ← takeBytesAt m buf i 2 with
  | .error e => return .error e
  | .ok (len, i) =>
    let len ← exactly 2 len
    takeBytesAt m buf i (fromBeBytes len)

def readHeaderValueAt (ty : UInt8) (buf : List UInt8) (i : ℕ) :
    Option (Except String (String × ℕ)) :=
  match ty with
  | 0 => some (.ok ("true", i))
  | 1 => some (.ok ("false", i))
  | 2 => takeNumberAt m (fun b => toString (fromBeBytes b)) buf i 1
  | 3 => takeNumberAt m signedText buf i 2
  | 4 => takeNumberAt m signedText buf i 4
  | 5 => takeNumberAt m signedText buf i 8
  | 6 => do
    match ← takeSizedAt m buf i with
    | .error e => return .error e
    | .ok (bytes, i) => return .ok (debugText bytes, i)
  | 7 => do
    match ← takeSizedAt m buf i with
    | .error e => return .error e
    | .ok (bytes, i) =>
      match fromUtf8 bytes with
      | none => return .error "eventstream string header is not UTF-8"
      | some text => return .ok (text, i)
  | 8 => takeNumberAt m signedText buf i 8
  | 9 => takeNumberAt m (fun b => String.join (b.map hexByte)) buf i 16
  | other => some (.error s!"eventstream unknown header type {other.toNat}")

def readHeaderAt (buf : List UInt8) (i : ℕ) : Option (Except String ((String × String) × ℕ)) := do
  let nameLen ← (buf[i]?).map UInt8.toNat
  let i ← checkedAdd m.usizeMax i 1
  let stop ← (checkedAdd m.usizeMax i nameLen).bind fun n => checkedAdd m.usizeMax n 1
  if buf.length < stop then return .error "eventstream header name truncated"
  let stop ← checkedAdd m.usizeMax i nameLen
  let bytes ← range buf i stop
  match fromUtf8 bytes with
  | none => return .error "eventstream header name is not UTF-8"
  | some name =>
    let i ← checkedAdd m.usizeMax i nameLen
    let ty ← buf[i]?
    let i ← checkedAdd m.usizeMax i 1
    match ← readHeaderValueAt m ty buf i with
    | .error e => return .error e
    | .ok (value, i) => return .ok ((name, value), i)

def parseHeadersAt (fuel : ℕ) (h : ParsedHeaders) (buf : List UInt8) (i : ℕ) :
    Option (Except String ParsedHeaders) :=
  match fuel with
  | 0 => none
  | fuel + 1 =>
    if i < buf.length then
      match readHeaderAt m buf i with
      | none => none
      | some (.error e) => some (.error e)
      | some (.ok (header, i)) => parseHeadersAt fuel (h.set header.1 header.2) buf i
    else some (.ok h)

def numberAt (buf : List UInt8) (i j : ℕ) : Option ℕ :=
  (range buf i j).bind fun piece => (exactly 4 piece).map fromBeBytes

def takeMessageAt (sj : SerdeJson) (buf : List UInt8) : Option (Except String (Option Take)) := do
  if buf.length < preludeLen then return .ok none
  let total ← numberAt buf 0 4
  let headersLen ← numberAt buf 4 8
  let preludeCrc ← numberAt buf 8 12
  let prelude ← range buf 0 8
  if (crc32Ieee prelude).toNat ≠ preludeCrc then return .error "eventstream prelude CRC mismatch"
  if total < preludeLen + crcLen ∨ maxEventstreamPending < total then
    return .error s!"eventstream total_length {total} is invalid"
  if buf.length < total then return .ok none
  let crcStart ← checkedSub total crcLen
  let messageCrc ← numberAt buf crcStart total
  let body ← range buf 0 crcStart
  if (crc32Ieee body).toNat ≠ messageCrc then return .error "eventstream message CRC mismatch"
  let headersEnd := saturatingAdd m.usizeMax preludeLen headersLen
  if crcStart < headersEnd then return .error "eventstream headers overflow payload"
  let block ← range buf preludeLen headersEnd
  match ← parseHeadersAt m (block.length + 1) {} block 0 with
  | .error e => return .error e
  | .ok headers =>
    let payload ← range buf headersEnd crcStart
    if headers.messageType = some "exception" then
      return .ok (some (.exception
        (exceptionError sj (headers.exceptionType.getD "unknown") payload) total))
    return .ok (some (.frame ⟨headers.eventType, payload⟩ total))

/-- The `loop` of `feed`, from a cursor on. -/
def feedMessagesAt (sj : SerdeJson) (fuel : ℕ) (out : List SseFrame) (buf : List UInt8)
    (cursor : ℕ) : Option (Except String (List SseFrame × Option String) × EventStreamReader) :=
  match fuel with
  | 0 => none
  | fuel + 1 => do
    let rest ← range buf cursor buf.length
    match ← takeMessageAt m sj rest with
    | .ok none => return (.ok (out, none), ⟨buf.drop cursor⟩)
    | .ok (some (.frame msg consumed)) =>
      let cursor ← checkedAdd m.usizeMax cursor consumed
      feedMessagesAt sj fuel (out ++ [msg.intoRawSse sj]) buf cursor
    | .ok (some (.exception err consumed)) =>
      let _ ← checkedAdd m.usizeMax cursor consumed
      return (.ok (out, some err), {})
    | .error err => return (.error err, ⟨buf.drop cursor⟩)

def feedAt (sj : SerdeJson) (fuel : ℕ) (r : EventStreamReader) (bytes : List UInt8) :
    Option (Except String (List SseFrame × Option String) × EventStreamReader) :=
  if maxEventstreamPending < saturatingAdd m.usizeMax r.buffer.length bytes.length then
    some (.error s!"eventstream buffer exceeds {maxEventstreamPending} bytes", {})
  else feedMessagesAt m sj fuel [] (r.buffer ++ bytes) 0

variable {m}

theorem room {buf : List UInt8} {i n : ℕ} (hslice : buf.length ≤ m.isizeMax) (hi : i ≤ buf.length)
    (hn : n ≤ 65536) : i + n ≤ m.usizeMax :=
  (Nat.add_le_add (hi.trans hslice) hn).trans m.isize_room

theorem takeBytesAt_eq {buf : List UInt8} {i n : ℕ} (hslice : buf.length ≤ m.isizeMax)
    (hi : i ≤ buf.length) (hn : n ≤ 65536) :
    takeBytesAt m buf i n = some (located buf (takeBytes (buf.drop i) n)) := by
  have hadd := checkedAdd_some m.usizeMax (room hslice hi hn)
  rw [takeBytesAt, takeBytes, List.length_drop, hadd]
  by_cases hlong : buf.length < i + n
  · have hrest : buf.length - i < n := by omega
    rw [if_pos hrest]
    simp [hlong, located_error]
  · have hrest : ¬ buf.length - i < n := by omega
    rw [if_neg hrest, List.drop_drop, located_drop _ _ (not_lt.mp hlong)]
    simp [hlong, range_drop (not_lt.mp hlong)]

theorem takeBytes_drop {buf bytes after : List UInt8} {i n : ℕ}
    (h : takeBytes (buf.drop i) n = .ok (bytes, after)) (hi : i ≤ buf.length) :
    bytes.length = n ∧ after = buf.drop (i + n) ∧ i + n ≤ buf.length := by
  unfold takeBytes at h
  rw [List.length_drop] at h
  split at h
  · cases h
  · obtain ⟨rfl, rfl⟩ := Prod.mk.inj (Except.ok.inj h)
    refine ⟨?_, List.drop_drop, by omega⟩
    rw [List.length_take, List.length_drop]
    omega

theorem takeNumberAt_eq {text : List UInt8 → String} {buf : List UInt8} {i n : ℕ}
    (hslice : buf.length ≤ m.isizeMax) (hi : i ≤ buf.length) (hn : n ≤ 65536) :
    takeNumberAt m text buf i n = some (located buf (textOf text (takeBytes (buf.drop i) n))) := by
  rw [takeNumberAt, takeBytesAt_eq hslice hi hn]
  cases htake : takeBytes (buf.drop i) n with
  | error e => rfl
  | ok r =>
    obtain ⟨bytes, after⟩ := r
    obtain ⟨hlength, rfl, hroom⟩ := takeBytes_drop htake hi
    rw [located_drop _ _ hroom]
    simp only [Option.bind_eq_bind, Option.bind_some, exactly_some hlength]
    rw [textOf, Except.map, located_drop _ _ hroom]
    rfl

theorem takeSizedAt_eq {buf : List UInt8} {i : ℕ} (hslice : buf.length ≤ m.isizeMax)
    (hi : i ≤ buf.length) :
    takeSizedAt m buf i = some (located buf (takeSized (buf.drop i))) := by
  rw [takeSizedAt, takeBytesAt_eq hslice hi (by decide), takeSized]
  cases htake : takeBytes (buf.drop i) 2 with
  | error e => rfl
  | ok r =>
    obtain ⟨len, after⟩ := r
    obtain ⟨hlength, rfl, hroom⟩ := takeBytes_drop htake hi
    have hlen := fromBeBytes_le len
    rw [hlength] at hlen
    rw [located_drop _ _ hroom]
    simp only [Option.bind_eq_bind, Option.bind_some, exactly_some hlength]
    exact takeBytesAt_eq hslice hroom (by omega)

theorem takeSized_drop {buf bytes after : List UInt8} {i : ℕ}
    (h : takeSized (buf.drop i) = .ok (bytes, after)) (hi : i ≤ buf.length) :
    ∃ j, i ≤ j ∧ j ≤ buf.length ∧ after = buf.drop j := by
  unfold takeSized at h
  split at h
  · cases h
  · rename_i len mid hlen
    obtain ⟨_, rfl, hmid⟩ := takeBytes_drop hlen hi
    obtain ⟨_, rfl, hroom⟩ := takeBytes_drop h hmid
    exact ⟨_, by omega, hroom, rfl⟩

theorem readHeaderValueAt_eq {ty : UInt8} {buf : List UInt8} {i : ℕ}
    (hslice : buf.length ≤ m.isizeMax) (hi : i ≤ buf.length) :
    readHeaderValueAt m ty buf i = some (located buf (readHeaderValue ty (buf.drop i))) := by
  have hsized := takeSizedAt_eq hslice hi
  unfold readHeaderValueAt
  split
  · exact congrArg some (located_drop buf "true" hi).symm
  · exact congrArg some (located_drop buf "false" hi).symm
  · exact takeNumberAt_eq hslice hi (by decide)
  · exact takeNumberAt_eq hslice hi (by decide)
  · exact takeNumberAt_eq hslice hi (by decide)
  · exact takeNumberAt_eq hslice hi (by decide)
  · rw [hsized, readHeaderValue]
    cases htake : takeSized (buf.drop i) with
    | error e => rfl
    | ok r =>
      obtain ⟨bytes, after⟩ := r
      obtain ⟨j, _, hj, rfl⟩ := takeSized_drop htake hi
      rw [located_drop _ _ hj]
      exact congrArg some (located_drop buf (debugText bytes) hj).symm
  · rw [hsized, readHeaderValue]
    cases htake : takeSized (buf.drop i) with
    | error e => rfl
    | ok r =>
      obtain ⟨bytes, after⟩ := r
      obtain ⟨j, _, hj, rfl⟩ := takeSized_drop htake hi
      rw [located_drop _ _ hj]
      simp only [Option.bind_eq_bind, Option.bind_some]
      cases fromUtf8 bytes with
      | none => rfl
      | some text => exact congrArg some (located_drop buf text hj).symm
  · exact takeNumberAt_eq hslice hi (by decide)
  · exact takeNumberAt_eq hslice hi (by decide)
  · simp only [readHeaderValue, located_error]

/-- What a reading leaves is the buffer from a later offset on. -/
def Rest (buf : List UInt8) (i : ℕ) (after : List UInt8) : Prop :=
  ∃ j, i ≤ j ∧ j ≤ buf.length ∧ after = buf.drop j

theorem takeBytes_rest {buf bytes after : List UInt8} {i n : ℕ} (hi : i ≤ buf.length)
    (h : takeBytes (buf.drop i) n = .ok (bytes, after)) : Rest buf i after := by
  obtain ⟨_, hafter, hroom⟩ := takeBytes_drop h hi
  exact ⟨i + n, Nat.le_add_right i n, hroom, hafter⟩

theorem textOf_rest {text : List UInt8 → String} {buf after : List UInt8} {i : ℕ} {value : String}
    {taken : Except String (List UInt8 × List UInt8)}
    (htaken : ∀ bytes left, taken = .ok (bytes, left) → Rest buf i left)
    (h : textOf text taken = .ok (value, after)) : Rest buf i after := by
  cases taken with
  | error e => cases h
  | ok r =>
    obtain ⟨_, rfl⟩ := Prod.mk.inj (Except.ok.inj h)
    exact htaken r.1 r.2 rfl

theorem readHeaderValue_rest {ty : UInt8} {buf after : List UInt8} {i : ℕ} {value : String}
    (hi : i ≤ buf.length) (h : readHeaderValue ty (buf.drop i) = .ok (value, after)) :
    Rest buf i after := by
  have hfixed : ∀ (text : List UInt8 → String) (n : ℕ),
      textOf text (takeBytes (buf.drop i) n) = .ok (value, after) → Rest buf i after :=
    fun _ _ => textOf_rest fun _ _ => takeBytes_rest hi
  have hhere : Rest buf i (buf.drop i) := ⟨i, le_rfl, hi, rfl⟩
  unfold readHeaderValue at h
  split at h
  · exact (Prod.mk.inj (Except.ok.inj h)).2 ▸ hhere
  · exact (Prod.mk.inj (Except.ok.inj h)).2 ▸ hhere
  · exact hfixed _ _ h
  · exact hfixed _ _ h
  · exact hfixed _ _ h
  · exact hfixed _ _ h
  · exact textOf_rest (fun _ _ hsized => takeSized_drop hsized hi) h
  · split at h
    · cases h
    · rename_i bytes left hsized
      split at h
      · cases h
      · obtain ⟨_, rfl⟩ := Prod.mk.inj (Except.ok.inj h)
        exact takeSized_drop hsized hi
  · exact hfixed _ _ h
  · exact hfixed _ _ h
  · cases h

theorem readHeaderAt_eq {buf : List UInt8} {i : ℕ} (hslice : buf.length ≤ m.isizeMax)
    (hi : i < buf.length) :
    readHeaderAt m buf i = some (located buf
      ((readHeader buf[i] (buf.drop (i + 1))).map fun r => ((r.1, r.2.1), r.2.2))) := by
  have hbyte : buf[i].toNat < 256 := UInt8.toNat_lt _
  have hadd := checkedAdd_some m.usizeMax (room (n := 1) hslice hi.le (by decide))
  have hname := checkedAdd_some m.usizeMax (room (n := buf[i].toNat) hslice hi (by omega))
  have hstop := checkedAdd_some m.usizeMax (a := i + 1 + buf[i].toNat) (b := 1) (by
    have := room (n := buf[i].toNat + 1) hslice hi (by omega)
    omega)
  rw [readHeaderAt, readHeader, List.length_drop, List.getElem?_eq_getElem hi]
  simp only [Option.map_some, Option.bind_eq_bind, Option.bind_some, hadd, hname, hstop]
  by_cases hlong : buf.length < i + 1 + buf[i].toNat + 1
  · have hrest : buf.length - (i + 1) < buf[i].toNat + 1 := by omega
    rw [if_pos hlong, if_pos hrest]
    rfl
  · have hrest : ¬ buf.length - (i + 1) < buf[i].toNat + 1 := by omega
    have hnamed : i + 1 + buf[i].toNat < buf.length := by omega
    rw [if_neg hlong, if_neg hrest, range_drop hnamed.le]
    simp only [Option.bind_some, pure]
    cases fromUtf8 ((buf.drop (i + 1)).take buf[i].toNat) with
    | none => rfl
    | some name =>
      simp only [Option.bind_some, List.drop_drop, List.drop_eq_getElem_cons hnamed,
        List.getElem?_eq_getElem hnamed]
      rw [readHeaderValueAt_eq hslice hnamed]
      cases hvalue : readHeaderValue buf[i + 1 + buf[i].toNat]
          (buf.drop (i + 1 + buf[i].toNat + 1)) with
      | error e => rfl
      | ok r =>
        obtain ⟨value, after⟩ := r
        obtain ⟨j, _, hj, rfl⟩ := readHeaderValue_rest hnamed hvalue
        rw [located_drop _ _ hj]
        exact congrArg some (located_drop buf (name, value) hj).symm

theorem readHeader_rest {nameLen : UInt8} {buf after : List UInt8} {i : ℕ} {name value : String}
    (hi : i ≤ buf.length) (h : readHeader nameLen (buf.drop i) = .ok (name, value, after)) :
    Rest buf i after := by
  unfold readHeader at h
  split at h
  · cases h
  · rename_i hlong
    rw [List.length_drop] at hlong
    split at h
    · cases h
    · rw [List.drop_drop] at h
      have hnamed : i + nameLen.toNat < buf.length := by omega
      rw [List.drop_eq_getElem_cons hnamed] at h
      simp only at h
      cases hvalue : readHeaderValue buf[i + nameLen.toNat]
          (buf.drop (i + nameLen.toNat + 1)) with
      | error e => rw [hvalue] at h; cases h
      | ok r =>
        rw [hvalue] at h
        obtain ⟨_, hr⟩ := Prod.mk.inj (Except.ok.inj h)
        obtain ⟨_, rfl⟩ := Prod.mk.inj hr
        obtain ⟨j, hij, hj, hafter⟩ := readHeaderValue_rest hnamed hvalue
        exact ⟨j, by omega, hj, hafter⟩

theorem parseHeaders_error {h : ParsedHeaders} {nameLen : UInt8} {rest : List UInt8} {e : String}
    (hheader : readHeader nameLen rest = .error e) :
    parseHeaders h (nameLen :: rest) = .error e := by
  rw [parseHeaders]
  split <;> simp_all

theorem parseHeaders_ok {h : ParsedHeaders} {nameLen : UInt8} {rest after : List UInt8}
    {name value : String} (hheader : readHeader nameLen rest = .ok (name, value, after)) :
    parseHeaders h (nameLen :: rest) = parseHeaders (h.set name value) after := by
  rw [parseHeaders]
  split <;> simp_all

theorem parseHeadersAt_eq {buf : List UInt8} (hslice : buf.length ≤ m.isizeMax) {fuel i : ℕ}
    (h : ParsedHeaders) (hi : i ≤ buf.length) (hfuel : buf.length - i < fuel) :
    parseHeadersAt m fuel h buf i = some (parseHeaders h (buf.drop i)) := by
  induction fuel generalizing h i with
  | zero => omega
  | succ fuel ih =>
    rw [parseHeadersAt]
    by_cases hend : i < buf.length
    · rw [if_pos hend, readHeaderAt_eq hslice hend, List.drop_eq_getElem_cons hend]
      cases hheader : readHeader buf[i] (buf.drop (i + 1)) with
      | error e =>
        rw [parseHeaders_error hheader]
        rfl
      | ok r =>
        obtain ⟨name, value, after⟩ := r
        obtain ⟨j, hij, hj, rfl⟩ := readHeader_rest hend hheader
        have hread : located buf ((Except.ok (name, value, buf.drop j) :
            Except String (String × String × List UInt8)).map fun r => ((r.1, r.2.1), r.2.2)) =
            .ok ((name, value), j) := located_drop buf (name, value) hj
        rw [parseHeaders_ok hheader, hread]
        exact ih (h.set name value) hj (by omega)
    · have hnil : buf.drop i = [] := List.drop_eq_nil_iff.mpr (not_lt.mp hend)
      rw [if_neg hend, hnil, parseHeaders]

theorem numberAt_some {buf : List UInt8} {i j : ℕ} (hij : i + 4 = j) (hj : j ≤ buf.length) :
    numberAt buf i j = some (fromBeBytes (slice buf i j)) := by
  have hlength : (slice buf i j).length = 4 := by
    rw [slice, List.length_drop, List.length_take]
    omega
  rw [numberAt, range_some (by omega) hj, Option.bind_some, ← slice, exactly_some hlength]
  rfl

theorem range_slice {buf : List UInt8} {i j : ℕ} (hij : i ≤ j) (hj : j ≤ buf.length) :
    range buf i j = some (slice buf i j) := range_some hij hj

theorem saturatingAdd_le {greatest a b bound : ℕ} (hbound : bound < greatest) :
    saturatingAdd greatest a b ≤ bound ↔ a + b ≤ bound := by
  rw [saturatingAdd]
  omega

theorem takeMessageAt_eq (sj : SerdeJson) (buf : List UInt8) :
    takeMessageAt m sj buf = some (takeMessage sj buf) := by
  rw [takeMessageAt, takeMessage]
  by_cases hshort : buf.length < preludeLen
  · rw [if_pos hshort, if_pos hshort]
    rfl
  · have hprelude : 12 ≤ buf.length := not_lt.mp hshort
    rw [if_neg hshort, if_neg hshort]
    simp only [Option.bind_eq_bind, Option.bind_some, pure,
      numberAt_some (i := 0) (j := 4) rfl (by omega : 4 ≤ buf.length),
      numberAt_some (i := 4) (j := 8) rfl (by omega : 8 ≤ buf.length),
      numberAt_some (i := 8) (j := 12) rfl hprelude,
      range_slice (i := 0) (j := 8) (by omega) (by omega : 8 ≤ buf.length)]
    generalize htotal : fromBeBytes (slice buf 0 4) = total
    generalize hheaders : fromBeBytes (slice buf 4 8) = headersLen
    by_cases hcrc : (crc32Ieee (slice buf 0 8)).toNat ≠ fromBeBytes (slice buf 8 12)
    · rw [if_pos hcrc, if_pos hcrc]
    · rw [if_neg hcrc, if_neg hcrc]
      by_cases hinvalid : total < preludeLen + crcLen ∨ maxEventstreamPending < total
      · rw [if_pos hinvalid, if_pos hinvalid]
      · rw [if_neg hinvalid, if_neg hinvalid]
        by_cases hwait : buf.length < total
        · rw [if_pos hwait, if_pos hwait]
        · have hleast : 16 ≤ total := not_lt.mp fun h => hinvalid (.inl h)
          have hmost : total ≤ maxEventstreamPending := not_lt.mp fun h => hinvalid (.inr h)
          have hall : total ≤ buf.length := not_lt.mp hwait
          have hcrcStart : crcLen ≤ total := le_trans (by decide) hleast
          have hend : total - crcLen + 4 = total := Nat.sub_add_cancel hcrcStart
          rw [if_neg hwait, if_neg hwait, checkedSub_some hcrcStart]
          simp only [Option.bind_some, numberAt_some hend hall,
            range_slice (i := 0) (Nat.zero_le _) ((Nat.sub_le total crcLen).trans hall)]
          by_cases hbody : (crc32Ieee (slice buf 0 (total - crcLen))).toNat ≠
              fromBeBytes (slice buf (total - crcLen) total)
          · rw [if_pos hbody, if_pos hbody]
          · rw [if_neg hbody, if_neg hbody]
            have hbound : total - crcLen < m.usizeMax := by
              have hroom := m.isize_room
              have hfits := m.pending_fits
              omega
            have hblock := saturatingAdd_le (a := preludeLen) (b := headersLen) hbound
            by_cases hover : total - crcLen < preludeLen + headersLen
            · rw [if_pos hover, if_pos (not_le.mp fun h => not_lt.mpr (hblock.mp h) hover)]
            · have hinside : preludeLen + headersLen ≤ total - crcLen := not_lt.mp hover
              have hsum : saturatingAdd m.usizeMax preludeLen headersLen = preludeLen + headersLen := by
                rw [saturatingAdd]
                omega
              rw [hsum, if_neg hover, if_neg hover,
                range_slice (Nat.le_add_right _ _) (hinside.trans ((Nat.sub_le _ _).trans hall))]
              have hslice : (slice buf preludeLen (preludeLen + headersLen)).length ≤ m.isizeMax := by
                have hfits := m.pending_fits
                rw [slice, List.length_drop, List.length_take]
                omega
              simp only [Option.bind_some]
              rw [parseHeadersAt_eq hslice {} (Nat.zero_le _) (by omega), List.drop_zero]
              simp only [Option.bind_some]
              cases parseHeaders {} (slice buf preludeLen (preludeLen + headersLen)) with
              | error e => rfl
              | ok headers =>
                simp only [range_slice hinside ((Nat.sub_le _ _).trans hall), Option.bind_some]
                split <;> rfl

/-- The bytes of a message. -/
def consumed : Take → ℕ
  | .frame _ consumed => consumed
  | .exception _ consumed => consumed

/-- A message that is taken is whole, and its headers are inside it. -/
structure Accepted (buf : List UInt8) (take : Take) : Prop where
  least : preludeLen + crcLen ≤ consumed take
  inside : consumed take ≤ buf.length
  headers : preludeLen + fromBeBytes (slice buf 4 8) + crcLen ≤ consumed take

theorem takeMessage_accepted {sj : SerdeJson} {buf : List UInt8} {take : Take}
    (h : takeMessage sj buf = .ok (some take)) : Accepted buf take := by
  unfold takeMessage at h
  split at h
  · cases h
  · simp only at h
    split at h
    · cases h
    · split at h
      · cases h
      · rename_i hvalid
        have hleast : preludeLen + crcLen ≤ fromBeBytes (slice buf 0 4) :=
          not_lt.mp fun hlt => hvalid (.inl hlt)
        split at h
        · cases h
        · rename_i hall
          split at h
          · cases h
          · split at h
            · cases h
            · rename_i hheaders
              have htotal : consumed take = fromBeBytes (slice buf 0 4) := by
                split at h
                · cases h
                · split at h
                  · rw [← Option.some.inj (Except.ok.inj h)]
                    rfl
                  · rw [← Option.some.inj (Except.ok.inj h)]
                    rfl
              have hcrc : crcLen ≤ fromBeBytes (slice buf 0 4) := le_trans (by decide) hleast
              exact ⟨htotal ▸ hleast, htotal ▸ not_lt.mp hall, by omega⟩

theorem Accepted.shrinks {buf : List UInt8} {take : Take} (h : Accepted buf take) :
    (buf.drop (consumed take)).length < buf.length := by
  have hleast := h.least
  have hinside := h.inside
  have hpos : 0 < preludeLen + crcLen := by decide
  rw [List.length_drop]
  omega

theorem feedMessagesAt_eq (sj : SerdeJson) {buf : List UInt8}
    (hbuf : buf.length ≤ maxEventstreamPending) {fuel cursor : ℕ} (out : List SseFrame)
    (hcursor : cursor ≤ buf.length) (hfuel : buf.length - cursor < fuel) :
    feedMessagesAt m sj fuel out buf cursor = some (feedMessages sj out (buf.drop cursor)) := by
  have hslice := hbuf.trans m.pending_fits
  induction fuel generalizing out cursor with
  | zero => omega
  | succ fuel ih =>
    have hrest : range buf cursor buf.length = some (buf.drop cursor) := by
      rw [range_some hcursor le_rfl, List.take_length]
    rw [feedMessagesAt, hrest]
    simp only [Option.bind_eq_bind, Option.bind_some, takeMessageAt_eq]
    rw [feedMessages]
    have hroom : ∀ take, takeMessage sj (buf.drop cursor) = .ok (some take) →
        0 < consumed take ∧ cursor + consumed take ≤ buf.length ∧
          checkedAdd m.usizeMax cursor (consumed take) = some (cursor + consumed take) := by
      intro take htake
      have haccepted := takeMessage_accepted htake
      have hleast : 16 ≤ consumed take := haccepted.least
      have hinside := haccepted.inside
      have husize := m.isize_room
      rw [List.length_drop] at hinside
      exact ⟨by omega, by omega, checkedAdd_some _ (by omega)⟩
    split
    · rename_i htake
      rw [htake]
      rfl
    · rename_i msg n htake
      obtain ⟨hpos, hinside, hadd⟩ := hroom (.frame msg n) htake
      rw [consumed] at hpos hinside hadd
      rw [htake]
      simp only [hadd, Option.bind_some]
      rw [ih (out ++ [msg.intoRawSse sj]) hinside (by omega), List.drop_drop]
    · rename_i err n htake
      obtain ⟨_, _, hadd⟩ := hroom (.exception err n) htake
      rw [consumed] at hadd
      rw [htake]
      simp only [hadd, Option.bind_some, pure]
    · rename_i err htake
      rw [htake]
      rfl

theorem feedAt_eq (sj : SerdeJson) {fuel : ℕ} (r : EventStreamReader) (bytes : List UInt8)
    (hfuel : r.buffer.length + bytes.length < fuel) :
    feedAt m sj fuel r bytes = some (feed sj r bytes) := by
  have hbound : maxEventstreamPending < m.usizeMax := by
    have hroom := m.isize_room
    have hfits := m.pending_fits
    omega
  have hsum := saturatingAdd_le (a := r.buffer.length) (b := bytes.length) hbound
  rw [feedAt, feed]
  by_cases hover : maxEventstreamPending < r.buffer.length + bytes.length
  · rw [if_pos hover, if_pos (not_le.mp fun h => not_lt.mpr (hsum.mp h) hover)]
  · have hfits := not_lt.mp hover
    rw [if_neg hover, if_neg (not_lt.mpr (hsum.mpr hfits))]
    have hlength : (r.buffer ++ bytes).length = r.buffer.length + bytes.length := List.length_append
    exact feedMessagesAt_eq sj (hlength ▸ hfits) [] (Nat.zero_le _) (by omega)

/-- No read is outside the buffer and no number too large, for any bytes: the
headers of any block, a message at the front of any buffer, the loop of `feed`.
A message that is taken has 16 bytes or more, all of them in the buffer, with
its headers inside, and what is left is shorter. -/
theorem event_stream_parser_safe (m : Machine) (sj : SerdeJson) :
    (∀ block : ByteSlice m, parseHeadersAt m (block.bytes.length + 1) {} block.bytes 0 =
      some (parseHeaders {} block.bytes)) ∧
    (∀ buf, takeMessageAt m sj buf = some (takeMessage sj buf)) ∧
    (∀ buf take, takeMessageAt m sj buf = some (.ok (some take)) →
      16 ≤ consumed take ∧ consumed take ≤ buf.length ∧
        preludeLen + fromBeBytes (slice buf 4 8) + crcLen ≤ consumed take ∧
        (buf.drop (consumed take)).length < buf.length) ∧
    ∀ (r : EventStreamReader) (bytes : List UInt8) (fuel : ℕ),
      r.buffer.length + bytes.length < fuel → feedAt m sj fuel r bytes = some (feed sj r bytes) := by
  refine ⟨?_, takeMessageAt_eq sj, ?_, ?_⟩
  · intro block
    exact parseHeadersAt_eq block.fits {} (Nat.zero_le _) (Nat.lt_succ_self _)
  · intro buf take h
    rw [takeMessageAt_eq] at h
    have haccepted := takeMessage_accepted (Option.some.inj h)
    exact ⟨haccepted.least, haccepted.inside, haccepted.headers, haccepted.shrinks⟩
  · intro r bytes fuel hfuel
    exact feedAt_eq sj r bytes hfuel

end Wiremux.EventStreamOffsets
