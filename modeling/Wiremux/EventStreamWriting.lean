import Mathlib.Algebra.Order.Group.Nat
import Mathlib.Tactic.Ring
import Wiremux.EventStreamChunking
import Wiremux.SseRoundTrip

set_option autoImplicit false

/-!
# Writing Event Stream messages

A message as `encode_message` writes it, and what `take_message` finds in its
bytes: the headers are parsed again, everything else comes back.
-/
namespace Wiremux.EventStreamWriting
open JsonValue Utf8Lossy EventStream EventStreamChunking SseWriting

def encodeMessage (eventType : String) (payload : List UInt8) : List UInt8 :=
  encodeWithHeaders (stringHeader ":message-type" "event" ++ stringHeader ":event-type" eventType ++
    stringHeader ":content-type" "application/json") payload

/-- The block index of the frames that have one. -/
def ensureBlockIndex (sj : SerdeJson) (eventType : String) (value : Value) : List UInt8 :=
  let value :=
    if ["contentBlockDelta", "contentBlockStart", "contentBlockStop"].contains eventType &&
        (value.get? "contentBlockIndex").isNone && value.isObject then
      value.insert "contentBlockIndex" 0
    else value
  utf8 (sj.toString value).toList

/-- Invert `wrapEventPayload`: the member struct without its event name. -/
def unwrapEventPayload (sj : SerdeJson) (eventType data : String) : List UInt8 :=
  match sj.fromStr data with
  | some (.object fields) =>
    match (Value.object fields).get? eventType with
    | some inner =>
      if fields.length ≠ 1 then utf8 data.toList else ensureBlockIndex sj eventType inner
    | none => ensureBlockIndex sj eventType (.object fields)
  | _ => utf8 data.toList

theorem toBeBytes_length (width n : ℕ) : (toBeBytes width n).length = width := by
  induction width generalizing n with
  | zero => rfl
  | succ width ih => rw [toBeBytes, List.length_append, ih, List.length_singleton]

theorem fromBeBytes_append (bytes : List UInt8) (b : UInt8) :
    fromBeBytes (bytes ++ [b]) = fromBeBytes bytes * 256 + b.toNat := by
  simp [fromBeBytes]

theorem fromBeBytes_toBeBytes (width n : ℕ) :
    fromBeBytes (toBeBytes width n) = n % 256 ^ width := by
  induction width generalizing n with
  | zero => simp [toBeBytes, fromBeBytes, Nat.mod_one]
  | succ width ih =>
    have hbyte : (UInt8.ofNat n).toNat = n % 256 := UInt8.toNat_ofNat'
    have hpow : 256 ^ (width + 1) = 256 * 256 ^ width := by ring
    rw [toBeBytes, fromBeBytes_append, ih, hbyte, hpow, Nat.mod_mul]
    ring

theorem toByteArray_utf8 (text : String) : (utf8 text.toList).toByteArray = text.toByteArray :=
  String.utf8Encode_toList

theorem fromUtf8_utf8 (text : String) : fromUtf8 (utf8 text.toList) = some text := by
  have hvalid : text.toByteArray.IsValidUTF8 := text.isValidUTF8
  rw [fromUtf8, toByteArray_utf8, String.fromUTF8?, dif_pos hvalid]
  rfl

theorem utf8_of_fromUtf8 {bytes : List UInt8} {text : String} (h : fromUtf8 bytes = some text) :
    utf8 text.toList = bytes := by
  unfold fromUtf8 String.fromUTF8? at h
  split at h
  · rename_i hvalid
    obtain rfl := Option.some.inj h
    have harray : (utf8 (String.fromUTF8 bytes.toByteArray hvalid).toList).toByteArray =
        bytes.toByteArray := toByteArray_utf8 _
    have hdata := congrArg ByteArray.data harray
    rw [List.data_toByteArray, List.data_toByteArray] at hdata
    exact congrArg Array.toList hdata
  · cases h

theorem fromUtf8LossyText_of_fromUtf8 {bytes : List UInt8} {text : String}
    (h : fromUtf8 bytes = some text) : fromUtf8LossyText bytes = text := by
  rw [fromUtf8LossyText, ← utf8_of_fromUtf8 h, SseRoundTrip.fromUtf8Lossy_utf8, String.ofList_toList]

theorem slice_mid {xs ys zs : List UInt8} {i j : ℕ} (hi : i = xs.length)
    (hj : j = xs.length + ys.length) : slice (xs ++ (ys ++ zs)) i j = ys := by
  subst hi hj
  rw [slice, List.take_length_add_append, List.take_left, List.drop_left]

theorem slice_start {ys zs : List UInt8} {j : ℕ} (hj : j = ys.length) :
    slice (ys ++ zs) 0 j = ys := by
  subst hj
  rw [slice, List.drop_zero]
  exact List.take_left

def messageLength (headers payload : List UInt8) : ℕ :=
  preludeLen + headers.length + payload.length + crcLen

theorem encodeWithHeaders_length (headers payload : List UInt8) :
    (encodeWithHeaders headers payload).length = messageLength headers payload := by
  unfold encodeWithHeaders messageLength
  simp only [List.length_append, toBeBytes_length, preludeLen, crcLen]

def messageOf (sj : SerdeJson) (payload : List UInt8) (total : ℕ) (headers : ParsedHeaders) : Take :=
  if headers.messageType = some "exception" then
    .exception (exceptionError sj (headers.exceptionType.getD "unknown") payload) total
  else .frame ⟨headers.eventType, payload⟩ total

theorem fromBeBytes_word {n : ℕ} (h : n < 4294967296) : fromBeBytes (toBeBytes 4 n) = n := by
  rw [fromBeBytes_toBeBytes]
  exact Nat.mod_eq_of_lt h

/-- The length, the two checksums, the headers and the payload, read where they stand. -/
structure Laid (headers payload buf : List UInt8) : Prop where
  length : messageLength headers payload ≤ buf.length
  total : fromBeBytes (slice buf 0 4) = messageLength headers payload
  headersLen : fromBeBytes (slice buf 4 8) = headers.length
  prelude : (crc32Ieee (slice buf 0 8)).toNat = fromBeBytes (slice buf 8 12)
  message : (crc32Ieee (slice buf 0 (messageLength headers payload - crcLen))).toNat =
    fromBeBytes (slice buf (messageLength headers payload - crcLen) (messageLength headers payload))
  headersAt : slice buf preludeLen (preludeLen + headers.length) = headers
  payloadAt : slice buf (preludeLen + headers.length) (messageLength headers payload - crcLen) = payload

theorem laid_encode (headers payload rest : List UInt8)
    (hfits : messageLength headers payload ≤ maxEventstreamPending) :
    Laid headers payload (encodeWithHeaders headers payload ++ rest) := by
  have hcap : maxEventstreamPending < 4294967296 := by decide
  have hheaders : headers.length ≤ messageLength headers payload := by
    unfold messageLength
    omega
  have hword : ∀ crc : UInt32, fromBeBytes (toBeBytes 4 crc.toNat) = crc.toNat := fun crc =>
    fromBeBytes_word crc.toNat_lt
  have hlength : messageLength headers payload - crcLen = 12 + headers.length + payload.length := by
    unfold messageLength preludeLen crcLen
    omega
  generalize hlen1 : toBeBytes 4 (messageLength headers payload) = len1
  generalize hlen2 : toBeBytes 4 headers.length = len2
  generalize hcrc1 : toBeBytes 4 (crc32Ieee (len1 ++ len2)).toNat = crc1
  generalize hcrc2 : toBeBytes 4 (crc32Ieee (len1 ++ len2 ++ crc1 ++ headers ++ payload)).toNat = crc2
  have hbuf : encodeWithHeaders headers payload ++ rest =
      len1 ++ (len2 ++ (crc1 ++ (headers ++ (payload ++ (crc2 ++ rest))))) := by
    subst hlen1 hlen2 hcrc1 hcrc2
    simp only [encodeWithHeaders, messageLength, List.append_assoc]
  have h1 : len1.length = 4 := hlen1 ▸ toBeBytes_length 4 _
  have h2 : len2.length = 4 := hlen2 ▸ toBeBytes_length 4 _
  have h3 : crc1.length = 4 := hcrc1 ▸ toBeBytes_length 4 _
  have h4 : crc2.length = 4 := hcrc2 ▸ toBeBytes_length 4 _
  have hprelude : slice (len1 ++ (len2 ++ (crc1 ++ (headers ++ (payload ++ (crc2 ++ rest)))))) 0 8 =
      len1 ++ len2 := by
    rw [← List.append_assoc len1]
    exact slice_start (by simp [h1, h2])
  have hcrcAt : slice (len1 ++ (len2 ++ (crc1 ++ (headers ++ (payload ++ (crc2 ++ rest)))))) 8 12 =
      crc1 := by
    rw [← List.append_assoc len1]
    exact slice_mid (by simp [h1, h2]) (by simp [h1, h2, h3])
  have hflat : len1 ++ (len2 ++ (crc1 ++ (headers ++ (payload ++ (crc2 ++ rest))))) =
      (len1 ++ len2 ++ crc1 ++ headers ++ payload) ++ (crc2 ++ rest) := by
    simp only [List.append_assoc]
  have hbody : (len1 ++ len2 ++ crc1 ++ headers ++ payload).length =
      messageLength headers payload - crcLen := by
    simp only [List.length_append, h1, h2, h3]
    omega
  rw [hbuf]
  refine ⟨?_, ?_, ?_, ?_, ?_, ?_, ?_⟩
  · rw [← hbuf, List.length_append, encodeWithHeaders_length]
    exact Nat.le_add_right _ _
  · rw [slice_start h1.symm, ← hlen1]
    exact fromBeBytes_word (by omega)
  · rw [slice_mid h1.symm (by rw [h1, h2]), ← hlen2]
    exact fromBeBytes_word (by omega)
  · rw [hprelude, hcrcAt, ← hcrc1, hword]
  · rw [hflat, slice_start hbody.symm, slice_mid hbody.symm, ← hcrc2, hword]
    rw [hbody, h4]
    unfold messageLength crcLen
    omega
  · rw [← List.append_assoc len2, ← List.append_assoc len1]
    exact slice_mid (by simp [h1, h2, h3, preludeLen]) (by simp [h1, h2, h3, preludeLen])
  · rw [← List.append_assoc crc1, ← List.append_assoc len2, ← List.append_assoc len1]
    refine slice_mid ?_ ?_
    · simp only [List.length_append, h1, h2, h3, preludeLen]
      omega
    · simp only [List.length_append, h1, h2, h3]
      omega

theorem takeMessage_encode (sj : SerdeJson) (headers payload rest : List UInt8)
    (hfits : messageLength headers payload ≤ maxEventstreamPending) :
    takeMessage sj (encodeWithHeaders headers payload ++ rest) =
      (parseHeaders {} headers).map fun parsed =>
        some (messageOf sj payload (messageLength headers payload) parsed) := by
  obtain ⟨hlength, htotal, hheadersLen, hprelude, hmessage, hheaders, hpayload⟩ :=
    laid_encode headers payload rest hfits
  have hleast : preludeLen + headers.length + crcLen ≤ messageLength headers payload := by
    unfold messageLength
    omega
  have hmin : preludeLen + crcLen ≤ messageLength headers payload := by omega
  generalize encodeWithHeaders headers payload ++ rest = buf at *
  unfold takeMessage
  simp only [htotal, hheadersLen]
  rw [if_neg (by omega), if_neg (not_not.mpr hprelude), if_neg (by omega), if_neg (by omega),
    if_neg (not_not.mpr hmessage), if_neg (by omega), hheaders, hpayload]
  cases parseHeaders {} headers with
  | error e => rfl
  | ok parsed =>
    simp only [Except.map, messageOf]
    split <;> rfl

def consumed : Take → ℕ
  | .frame _ consumed => consumed
  | .exception _ consumed => consumed

theorem takeMessage_le {sj : SerdeJson} {buf : List UInt8} {msg : Take}
    (h : takeMessage sj buf = .ok (some msg)) :
    consumed msg ≤ maxEventstreamPending ∧ consumed msg ≤ buf.length := by
  unfold takeMessage at h
  split at h
  · cases h
  · simp only at h
    split at h
    · cases h
    · split at h
      · cases h
      · rename_i htotal
        have hle : fromBeBytes (slice buf 0 4) ≤ maxEventstreamPending :=
          not_lt.mp fun hlt => htotal (.inr hlt)
        split at h
        · cases h
        · rename_i hall
          split at h
          · cases h
          · split at h
            · cases h
            · split at h
              · cases h
              · split at h
                · rw [← Option.some.inj (Except.ok.inj h)]
                  exact ⟨hle, not_lt.mp hall⟩
                · rw [← Option.some.inj (Except.ok.inj h)]
                  exact ⟨hle, not_lt.mp hall⟩

end Wiremux.EventStreamWriting
