import Wiremux.EventStreamHeaders

set_option autoImplicit false

/-!
# The Event Stream round trip

An encoded message is read back whole exactly when its type fits a header length
and the message fits the reader; many of them, in any chunks, exactly when every
feed also has room for its chunk.
-/
namespace Wiremux.EventStreamRoundTrip
open JsonValue EventStream EventStreamChunking ChunkedReading SseWriting EventStreamWriting
  EventStreamHeaders
open SseReader (SseFrame)

inductive Sent where
  | event (eventType : String) (payload : List UInt8)
  | exception (exceptionType : String) (payload : List UInt8)

def Sent.encode : Sent → List UInt8
  | .event eventType payload => encodeMessage eventType payload
  | .exception exceptionType payload => encodeExceptionMessage exceptionType payload

/-- The text whose length the encoder casts to two bytes. -/
def Sent.name : Sent → String
  | .event eventType _ => eventType
  | .exception exceptionType _ => exceptionType

def Sent.isException : Sent → Bool
  | .event _ _ => false
  | .exception _ _ => true

/-- The bytes of a message: the prelude, the headers, the payload and the last checksum. -/
def Sent.size : Sent → ℕ
  | .event eventType payload => (utf8 eventType.toList).length + payload.length + 86
  | .exception exceptionType payload => (utf8 exceptionType.toList).length + payload.length + 94

theorem stringHeader_length (name value : String) : (stringHeader name value).length =
    (utf8 name.toList).length + (utf8 value.toList).length + 4 := by
  simp only [stringHeader, List.length_append, List.length_cons, toBeBytes_length]
  omega

theorem text_lengths :
    (utf8 ":message-type".toList).length = 13 ∧ (utf8 ":event-type".toList).length = 11 ∧
      (utf8 ":exception-type".toList).length = 15 ∧ (utf8 ":content-type".toList).length = 13 ∧
      (utf8 "event".toList).length = 5 ∧ (utf8 "exception".toList).length = 9 ∧
      (utf8 "application/json".toList).length = 16 ∧ (utf8 "unknown".toList).length = 7 := by
  decide +kernel

theorem encode_length (m : Sent) : m.encode.length = m.size := by
  have hevent := stringHeader_length ":message-type" "event"
  have hexception := stringHeader_length ":message-type" "exception"
  have hcontent := stringHeader_length ":content-type" "application/json"
  have hlengths := text_lengths
  cases m with
  | event eventType payload =>
    have hheader := stringHeader_length ":event-type" eventType
    simp only [Sent.encode, encodeMessage, encodeWithHeaders_length, messageLength,
      List.length_append, preludeLen, crcLen, Sent.size]
    omega
  | exception exceptionType payload =>
    have hheader := stringHeader_length ":exception-type" exceptionType
    simp only [Sent.encode, encodeExceptionMessage, encodeWithHeaders_length, messageLength,
      List.length_append, preludeLen, crcLen, Sent.size]
    omega

/-- What the reader has to find: the type and the payload, in all the bytes. -/
def Sent.taken (sj : SerdeJson) (m : Sent) : Take :=
  match m with
  | .event eventType payload => .frame ⟨some eventType, payload⟩ m.encode.length
  | .exception exceptionType payload =>
    .exception (exceptionError sj exceptionType payload) m.encode.length

/-- The lengths are within the fields they are written to and the limit of the reader. -/
structure Sent.Fits (m : Sent) : Prop where
  name : (utf8 m.name.toList).length ≤ 65535
  length : m.size ≤ maxEventstreamPending

def headers (kind key name : String) : List UInt8 :=
  stringHeader ":message-type" kind ++ stringHeader key name ++
    stringHeader ":content-type" "application/json"

theorem stringHeader_append (name value : String) (rest : List UInt8) :
    stringHeader name value ++ rest = UInt8.ofNat (utf8 name.toList).length ::
      (utf8 name.toList ++ (7 :: (toBeBytes 2 (utf8 value.toList).length ++
        (utf8 value.toList ++ rest)))) := by
  simp [stringHeader]

theorem parseHeaders_cons_error {h : ParsedHeaders} {nameLen : UInt8} {rest : List UInt8}
    {err : String} (hread : readHeader nameLen rest = .error err) :
    parseHeaders h (nameLen :: rest) = .error err := by
  rw [parseHeaders]
  split <;> simp_all

theorem parseHeaders_cons_ok {h : ParsedHeaders} {nameLen : UInt8} {rest after : List UInt8}
    {name value : String} (hread : readHeader nameLen rest = .ok (name, value, after)) :
    parseHeaders h (nameLen :: rest) = parseHeaders (h.set name value) after := by
  rw [parseHeaders]
  split <;> simp_all

theorem parseHeaders_string {h : ParsedHeaders} {name value : String} {rest : List UInt8}
    (hname : (utf8 name.toList).length ≤ 255) (hvalue : Short value) :
    parseHeaders h (stringHeader name value ++ rest) = parseHeaders (h.set name value) rest := by
  have hread := @readHeader_string name value rest hname
  have hmod : (utf8 value.toList).length % 65536 = (utf8 value.toList).length :=
    Nat.mod_eq_of_lt (by unfold Short at hvalue; omega)
  rw [hmod, List.take_left, List.drop_left, fromUtf8_utf8] at hread
  rw [stringHeader_append]
  exact parseHeaders_cons_ok hread

theorem setBy_event : SetBy ":event-type" ParsedHeaders.eventType where
  keyed := fun h value => rfl
  other := fun h name value hname => by
    rw [ParsedHeaders.set, if_neg hname]
    split
    · rfl
    · split <;> rfl

theorem setBy_exception : SetBy ":exception-type" ParsedHeaders.exceptionType where
  keyed := fun h value => rfl
  other := fun h name value hname => by
    unfold ParsedHeaders.set
    split
    · rfl
    · split <;> rfl

theorem parse_fitting {kind key name : String} (hkind : Short kind)
    (hkey : (utf8 key.toList).length ≤ 255) (hname : Short name) :
    parseHeaders {} (headers kind key name) =
      .ok (((ParsedHeaders.set {} ":message-type" kind).set key name).set ":content-type"
        "application/json") := by
  have hempty : ∀ h, parseHeaders h [] = .ok h := fun h => by rw [parseHeaders]
  have hlengths := text_lengths
  have hjson : Short "application/json" := by
    unfold Short
    omega
  have hlast := @parseHeaders_string
    ((ParsedHeaders.set {} ":message-type" kind).set key name) ":content-type" _ [] (by omega) hjson
  rw [List.append_nil, hempty] at hlast
  rw [headers, List.append_assoc, parseHeaders_string (by omega) hkind,
    parseHeaders_string hkey hname, hlast]

theorem contentType_bytes : ∀ b ∈ stringHeader ":content-type" "application/json",
    b.toNat ≠ 11 ∧ b.toNat ≠ 15 := by
  decide +kernel

theorem parse_cut {kind key name : String} {field : ParsedHeaders → Option String}
    (hset : SetBy key field) (hkind : Short kind)
    (hkey : (utf8 key.toList).length = 11 ∨ (utf8 key.toList).length = 15)
    (hlong : 65535 < (utf8 name.toList).length) {parsed : ParsedHeaders}
    (hparse : parseHeaders {} (headers kind key name) = .ok parsed) : field parsed ≠ some name := by
  have hnotShort : ¬ Short name := not_le.mpr hlong
  have hlengths := text_lengths
  rw [headers, List.append_assoc, parseHeaders_string (by omega) hkind,
    stringHeader_append] at hparse
  have hread := @readHeader_string key name (stringHeader ":content-type" "application/json") (by omega)
  generalize htake : (utf8 name.toList ++ stringHeader ":content-type" "application/json").take
    ((utf8 name.toList).length % 65536) = front at hread
  have hfront : front.length ≤ 65535 := by
    rw [← htake, List.length_take]
    omega
  cases htext : fromUtf8 front with
  | none =>
    rw [htext] at hread
    rw [parseHeaders_cons_error hread] at hparse
    cases hparse
  | some text =>
    rw [htext] at hread
    rw [parseHeaders_cons_ok hread] at hparse
    have hshort : Short text := by rwa [Short, utf8_of_fromUtf8 htext]
    have htextNe : text ≠ name := fun heq => hnotShort (heq ▸ hshort)
    have hkeyed := hset.keyed (ParsedHeaders.set {} ":message-type" kind) text
    intro hname
    rcases field_shape hset hparse with hsame | ⟨value, hvalue, hplain | hshort⟩
    · rw [hkeyed, hname] at hsame
      exact htextNe (Option.some.inj hsame).symm
    · rw [hname] at hvalue
      obtain rfl := Option.some.inj hvalue
      -- a plain type has no byte for the length of the field's name
      have hsame := field_absent hset (fun b hb => ?_) hparse
      · rw [hkeyed, hname] at hsame
        exact htextNe (Option.some.inj hsame).symm
      · rcases List.mem_append.mp (List.mem_of_mem_drop hb) with hb | hb
        · have hle := hplain.bytes hb
          omega
        · have hne := contentType_bytes b hb
          omega
    · rw [hname] at hvalue
      obtain rfl := Option.some.inj hvalue
      exact hnotShort hshort

theorem short_event : Short "event" := by
  have hlengths := text_lengths
  unfold Short
  omega

theorem short_exception : Short "exception" := by
  have hlengths := text_lengths
  unfold Short
  omega

theorem encode_event (eventType : String) (payload : List UInt8) :
    (Sent.event eventType payload).encode =
      encodeWithHeaders (headers "event" ":event-type" eventType) payload := rfl

theorem encode_exception (exceptionType : String) (payload : List UInt8) :
    (Sent.exception exceptionType payload).encode =
      encodeWithHeaders (headers "exception" ":exception-type" exceptionType) payload := rfl

theorem takeMessage_fitting (sj : SerdeJson) {m : Sent} (h : m.Fits) (rest : List UInt8) :
    takeMessage sj (m.encode ++ rest) = .ok (some (m.taken sj)) := by
  obtain ⟨hname, hlength⟩ := h
  obtain ⟨_, hevent, hexception, _⟩ := text_lengths
  rw [← encode_length] at hlength
  cases m with
  | event eventType payload =>
    rw [encode_event, encodeWithHeaders_length] at hlength
    rw [encode_event, takeMessage_encode sj _ _ _ hlength,
      @parse_fitting "event" ":event-type" eventType short_event (by omega) hname,
      ← encodeWithHeaders_length]
    rfl
  | exception exceptionType payload =>
    rw [encode_exception, encodeWithHeaders_length] at hlength
    rw [encode_exception, takeMessage_encode sj _ _ _ hlength,
      @parse_fitting "exception" ":exception-type" exceptionType short_exception (by omega) hname,
      ← encodeWithHeaders_length]
    rfl

theorem exceptionError_text (sj : SerdeJson) (payload : List UInt8) : ∃ message, ∀ exceptionType,
    exceptionError sj exceptionType payload =
      "eventstream exception " ++ exceptionType ++ ": " ++ message :=
  ⟨_, fun _ => rfl⟩

theorem exceptionError_injective {sj : SerdeJson} {s t : String} {payload : List UInt8}
    (h : exceptionError sj s payload = exceptionError sj t payload) : s = t := by
  obtain ⟨message, htext⟩ := exceptionError_text sj payload
  have hlist := congrArg String.toList h
  rw [htext, htext] at hlist
  simp only [String.toList_append] at hlist
  exact String.toList_inj.mp (List.append_cancel_left (List.append_cancel_right
    (List.append_cancel_right hlist)))

theorem parsed_of_take {sj : SerdeJson} {headers payload rest : List UInt8} {msg : Take}
    (hlength : messageLength headers payload ≤ maxEventstreamPending)
    (h : takeMessage sj (encodeWithHeaders headers payload ++ rest) = .ok (some msg)) :
    ∃ parsed, parseHeaders {} headers = .ok parsed ∧
      messageOf sj payload (messageLength headers payload) parsed = msg := by
  rw [takeMessage_encode sj _ _ _ hlength] at h
  cases hparse : parseHeaders {} headers with
  | error err =>
    rw [hparse] at h
    cases h
  | ok parsed =>
    rw [hparse] at h
    exact ⟨parsed, rfl, Option.some.inj (Except.ok.inj h)⟩

theorem fits_of_takeMessage {sj : SerdeJson} {m : Sent}
    (h : takeMessage sj m.encode = .ok (some (m.taken sj))) : m.Fits := by
  have hlength : m.encode.length ≤ maxEventstreamPending := by
    cases m <;> exact (takeMessage_le h).1
  obtain ⟨_, hevent, hexception, _, _, _, _, hunknown⟩ := text_lengths
  refine ⟨not_lt.mp fun hlong => ?_, encode_length m ▸ hlength⟩
  rw [← List.append_nil m.encode] at h
  cases m with
  | event eventType payload =>
    rw [encode_event, encodeWithHeaders_length] at hlength
    obtain ⟨parsed, hparse, hmsg⟩ := parsed_of_take hlength h
    have hcut := parse_cut setBy_event short_event (.inl hevent) hlong hparse
    unfold messageOf at hmsg
    split at hmsg
    · cases hmsg
    · exact hcut (EventStreamMessage.mk.inj (Take.frame.inj hmsg).1).1
  | exception exceptionType payload =>
    rw [encode_exception, encodeWithHeaders_length] at hlength
    obtain ⟨parsed, hparse, hmsg⟩ := parsed_of_take hlength h
    have hcut := parse_cut setBy_exception short_exception (.inr hexception) hlong hparse
    unfold messageOf at hmsg
    split at hmsg
    · have htype := exceptionError_injective (Take.exception.inj hmsg).1
      cases hset : parsed.exceptionType with
      | none =>
        rw [hset] at htype
        have hshort : (utf8 "unknown".toList).length ≤ 65535 := by omega
        rw [show "unknown" = exceptionType from htype] at hshort
        exact absurd hlong (not_lt.mpr hshort)
      | some found =>
        rw [hset] at htype
        exact hcut (hset.trans (congrArg some htype))
    · cases hmsg

theorem takeMessage_part (sj : SerdeJson) {m : Sent} (h : m.Fits) {front rest : List UInt8}
    (hfront : front ++ rest = m.encode) (hpart : front.length < m.encode.length) :
    takeMessage sj front = .ok none := by
  by_contra hne
  have hsame := @takeMessage_append sj front rest hne
  have hwhole := takeMessage_fitting sj h []
  rw [List.append_nil] at hwhole
  rw [hfront, hwhole] at hsame
  have hle := (takeMessage_le hsame.symm).2
  have hconsumed : consumed (m.taken sj) = m.encode.length := by cases m <;> rfl
  omega

/-- The frames up to the first exception, and that exception. -/
def expected (sj : SerdeJson) : List Sent → List SseFrame × Option String
  | [] => ([], none)
  | .event eventType payload :: ms =>
    (⟨some eventType, wrapEventPayload sj (some eventType) payload⟩ :: (expected sj ms).1,
      (expected sj ms).2)
  | .exception exceptionType payload :: _ => ([], some (exceptionError sj exceptionType payload))

/-- The messages still to come and how much of the first is there, or `none` once
an exception is. -/
def settle : List Sent → ℕ → Option (List Sent × ℕ)
  | [], n => some ([], n)
  | m :: ms, n =>
    if n < m.size then some (m :: ms, n)
    else if m.isException then none
    else settle ms (n - m.size)

/-- Each chunk has room beside the part of a message before it. -/
def roomy : List Sent → ℕ → List ℕ → Prop
  | _, _, [] => True
  | ms, pending, c :: cs => pending + c ≤ maxEventstreamPending ∧
    ∀ s, settle ms (pending + c) = some s → roomy s.1 s.2 cs

/-- What the first bytes of the messages say. -/
inductive Settled (sj : SerdeJson) (ms : List Sent) (buf more : List UInt8) : Prop where
  | exception (fs : List SseFrame) (err : String) (settled : settle ms buf.length = none)
      (read : messages sj buf = (fs, .error (.exception err)))
      (all : expected sj ms = (fs, some err))
  | waiting (left : List Sent) (fs : List SseFrame) (r : EventStreamReader)
      (settled : settle ms buf.length = some (left, r.buffer.length))
      (read : messages sj buf = (fs, .ok r)) (rest : r.buffer ++ more = left.flatMap Sent.encode)
      (fits : ∀ m ∈ left, m.Fits)
      (all : expected sj ms = (fs ++ (expected sj left).1, (expected sj left).2))

theorem messages_front (sj : SerdeJson) {ms : List Sent} {buf more : List UInt8}
    (hfits : ∀ m ∈ ms, m.Fits) (h : buf ++ more = ms.flatMap Sent.encode) :
    Settled sj ms buf more := by
  induction ms generalizing buf with
  | nil =>
    have hnil : buf = [] := (List.append_eq_nil_iff.mp h).1
    subst hnil
    exact .waiting [] [] {} rfl (messages_of_none rfl) h hfits rfl
  | cons m ms ih =>
    have hm := hfits m List.mem_cons_self
    rw [List.flatMap_cons] at h
    by_cases hpart : buf.length < m.encode.length
    · have hfront : buf ++ m.encode.drop buf.length = m.encode := by
        have htake : m.encode.take buf.length = buf := by
          rw [← @List.take_append_of_le_length _ _ (ms.flatMap Sent.encode) _ hpart.le, ← h,
            List.take_left]
        nth_rewrite 1 [← htake]
        exact List.take_append_drop _ _
      have hnone := takeMessage_part sj hm hfront hpart
      refine .waiting (m :: ms) [] ⟨buf⟩ ?_ (messages_of_none hnone) h hfits rfl
      rw [settle, ← encode_length, if_pos hpart]
    · have hsplit : buf = m.encode ++ buf.drop m.encode.length := by
        have htake : buf.take m.encode.length = m.encode := by
          rw [← @List.take_append_of_le_length _ _ more _ (not_lt.mp hpart), h, List.take_left]
        have hcut := List.take_append_drop m.encode.length buf
        rwa [htake, eq_comm] at hcut
      generalize buf.drop m.encode.length = after at hsplit
      subst hsplit
      have htake := takeMessage_fitting sj hm after
      have hafter : after ++ more = ms.flatMap Sent.encode := by
        rw [List.append_assoc] at h
        exact List.append_cancel_left h
      have hlength : (m.encode ++ after).length - m.encode.length = after.length := by
        rw [List.length_append]
        omega
      cases m with
      | exception exceptionType payload =>
        refine .exception [] _ ?_ (messages_of_exception htake) rfl
        rw [settle, ← encode_length, if_neg hpart, Sent.isException, if_pos rfl]
      | event eventType payload =>
        have hsettle : settle (.event eventType payload :: ms)
            ((Sent.event eventType payload).encode ++ after).length = settle ms after.length := by
          rw [settle, ← encode_length, if_neg hpart, if_neg (by simp [Sent.isException]), hlength]
        have hread := messages_of_frame htake
        rw [List.drop_left] at hread
        let frame : SseFrame := ⟨some eventType, wrapEventPayload sj (some eventType) payload⟩
        rcases ih (fun m' hm' => hfits m' (List.mem_cons_of_mem _ hm')) hafter with
          ⟨fs, err, hnone, hmessages, hall⟩ | ⟨left, fs, r, hsome, hmessages, hrest, hleft, hall⟩
        · refine .exception (frame :: fs) err (hsettle.trans hnone) ?_ ?_
          · rw [hread, hmessages]
            rfl
          · rw [expected, hall]
        · refine .waiting left (frame :: fs) r (hsettle.trans hsome) ?_ hrest hleft ?_
          · rw [hread, hmessages]
            rfl
          · rw [expected, hall]
            rfl

theorem overflow_ne_expected (sj : SerdeJson) (ms : List Sent) :
    expected sj ms ≠
      ([], some s!"eventstream buffer exceeds {maxEventstreamPending} bytes") := by
  intro h
  cases ms with
  | nil => cases h
  | cons m ms =>
    cases m with
    | event eventType payload => cases (Prod.mk.inj h).1
    | exception exceptionType payload =>
      obtain ⟨message, htext⟩ := exceptionError_text sj payload
      have herr : exceptionError sj exceptionType payload =
          "eventstream buffer exceeds " ++ toString maxEventstreamPending ++ " bytes" :=
        Option.some.inj (Prod.mk.inj h).2
      rw [htext] at herr
      have hchar := congrArg (fun text => (text.toList.drop 12).head?) herr
      simp [String.toList_append] at hchar

theorem readAll_expected (sj : SerdeJson) (chunks : List (List UInt8)) {ms : List Sent}
    {r : EventStreamReader} (hfits : ∀ m ∈ ms, m.Fits)
    (hnone : takeMessage sj r.buffer = .ok none)
    (h : r.buffer ++ chunks.flatten = ms.flatMap Sent.encode) :
    readAll sj r chunks = expected sj ms ↔ roomy ms r.buffer.length (chunks.map List.length) := by
  induction chunks generalizing ms r with
  | nil =>
    rw [List.flatten_nil, List.append_nil] at h
    refine iff_of_true ?_ trivial
    cases ms with
    | nil =>
      have hempty : r = {} := congrArg EventStreamReader.mk h
      subst hempty
      rfl
    | cons m ms =>
      rw [List.flatMap_cons] at h
      rw [h, takeMessage_fitting sj (hfits m List.mem_cons_self)] at hnone
      cases hnone
  | cons c cs ih =>
    rw [List.flatten_cons, ← List.append_assoc] at h
    rw [List.map_cons, roomy]
    by_cases hroom : r.buffer.length + c.length ≤ maxEventstreamPending
    · rw [and_iff_right hroom, ← List.length_append]
      have hfeed := @feed_eq sj r c hroom
      rw [dropping, EventStreamChunking.read] at hfeed
      rw [readAll]
      rcases messages_front sj hfits h with
        ⟨fs, err, hsettle, hmessages, hall⟩ | ⟨left, fs, t, hsettle, hmessages, hrest, hleft, hall⟩
      · rw [hmessages] at hfeed
        rw [hsettle, hall]
        refine iff_of_true ?_ (fun _ hs => by cases hs)
        rcases hres : feed sj r c with ⟨e | ⟨frames, _ | e⟩, t⟩
        · rw [hres] at hfeed
          cases (Prod.mk.inj hfeed).2
        · rw [hres] at hfeed
          cases (Prod.mk.inj hfeed).2
        · rw [hres] at hfeed
          obtain ⟨rfl, herr⟩ := Prod.mk.inj hfeed
          cases herr
          rfl
      · rw [hmessages] at hfeed
        have hnext := (messages_rest _ hmessages).1
        have htail := ih hleft hnext hrest
        rcases hres : feed sj r c with ⟨e | ⟨frames, _ | e⟩, t'⟩
        · rw [hres] at hfeed
          cases (Prod.mk.inj hfeed).2
        · rw [hres] at hfeed
          obtain ⟨rfl, hreader⟩ := Prod.mk.inj hfeed
          obtain rfl := Except.ok.inj hreader
          rw [hall, hsettle]
          simp only [Prod.mk.injEq, List.append_cancel_left_eq, Option.some.injEq, forall_eq']
          rw [← htail]
          exact Prod.ext_iff.symm
        · rw [hres] at hfeed
          cases (Prod.mk.inj hfeed).2
    · have hover : readAll sj r (c :: cs) =
          ([], some s!"eventstream buffer exceeds {maxEventstreamPending} bytes") := by
        rw [readAll, feed, if_pos (not_le.mp hroom)]
      rw [hover]
      exact iff_of_false (fun heq => overflow_ne_expected sj ms heq.symm) fun hroomy =>
        hroom hroomy.1

/-- Wrapping the member struct under its event name and taking it out again is
taking it out of the payload itself. -/
theorem unwrap_wrap {sj : SerdeJson} {eventType : String} {payload : List UInt8}
    (hreparse : ∀ fields, fromSlice sj payload = some (.object fields) →
      sj.fromStr (sj.toString (.object [(eventType, .object fields)])) =
        some (.object [(eventType, .object fields)])) :
    unwrapEventPayload sj eventType (wrapEventPayload sj (some eventType) payload) =
      unwrapEventPayload sj eventType (fromUtf8LossyText payload) := by
  unfold wrapEventPayload
  split
  · rfl
  · rename_i name hname
    have hsame : name = eventType :=
      (Option.some.inj (Option.filter_eq_some_iff.mp hname).1).symm
    subst hsame
    split
    · rename_i fields hfields
      split
      · rfl
      · rename_i hkey
        obtain ⟨text, htext, hparse⟩ := Option.bind_eq_some_iff.mp hfields
        have hinner : (Value.object [(name, .object fields)]).get? name = some (.object fields) := by
          simp [Value.get?]
        have hnone : (Value.object fields).get? name = none := by
          simpa using hkey
        rw [fromUtf8LossyText_of_fromUtf8 htext]
        simp only [unwrapEventPayload, hreparse fields hfields, hparse, hinner, hnone]
        rfl
    · rfl

/-- Every message is read back with its type, its payload and its length, and the
reader returns the messages in order, exactly where no length is past its field or
the limit and every chunk has room. -/
theorem eventstream_round_trip (sj : SerdeJson) (ms : List Sent) (chunks : List (List UInt8))
    (hchunks : chunks.flatten = ms.flatMap Sent.encode) :
    ((∀ m ∈ ms, ∀ rest, takeMessage sj (m.encode ++ rest) = .ok (some (m.taken sj))) ∧
        readAll sj {} chunks = expected sj ms ↔
      (∀ m ∈ ms, m.Fits) ∧ roomy ms 0 (chunks.map List.length)) ∧
    ∀ eventType payload, (∀ fields, fromSlice sj payload = some (.object fields) →
        sj.fromStr (sj.toString (.object [(eventType, .object fields)])) =
          some (.object [(eventType, .object fields)])) →
      unwrapEventPayload sj eventType (wrapEventPayload sj (some eventType) payload) =
        unwrapEventPayload sj eventType (fromUtf8LossyText payload) := by
  refine ⟨⟨?_, ?_⟩, fun _ _ => unwrap_wrap⟩
  · rintro ⟨htaken, hread⟩
    have hfits : ∀ m ∈ ms, m.Fits := fun m hm => by
      have hself := htaken m hm []
      rw [List.append_nil] at hself
      exact fits_of_takeMessage hself
    exact ⟨hfits, (@readAll_expected sj chunks ms {} hfits rfl hchunks).mp hread⟩
  · rintro ⟨hfits, hroomy⟩
    exact ⟨fun m hm => takeMessage_fitting sj (hfits m hm),
      (@readAll_expected sj chunks ms {} hfits rfl hchunks).mpr hroomy⟩

/-- An event and an exception, each cut in the middle. -/
theorem eventstream_round_trip_cut :
    readAll flatJson {} [((Sent.event "messageStop" [0x7B, 0x7D]).encode).take 40,
      ((Sent.event "messageStop" [0x7B, 0x7D]).encode).drop 40 ++
        ((Sent.exception "throttlingException" []).encode).take 9,
      ((Sent.exception "throttlingException" []).encode).drop 9] =
    expected flatJson [.event "messageStop" [0x7B, 0x7D], .exception "throttlingException" []] := by
  have hsizes : (Sent.event "messageStop" [0x7B, 0x7D]).size = 99 ∧
      (Sent.exception "throttlingException" []).size = 113 := by decide +kernel
  refine ((eventstream_round_trip flatJson
    [.event "messageStop" [0x7B, 0x7D], .exception "throttlingException" []] _ ?_).1.mpr ⟨?_, ?_⟩).2
  · simp only [List.flatten_cons, List.flatten_nil, List.flatMap_cons, List.flatMap_nil,
      List.append_nil, List.append_assoc, List.take_append_drop]
    rw [← List.append_assoc, List.take_append_drop]
  · intro m hm
    rcases List.mem_pair.mp hm with rfl | rfl
    · exact ⟨by decide +kernel, hsizes.1 ▸ by decide⟩
    · exact ⟨by decide +kernel, hsizes.2 ▸ by decide⟩
  · simp only [List.map_cons, List.map_nil, List.length_append, List.length_take, List.length_drop,
      encode_length, hsizes.1, hsizes.2, roomy, settle, Sent.isException, maxEventstreamPending]
    decide

/-- An event type of 65536 bytes: its length is written as 0. -/
def longType : String := String.ofList (List.replicate 65536 'a')

theorem utf8_replicate (n : ℕ) : (utf8 (List.replicate n 'a')).length = n := by
  induction n with
  | zero => rfl
  | succ n ih =>
    have hone : (String.utf8EncodeChar 'a').length = 1 := by decide
    rw [utf8] at ih
    rw [List.replicate_succ, utf8, List.flatMap_cons, List.length_append, ih, hone, Nat.add_comm]

theorem length_longType : (utf8 longType.toList).length = 65536 := by
  have htext : longType.toList = List.replicate 65536 'a' := String.toList_ofList
  exact htext ▸ utf8_replicate 65536

theorem readAll_cut {sj : SerdeJson} {eventType data : String} {payload : List UInt8}
    (hlong : 65535 < (utf8 eventType.toList).length)
    (hlimit : (Sent.event eventType payload).size ≤ maxEventstreamPending) :
    readAll sj {} [encodeMessage eventType payload] ≠ ([⟨some eventType, data⟩], none) := by
  intro hread
  have hlength : (encodeMessage eventType payload).length ≤ maxEventstreamPending :=
    (encode_length (.event eventType payload)).trans_le hlimit
  have hmessage : messageLength (headers "event" ":event-type" eventType) payload ≤
      maxEventstreamPending := by
    rwa [← encodeWithHeaders_length]
  have htake := takeMessage_encode sj (headers "event" ":event-type" eventType) payload [] hmessage
  rw [List.append_nil, ← encode_event, Sent.encode] at htake
  rw [readAll_eq _ {} (by rwa [List.flatten_singleton, List.length_nil, Nat.zero_add]),
    feedAll_singleton, dropping, EventStreamChunking.read, List.nil_append] at hread
  cases hparse : parseHeaders {} (headers "event" ":event-type" eventType) with
  | error err =>
    rw [hparse] at htake
    rw [messages_of_error htake] at hread
    cases (Prod.mk.inj hread).1
  | ok parsed =>
    have hcut := parse_cut setBy_event short_event (.inl (by decide +kernel)) hlong hparse
    rw [hparse] at htake
    by_cases hkind : parsed.messageType = some "exception"
    · simp only [Except.map, messageOf, if_pos hkind] at htake
      rw [messages_of_exception htake] at hread
      cases (Prod.mk.inj hread).1
    · simp only [Except.map, messageOf, if_neg hkind] at htake
      rw [messages_of_frame htake, ← encodeWithHeaders_length, ← encode_event, Sent.encode,
        List.drop_length, messages_of_none rfl] at hread
      exact hcut (SseFrame.mk.inj (List.cons.inj (Prod.mk.inj hread).1).1).1

theorem long_type_is_not_read_back : ¬ ∀ (sj : SerdeJson) (eventType : String)
    (payload : List UInt8) (chunks : List (List UInt8)),
    chunks.flatten = encodeMessage eventType payload →
      readAll sj {} chunks =
        ([⟨some eventType, wrapEventPayload sj (some eventType) payload⟩], none) := by
  intro hall
  have hread := hall flatJson longType [] [encodeMessage longType []] List.flatten_singleton
  refine readAll_cut ?_ ?_ hread
  · rw [length_longType]
    omega
  · rw [Sent.size, length_longType]
    decide

end Wiremux.EventStreamRoundTrip
