import Wiremux.PartialRuns
import Wiremux.SameWire
import Wiremux.StreamDecoding
import Wiremux.StreamEncoderPush
import Wiremux.ToolAssembly

set_option autoImplicit false

/-!
# The mapped stream

Upstream frames are decoded, their calls assembled, and the events encoded for
the client's wire. The stream that the client gets is what the stages make of
the frames before the first error, then that error or the end. The client's
wire is `from` in the source.
-/
namespace Wiremux.StreamMapping
open JsonValue StreamEvents SseReader FrameDecoding StreamDecoding Upstream EncoderState
open StreamEncoderPush ToolAssembly PartialRuns

def showError : MapError → String
  | .json message => "invalid JSON: " ++ message
  | .hardError path detail => "hard-error at " ++ path ++ ": " ++ detail
  | .invalid message => message

structure MappedStream where
  decoder : StreamDecoder := {}
  assembler : ToolCallAssembler := {}
  encoder : StreamEncoder
  sawFrame : Bool := false
  sawTerminal : Bool := false

/-- What the client is sent: a frame of its wire, or the error that ends the stream. -/
inductive Sent where
  | frame (frame : RawSse)
  | error (message : String)

section
variable (sj : SerdeJson) (client target : Wire) (profile : Dialect)

def MappedStream.new (model : String) : MappedStream := { encoder := StreamEncoder.new client model }

/-- One event to the encoder, unless the client's wire has no slot for it. -/
def encodeSlotted (encoder : StreamEncoder) (ev : IrStreamEvent) :
    List RawSse × Except String StreamEncoder :=
  if eventHasSlot client ev then
    match StreamEncoderPush.push sj encoder ev with
    | .ok (frames, encoder) => (frames, .ok encoder)
    | .error err => ([], .error ("encode stream: " ++ showError err))
  else ([], .ok encoder)

def decodeFailure (raw : SseFrame) (err : MapError) : String :=
  if target = .responses ∧ frameEventName sj target raw = "response.failed" then showError err
  else "decode stream: " ++ showError err

def pushFrame (m : MappedStream) (raw : SseFrame) : List RawSse × Except String MappedStream :=
  let m := { m with
    sawFrame := true
    sawTerminal := m.sawTerminal || frameIsTerminal sj target raw }
  match sseWrappedErrorMessage sj raw.data with
  | some msg => ([], .error msg)
  | none =>
    match m.decoder.decode sj target raw profile with
    | (.error err, _) => ([], .error (decodeFailure sj target raw err))
    | (.ok events, decoder) =>
      let assembled := m.assembler.pushAll events
      let sent := runUntil (encodeSlotted sj client) m.encoder assembled.1
      (sent.1, sent.2.map fun encoder => { m with
        decoder := decoder
        assembler := assembled.2
        encoder := encoder })

/-- Encoded frames, then an error from a later frame of the batch. -/
def pushFrames (m : MappedStream) (frames : List SseFrame) :
    List RawSse × Except String MappedStream :=
  runUntil (pushFrame sj client target profile) m frames

def takeAssemblerTail (m : MappedStream) : Except String (List RawSse × MappedStream) :=
  let flushed := m.assembler.flush
  match runUntil (encodeSlotted sj client) m.encoder flushed.1 with
  | (_, .error err) => .error err
  | (out, .ok encoder) => .ok (out, { m with assembler := flushed.2, encoder := encoder })

/-- Without a terminal frame `finish` would still say that the stream is complete. -/
def finishEncoder (m : MappedStream) : Except String (List RawSse) :=
  if m.sawTerminal then .ok (StreamEncoderPush.finish sj m.encoder).1
  else .error SameWire.incompleteStreamMessage

def sendFrames (frames : List RawSse) : List Sent := frames.map .frame

theorem sendFrames_append (fs gs : List RawSse) :
    sendFrames (fs ++ gs) = sendFrames fs ++ sendFrames gs := List.map_append

/-- What is left when no frame is: the held calls and the closing frames. -/
def closeClient (m : MappedStream) : List Sent :=
  match takeAssemblerTail sj client m with
  | .error err => [.error err]
  | .ok (tail, m) =>
    sendFrames tail ++
      match finishEncoder sj m with
      | .error err => [.error err]
      | .ok frames => sendFrames frames

def endMapped (reader : UpstreamFrames) (m : MappedStream) : List Sent :=
  match reader.finish with
  | .error err => [.error err]
  | .ok last =>
    match pushFrames sj client target profile m last.toList with
    | (out, .error err) => sendFrames out ++ [.error err]
    | (out, .ok m) => sendFrames out ++ closeClient sj client m

/-- The loop of `map_sse_stream`; an item is a read, or the text of a transport error. -/
def mapItems (reader : UpstreamFrames) (m : MappedStream) :
    List (Except String (List UInt8)) → List Sent
  | [] => endMapped sj client target profile reader m
  | .error err :: _ => [.error err]
  | .ok bytes :: rest =>
    match reader.feed sj bytes with
    | (.error err, _) => [.error err]
    | (.ok (frames, terminal), reader) =>
      match pushFrames sj client target profile m frames with
      | (out, .error err) => sendFrames out ++ [.error err]
      | (out, .ok m) =>
        sendFrames out ++
          match terminal with
          | some err => [.error err]
          | none => mapItems reader m rest

def mapSseStream (model : String) (items : List (Except String (List UInt8))) : List Sent :=
  mapItems sj client target profile (UpstreamFrames.forWire target)
    (MappedStream.new client model) items

def readItem (reader : UpstreamFrames) (item : Except String (List UInt8)) :
    List SseFrame × Except String UpstreamFrames :=
  match item with
  | .error err => ([], .error err)
  | .ok bytes =>
    match reader.feed sj bytes with
    | (.error err, _) => ([], .error err)
    | (.ok (frames, none), reader) => (frames, .ok reader)
    | (.ok (frames, some err), _) => (frames, .error err)

/-- The frame that the end of the body completes. -/
def readEnd (reader : UpstreamFrames) : List SseFrame × Except String Unit :=
  match reader.finish with
  | .error err => ([], .error err)
  | .ok last => (last.toList, .ok ())

/-- The frames before the first transport or framing error. -/
def readFrames (items : List (Except String (List UInt8))) : List SseFrame × Except String Unit :=
  thenRun (runUntil (readItem sj) (UpstreamFrames.forWire target) items) readEnd

/-- A frame without a vendor error, with its events. -/
def decodeFrame (d : StreamDecoder) (raw : SseFrame) :
    List (SseFrame × List IrStreamEvent) × Except String StreamDecoder :=
  match sseWrappedErrorMessage sj raw.data with
  | some msg => ([], .error msg)
  | none =>
    match d.decode sj target raw profile with
    | (.error err, _) => ([], .error (decodeFailure sj target raw err))
    | (.ok events, d) => ([(raw, events)], .ok d)

/-- The frames before the first vendor or decode error. -/
def decodeFrames (frames : List SseFrame) :
    List (SseFrame × List IrStreamEvent) × Except String StreamDecoder :=
  runUntil (decodeFrame sj target profile) {} frames

def encodeFrame (s : ToolCallAssembler × StreamEncoder) (p : SseFrame × List IrStreamEvent) :
    List RawSse × Except String (ToolCallAssembler × StreamEncoder) :=
  let assembled := s.1.pushAll p.2
  let sent := runUntil (encodeSlotted sj client) s.2 assembled.1
  (sent.1, sent.2.map fun encoder => (assembled.2, encoder))

def assembledEvents (frames : List (SseFrame × List IrStreamEvent)) :
    List IrStreamEvent × ToolCallAssembler :=
  ToolCallAssembler.pushAll {} (frames.flatMap Prod.snd)

def encodeEvents (model : String) (events : List IrStreamEvent) :
    List RawSse × Except String StreamEncoder :=
  runUntil (encodeSlotted sj client) (StreamEncoder.new client model) events

end

variable {sj : SerdeJson} {client target : Wire} {profile : Dialect}

theorem encodeFrames_eq (a : ToolCallAssembler) (encoder : StreamEncoder)
    (frames : List (SseFrame × List IrStreamEvent)) :
    runUntil (encodeFrame sj client) (a, encoder) frames =
      ((runUntil (encodeSlotted sj client) encoder (a.pushAll (frames.flatMap Prod.snd)).1).1,
        (runUntil (encodeSlotted sj client) encoder (a.pushAll (frames.flatMap Prod.snd)).1).2.map
          fun encoder => ((a.pushAll (frames.flatMap Prod.snd)).2, encoder)) := by
  induction frames generalizing a encoder with
  | nil => rfl
  | cons p frames ih =>
    rw [runUntil_cons, List.flatMap_cons, ToolCallAssembler.pushAll_append, runUntil_append]
    simp only [encodeFrame]
    rcases runUntil (encodeSlotted sj client) encoder (a.pushAll p.2).1 with ⟨out, e | next⟩
    · rfl
    · simp only [Except.map, thenRun, ih]

def stages (m : MappedStream) : StreamDecoder × ToolCallAssembler × StreamEncoder :=
  (m.decoder, m.assembler, m.encoder)

theorem pushFrame_stages (m : MappedStream) (raw : SseFrame) :
    pipe (decodeFrame sj target profile) (encodeFrame sj client) (stages m) raw =
      ((pushFrame sj client target profile m raw).1,
        (pushFrame sj client target profile m raw).2.map stages) := by
  unfold pipe decodeFrame pushFrame
  cases sseWrappedErrorMessage sj raw.data with
  | some msg => rfl
  | none =>
    simp only [stages]
    rcases m.decoder.decode sj target raw profile with ⟨e | events, d⟩
    · rfl
    · simp only [runUntil_singleton, encodeFrame]
      rcases runUntil (encodeSlotted sj client) m.encoder (m.assembler.pushAll events).1
        with ⟨out, e | next⟩ <;> rfl

theorem pushFrames_stages (sj : SerdeJson) (client target : Wire) (profile : Dialect)
    (m : MappedStream) (frames : List SseFrame) :
    ((pushFrames sj client target profile m frames).1,
        (pushFrames sj client target profile m frames).2.map stages) =
      runUntil (pipe (decodeFrame sj target profile) (encodeFrame sj client)) (stages m) frames :=
  (runUntil_view stages pushFrame_stages m frames).symm

theorem pushFrames_eq (m : MappedStream) (frames : List SseFrame)
    {decoded : List (SseFrame × List IrStreamEvent) × Except String StreamDecoder}
    {sent : List RawSse × Except String StreamEncoder}
    (hdecoded : runUntil (decodeFrame sj target profile) m.decoder frames = decoded)
    (hsent : runUntil (encodeSlotted sj client) m.encoder
      (m.assembler.pushAll (decoded.1.flatMap Prod.snd)).1 = sent) :
    (pushFrames sj client target profile m frames).1 = sent.1 ∧
      (pushFrames sj client target profile m frames).2.map (fun m => (m.decoder, m.encoder)) =
        both sent.2 decoded.2 ∧
      ∀ next, (pushFrames sj client target profile m frames).2 = .ok next →
        next.assembler = (m.assembler.pushAll (decoded.1.flatMap Prod.snd)).2 := by
  have hrun := runUntil_pipe (decodeFrame sj target profile) (encodeFrame sj client) m.decoder
    (m.assembler, m.encoder) frames
  rw [encodeFrames_eq, hdecoded, hsent] at hrun
  have hstages := (pushFrames_stages sj client target profile m frames).trans hrun
  generalize pushFrames sj client target profile m frames = pushed at hstages ⊢
  generalize (m.assembler.pushAll (decoded.1.flatMap Prod.snd)).2 = assembler at hstages ⊢
  obtain ⟨out, result⟩ := pushed
  obtain ⟨frames', state⟩ := sent
  obtain ⟨pairs, decoder⟩ := decoded
  simp only [Prod.mk.injEq] at hstages ⊢
  refine ⟨hstages.1, ?_⟩
  have hstate := hstages.2
  cases result with
  | error err =>
    constructor
    · cases state with
      | error e => exact congrArg Except.error (Except.error.inj hstate)
      | ok encoder =>
        cases decoder with
        | error e => exact congrArg Except.error (Except.error.inj hstate)
        | ok d => cases hstate
    · intro next hnext
      cases hnext
  | ok next =>
    cases state with
    | error e => cases hstate
    | ok encoder =>
      cases decoder with
      | error e => cases hstate
      | ok d =>
        obtain ⟨hdecoder, hrest⟩ := Prod.mk.inj (Except.ok.inj hstate)
        obtain ⟨hassembler, hencoder⟩ := Prod.mk.inj hrest
        refine ⟨?_, fun later hlater => ?_⟩
        · simp only [Except.map, both, hdecoder, hencoder]
        · exact Except.ok.inj hlater ▸ hassembler

theorem pushFrame_ok {m next : MappedStream} {raw : SseFrame}
    (h : (pushFrame sj client target profile m raw).2 = .ok next) :
    next.sawTerminal = (m.sawTerminal || frameIsTerminal sj target raw) := by
  unfold pushFrame at h
  simp only at h
  split at h
  · cases h
  · split at h
    · cases h
    · obtain ⟨encoder, _, rfl⟩ := EmittingRuns.map_eq_ok h
      rfl

theorem pushFrames_ok {m next : MappedStream} {frames : List SseFrame}
    (h : (pushFrames sj client target profile m frames).2 = .ok next) :
    next.sawTerminal = (m.sawTerminal || frames.any (frameIsTerminal sj target)) := by
  unfold pushFrames at h
  induction frames generalizing m with
  | nil =>
    cases h
    simp
  | cons raw frames ih =>
    rw [runUntil] at h
    rcases hraw : pushFrame sj client target profile m raw with ⟨out, e | later⟩
    · rw [hraw] at h
      cases h
    · rw [hraw] at h
      have hlater := pushFrame_ok (by rw [hraw] : (pushFrame sj client target profile m raw).2 = _)
      rw [ih h, hlater, List.any_cons, Bool.or_assoc]

theorem decodeFrames_ok {d next : StreamDecoder} {frames : List SseFrame}
    (h : (runUntil (decodeFrame sj target profile) d frames).2 = .ok next) :
    (runUntil (decodeFrame sj target profile) d frames).1.map Prod.fst = frames := by
  induction frames generalizing d with
  | nil => rfl
  | cons raw frames ih =>
    rw [runUntil] at h ⊢
    unfold decodeFrame at h ⊢
    cases hwrapped : sseWrappedErrorMessage sj raw.data with
    | some msg =>
      rw [hwrapped] at h
      cases h
    | none =>
      rw [hwrapped] at h
      simp only at h ⊢
      rcases hdecode : d.decode sj target raw profile with ⟨e | events, d'⟩
      · rw [hdecode] at h
        cases h
      · rw [hdecode] at h
        exact congrArg (raw :: ·) (ih h)

theorem mapItems_eq (reader : UpstreamFrames) (m : MappedStream)
    (items : List (Except String (List UInt8))) :
    mapItems sj client target profile reader m items =
      sendFrames (pushFrames sj client target profile m
        (thenRun (runUntil (readItem sj) reader items) readEnd).1).1 ++
      match both (pushFrames sj client target profile m
        (thenRun (runUntil (readItem sj) reader items) readEnd).1).2
        (thenRun (runUntil (readItem sj) reader items) readEnd).2 with
      | .error err => [.error err]
      | .ok (_, m) => closeClient sj client m := by
  induction items generalizing reader m with
  | nil =>
    simp only [mapItems, endMapped, runUntil, thenRun, readEnd, List.nil_append]
    rcases reader.finish with err | last
    · rfl
    · simp only
      rcases pushFrames sj client target profile m last.toList with ⟨out, e | next⟩ <;> rfl
  | cons item items ih =>
    rw [runUntil_cons, thenRun_assoc]
    cases item with
    | error err => rfl
    | ok bytes =>
      simp only [mapItems, readItem]
      rcases reader.feed sj bytes with ⟨err | ⟨frames, _ | err⟩, later⟩
      · rfl
      · simp only [thenRun, pushFrames, runUntil_append, ih]
        rcases runUntil (pushFrame sj client target profile) m frames with ⟨out, e | next⟩
        · rfl
        · simp [sendFrames]
      · simp only [thenRun]
        rcases pushFrames sj client target profile m frames with ⟨out, e | next⟩ <;> rfl

end Wiremux.StreamMapping
