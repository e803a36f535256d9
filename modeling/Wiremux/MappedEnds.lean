import Wiremux.ClosingFrames
import Wiremux.StreamMapping

set_option autoImplicit false

/-!
# The end of a mapped stream

Nothing follows an error, and what the encoder makes of the events before it is
sent before it. The client is told that the answer is complete only when the
frames before the first error say so.
-/
namespace Wiremux.MappedEnds
open JsonValue StreamEvents StreamEventFrames SseReader FrameDecoding StreamDecoding Upstream
open EncoderState StreamEncoderPush TerminalEvents ToolAssembly PartialRuns StreamMapping ClosingFrames

variable {sj : SerdeJson} {client target : Wire} {profile : Dialect}

variable {evs : List IrStreamEvent} {encoder : StreamEncoder}

theorem encodeSlotted_quiet {ev : IrStreamEvent} (h : Quiet client encoder)
    (hend : isEnd ev = false) :
    (∀ f ∈ (encodeSlotted sj client encoder ev).1, closing client f = true →
      copiesClosing sj client ev) ∧
    ∀ t, (encodeSlotted sj client encoder ev).2 = .ok t → Quiet client t := by
  rw [encodeSlotted]
  split
  · rcases hpush : StreamEncoderPush.push sj encoder ev with err | ⟨frames, next⟩
    · simp
    · obtain ⟨hquiet, hclosing⟩ := push_quiet h hend hpush
      refine ⟨hclosing, fun t ht => ?_⟩
      obtain rfl := Except.ok.inj ht
      exact hquiet
  · refine ⟨List.forall_mem_nil _, fun t ht => ?_⟩
    obtain rfl := Except.ok.inj ht
    exact h

theorem encodeRun_quiet (h : Quiet client encoder) (hends : NoEnd evs) :
    (∀ f ∈ (runUntil (encodeSlotted sj client) encoder evs).1, closing client f = true →
      ∃ ev ∈ evs, copiesClosing sj client ev) ∧
    ∀ t, (runUntil (encodeSlotted sj client) encoder evs).2 = .ok t → Quiet client t := by
  refine runUntil_invariant (Quiet client) _ (fun s ev hmem hs => ?_) h
  obtain ⟨hsent, hnext⟩ := encodeSlotted_quiet hs (noEnd_iff.mp hends ev hmem)
  exact ⟨fun f hf hclosing => ⟨ev, hmem, hsent f hf hclosing⟩, hnext⟩

theorem isEnd_part {ev : IrStreamEvent} (h : isFunctionCallPart ev = true) : isEnd ev = false := by
  cases ev <;> first | rfl | cases h

theorem not_copiesClosing_part {ev : IrStreamEvent} (h : isFunctionCallPart ev = true) :
    ¬copiesClosing sj client ev := by
  rintro ⟨hcopied, _⟩
  cases ev <;> first | cases h; done | cases hcopied

theorem noEnd_flush (a : ToolCallAssembler) : NoEnd a.flush.1 :=
  noEnd_iff.mpr fun _ hev => isEnd_part (mem_flush hev)

theorem mapSseStream_cases (model : String) (items : List (Except String (List UInt8)))
    {read : List SseFrame × Except String Unit}
    {decoded : List (SseFrame × List IrStreamEvent) × Except String StreamDecoder}
    {sent : List RawSse × Except String StreamEncoder}
    (hread : readFrames sj target items = read)
    (hdecoded : decodeFrames sj target profile read.1 = decoded)
    (hsent : encodeEvents sj client model (assembledEvents decoded.1).1 = sent) :
    (∃ err, both (both sent.2 decoded.2) read.2 = .error err ∧
      mapSseStream sj client target profile model items = sendFrames sent.1 ++ [.error err]) ∨
    (∃ m, both (both sent.2 decoded.2) read.2 = .ok ((), m.decoder, m.encoder) ∧
      mapSseStream sj client target profile model items =
        sendFrames sent.1 ++ closeClient sj client m ∧
      m.sawTerminal = read.1.any (frameIsTerminal sj target)) := by
  obtain ⟨hframes, hstate, _⟩ := pushFrames_eq (MappedStream.new client model) read.1 hdecoded hsent
  have hmap : mapSseStream sj client target profile model items = _ :=
    mapItems_eq (UpstreamFrames.forWire target) (MappedStream.new client model) items
  rw [show thenRun (runUntil (readItem sj) (UpstreamFrames.forWire target) items) readEnd = read
    from hread, hframes] at hmap
  rw [hmap, ← hstate]
  rcases hpushed : (pushFrames sj client target profile (MappedStream.new client model) read.1).2
    with err | m
  · exact .inl ⟨err, rfl, rfl⟩
  · rcases hend : read.2 with err | ⟨⟩
    · exact .inl ⟨err, rfl, rfl⟩
    · refine .inr ⟨m, rfl, rfl, ?_⟩
      rw [pushFrames_ok hpushed]
      rfl

theorem closeClient_cases (m : MappedStream) :
    (∃ err, closeClient sj client m = [.error err]) ∨
    ∃ encoder, (runUntil (encodeSlotted sj client) m.encoder m.assembler.flush.1).2 = .ok encoder ∧
      let tail := (runUntil (encodeSlotted sj client) m.encoder m.assembler.flush.1).1
      (m.sawTerminal = false ∧
          closeClient sj client m = sendFrames tail ++ [.error SameWire.incompleteStreamMessage]) ∨
        (m.sawTerminal = true ∧ closeClient sj client m =
          sendFrames (tail ++ (StreamEncoderPush.finish sj encoder).1)) := by
  unfold closeClient takeAssemblerTail
  simp only
  rcases runUntil (encodeSlotted sj client) m.encoder m.assembler.flush.1 with ⟨tail, err | encoder⟩
  · exact .inl ⟨err, rfl⟩
  · refine .inr ⟨encoder, rfl, ?_⟩
    cases hsaw : m.sawTerminal with
    | false => exact .inl ⟨rfl, by simp [finishEncoder]⟩
    | true => exact .inr ⟨rfl, by simp [finishEncoder, sendFrames]⟩

/-- The assembled events before the first that the encoder fails on. -/
def encodedEvents (sj : SerdeJson) (client : Wire) (model : String)
    (decoded : List (SseFrame × List IrStreamEvent)) : List IrStreamEvent :=
  beforeError (encodeSlotted sj client) (StreamEncoder.new client model) (assembledEvents decoded).1

/-- An end, or an event that is copied and is one. -/
def Ends (sj : SerdeJson) (client : Wire) (ev : IrStreamEvent) : Prop :=
  isEnd ev = true ∨ copiesClosing sj client ev

/-- The encoder takes an end that is decoded from a frame; it takes all the events of
the frames before that one. -/
def saysComplete (sj : SerdeJson) (client : Wire)
    (decoded : List (SseFrame × List IrStreamEvent)) (taken : List IrStreamEvent) : Prop :=
  ∃ ev ∈ taken, Ends sj client ev ∧ ∃ before p after, decoded = before ++ p :: after ∧
    (assembledEvents before).1 <+: taken ∧ ev ∈ p.2

/-- What a mapped stream sends: frames, then at most one error. `sent` is what
the encoder makes of the events before the first error. -/
structure EndsHonestly (sj : SerdeJson) (client target : Wire)
    (read : List SseFrame × Except String Unit)
    (decoded : List (SseFrame × List IrStreamEvent) × Except String StreamDecoder)
    (sent : List RawSse × Except String StreamEncoder) (taken : List IrStreamEvent)
    (stream : List Sent) (frames : List RawSse) (error : Option String) : Prop where
  shape : stream = sendFrames frames ++ error.toList.map .error
  delivered : sent.1 <+: frames
  failed : ∀ err, both (both sent.2 decoded.2) read.2 = .error err →
    frames = sent.1 ∧ error = some err
  complete : error = none → ∃ p ∈ decoded.1, frameIsTerminal sj target p.1 = true
  closing : ∀ f ∈ frames, closing client f = true →
    error = none ∨ saysComplete sj client decoded.1 taken

theorem isPart_ends {ev : IrStreamEvent} (h : Ends sj client ev) : isFunctionCallPart ev = false := by
  by_contra hpart
  rw [Bool.not_eq_false] at hpart
  rcases h with hend | hcopies
  · rw [isEnd_part hpart] at hend
    cases hend
  · exact not_copiesClosing_part hpart hcopies

/-- An end among the first assembled events is decoded from a frame behind those
whose events are all among them. -/
theorem ends_from_frame {taken : List IrStreamEvent} {ev : IrStreamEvent} (hev : ev ∈ taken)
    (hends : Ends sj client ev) (a : ToolCallAssembler)
    (decoded : List (SseFrame × List IrStreamEvent))
    (htaken : taken <+: (a.pushAll (decoded.flatMap Prod.snd)).1) :
    ∃ before p after, decoded = before ++ p :: after ∧
      (a.pushAll (before.flatMap Prod.snd)).1 <+: taken ∧ ev ∈ p.2 := by
  have hown : ∀ {evs : List IrStreamEvent} {a : ToolCallAssembler}, ev ∈ (a.pushAll evs).1 → ev ∈ evs := by
    intro evs a hmem
    rcases mem_pushAll hmem with hown | hpart
    · exact hown
    · rw [isPart_ends hends] at hpart
      cases hpart
  induction decoded generalizing a taken with
  | nil => cases List.prefix_nil.mp htaken ▸ hev
  | cons p rest ih =>
    rw [List.flatMap_cons, ToolCallAssembler.pushAll_append] at htaken
    have hfirst : ev ∈ (a.pushAll p.2).1 → ∃ before q after, p :: rest = before ++ q :: after ∧
        (a.pushAll (before.flatMap Prod.snd)).1 <+: taken ∧ ev ∈ q.2 :=
      fun hmem => ⟨[], p, rest, rfl, List.nil_prefix, hown hmem⟩
    rcases List.prefix_or_prefix_of_prefix htaken (List.prefix_append _ _) with hshort | ⟨more, rfl⟩
    · exact hfirst (hshort.subset hev)
    · rcases List.mem_append.mp hev with hmem | hmem
      · exact hfirst hmem
      · obtain ⟨before, q, after, rfl, hbefore, hq⟩ :=
          ih hmem (a.pushAll p.2).2 ((List.prefix_append_right_inj _).mp htaken)
        refine ⟨p :: before, q, after, rfl, ?_, hq⟩
        rw [List.flatMap_cons, ToolCallAssembler.pushAll_append]
        exact (List.prefix_append_right_inj _).mpr hbefore

theorem encodeSlotted_silent (encoder : StreamEncoder) (ev : IrStreamEvent) (err : String)
    (h : (encodeSlotted sj client encoder ev).2 = .error err) :
    (encodeSlotted sj client encoder ev).1 = [] := by
  rw [encodeSlotted] at h ⊢
  split
  · rename_i hslot
    rw [if_pos hslot] at h
    rcases hpush : StreamEncoderPush.push sj encoder ev with e | ⟨frames, next⟩
    · rfl
    · rw [hpush] at h
      cases h
  · rfl

/-- Without an end among the events that it takes, the encoder does not close the stream. -/
theorem sent_open {decoded : List (SseFrame × List IrStreamEvent)} {model : String}
    {sent : List RawSse × Except String StreamEncoder}
    (hsent : encodeEvents sj client model (assembledEvents decoded).1 = sent)
    (h : ¬saysComplete sj client decoded (encodedEvents sj client model decoded)) :
    (∀ f ∈ sent.1, closing client f = false) ∧ ∀ t, sent.2 = .ok t → Quiet client t := by
  have hnone : ∀ ev ∈ encodedEvents sj client model decoded, ¬Ends sj client ev :=
    fun ev hev hends => h ⟨ev, hev, hends,
      ends_from_frame hev hends {} decoded (beforeError_starts _ _ _)⟩
  have hends : NoEnd (encodedEvents sj client model decoded) :=
    noEnd_iff.mpr fun ev hev => Bool.not_eq_true _ ▸ fun hend => hnone ev hev (.inl hend)
  obtain ⟨hframes, hquiet⟩ := @encodeRun_quiet sj client _ _ (Quiet.new client model) hends
  obtain ⟨last, hlast⟩ := runUntil_beforeError (encodeSlotted sj client) encodeSlotted_silent
    (StreamEncoder.new client model) (assembledEvents decoded).1
  subst hsent
  refine ⟨fun f hf => ?_, fun t ht => ?_⟩
  · by_contra hclosing
    have hmem : f ∈ (runUntil (encodeSlotted sj client) (StreamEncoder.new client model)
        (encodedEvents sj client model decoded)).1 := by
      rw [encodedEvents, hlast]
      exact hf
    obtain ⟨ev, hev, hcopies⟩ := hframes f hmem (Bool.not_eq_false _ ▸ hclosing)
    exact hnone ev hev (.inr hcopies)
  · refine hquiet t ?_
    rw [encodedEvents, beforeError_ok ht]
    exact ht

theorem tail_open (h : Quiet client encoder) (a : ToolCallAssembler) :
    ∀ f ∈ (runUntil (encodeSlotted sj client) encoder a.flush.1).1, closing client f = false := by
  intro f hf
  by_contra hclosing
  obtain ⟨ev, hev, hcopies⟩ := (encodeRun_quiet h (noEnd_flush a)).1 f hf
    (Bool.not_eq_false _ ▸ hclosing)
  exact not_copiesClosing_part (mem_flush hev) hcopies

theorem closes_only_said {frames : List RawSse} {said : Prop} (error : Option String)
    (h : ¬said → ∀ f ∈ frames, closing client f = false) :
    ∀ f ∈ frames, closing client f = true → error = none ∨ said := by
  intro f hf hclosing
  refine .inr (by_contra fun hnot => ?_)
  rw [h hnot f hf] at hclosing
  cases hclosing

theorem terminal_decoded {profile : Dialect} {frames : List SseFrame} {decoder : StreamDecoder}
    (hdecoded : (decodeFrames sj target profile frames).2 = .ok decoder)
    (h : frames.any (frameIsTerminal sj target) = true) :
    ∃ p ∈ (decodeFrames sj target profile frames).1, frameIsTerminal sj target p.1 = true := by
  obtain ⟨raw, hraw, hframe⟩ := List.any_eq_true.mp h
  rw [← decodeFrames_ok hdecoded] at hraw
  obtain ⟨p, hp, rfl⟩ := List.mem_map.mp hraw
  exact ⟨p, hp, hframe⟩

/-- The mapped stream sends all that the encoder makes of the events before the
first error, and nothing after it. It closes the answer only when the frames
before that error do, or when there is none. -/
theorem mapped_stream_ends_honestly (sj : SerdeJson) (client target : Wire) (profile : Dialect)
    (model : String) (items : List (Except String (List UInt8))) :
    let read := readFrames sj target items
    let decoded := decodeFrames sj target profile read.1
    let sent := encodeEvents sj client model (assembledEvents decoded.1).1
    let taken := encodedEvents sj client model decoded.1
    ∃ frames error, EndsHonestly sj client target read decoded sent taken
      (mapSseStream sj client target profile model items) frames error := by
  intro read decoded sent taken
  have hopen : ¬saysComplete sj client decoded.1 taken →
      (∀ f ∈ sent.1, ClosingFrames.closing client f = false) ∧
        ∀ t, sent.2 = .ok t → Quiet client t := sent_open rfl
  have hclosed := fun error => closes_only_said error fun hnot => (hopen hnot).1
  rcases mapSseStream_cases model items rfl rfl rfl with ⟨err, hfail, hstream⟩ | ⟨m, hok, hstream, hsaw⟩
  · refine ⟨sent.1, some err, hstream, List.prefix_rfl, fun err' hfail' => ⟨rfl, ?_⟩, nofun, hclosed _⟩
    exact congrArg some (Except.error.inj (hfail.symm.trans hfail'))
  · obtain ⟨hstages, _⟩ := both_ok hok
    obtain ⟨hsent, hdecoded⟩ := both_ok hstages
    have hnofail : ∀ err, both (both sent.2 decoded.2) read.2 ≠ .error err := by
      intro err hfail
      rw [hok] at hfail
      cases hfail
    rcases closeClient_cases m with ⟨err, hclose⟩ | ⟨encoder, _, htail⟩
    · refine ⟨sent.1, some err, ?_, List.prefix_rfl, fun err hfail => absurd hfail (hnofail err), nofun, hclosed _⟩
      rw [hstream, hclose]
      rfl
    · rcases htail with ⟨_, hclose⟩ | ⟨hterminal, hclose⟩
      · refine ⟨sent.1 ++ (runUntil (encodeSlotted sj client) m.encoder m.assembler.flush.1).1,
          some SameWire.incompleteStreamMessage, ?_, List.prefix_append _ _,
          fun err hfail => absurd hfail (hnofail err), nofun, List.forall_mem_append.mpr ⟨hclosed _,
            closes_only_said _ fun hnot => tail_open ((hopen hnot).2 m.encoder hsent) m.assembler⟩⟩
        rw [hstream, hclose, sendFrames_append, List.append_assoc]
        rfl
      · have hframe := terminal_decoded hdecoded (hsaw.symm.trans hterminal)
        refine ⟨sent.1 ++ ((runUntil (encodeSlotted sj client) m.encoder m.assembler.flush.1).1 ++
            (StreamEncoderPush.finish sj encoder).1), none, ?_, List.prefix_append _ _,
          fun err hfail => absurd hfail (hnofail err), fun _ => hframe, fun _ _ _ => .inl rfl⟩
        rw [hstream, hclose, sendFrames_append sent.1, Option.toList_none, List.map_nil,
          List.append_nil]

def callValue : Value := .object [("type", "content_block_start"),
  ("content_block", .object [("type", "tool_use"), ("id", "t"), ("name", "f")])]

def callJson : SerdeJson where
  fromStr text := if text = "x" then some callValue else none
  toString _ := "{}"

def callChunk : List UInt8 := [0x64, 0x61, 0x74, 0x61, 0x3A, 0x78, SseReader.newline, SseReader.newline]

def callDialect : Dialect := ⟨["content_block_start"], .hardError⟩

def callItems : List (Except String (List UInt8)) := [.ok callChunk, .error "connection reset"]

theorem readFrames_callItems : readFrames callJson .messages callItems =
    ([⟨none, "x"⟩], .error "connection reset") := rfl

theorem decodeFrames_call : (decodeFrames callJson .messages callDialect [⟨none, "x"⟩]).1 =
    [(⟨none, "x"⟩, [.toolCallStart "t" "f" none 0])] := by
  rfl

theorem mapSseStream_callItems : mapSseStream callJson .gemini .messages callDialect "" callItems =
    [.error "connection reset"] := by
  rfl

/-- A Gemini stream holds a call until it is whole, so an error comes alone. -/
theorem held_call_is_dropped : ¬ ∀ (sj : SerdeJson) (client target : Wire) (profile : Dialect)
    (model : String) (items : List (Except String (List UInt8))), client ≠ target →
    (∃ p ∈ (decodeFrames sj target profile (readFrames sj target items).1).1,
      ∃ ev ∈ p.2, isFunctionCallPart ev = true) →
    ∃ frame, Sent.frame frame ∈ mapSseStream sj client target profile model items := by
  intro hall
  have hcall : ∃ p ∈ (decodeFrames callJson .messages callDialect
      (readFrames callJson .messages callItems).1).1, ∃ ev ∈ p.2, isFunctionCallPart ev = true := by
    rw [readFrames_callItems, decodeFrames_call]
    exact ⟨_, List.mem_singleton_self _, _, List.mem_singleton_self _, rfl⟩
  obtain ⟨frame, hframe⟩ := hall callJson .gemini .messages callDialect "" callItems (by decide) hcall
  rw [mapSseStream_callItems] at hframe
  cases List.mem_singleton.mp hframe

end Wiremux.MappedEnds
