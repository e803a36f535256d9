import Wiremux.GateSteps

set_option autoImplicit false

/-!
# How the gate ends a stream

A clean end needs a terminal frame, a vendor error or an exception from
upstream, and nothing that is sent after a vendor error is a `[DONE]`.
-/
namespace Wiremux.GateEnds
open JsonValue StreamEvents Upstream SseWriting SameWire GateSteps EmittingRuns
open SseReader (SseFrame)

variable (sj : SerdeJson) (checks : BodyChecks) (wire : Wire)

def chunkFrames (r : UpstreamFrames) (c : List UInt8) : List SseFrame :=
  match (r.feed sj c).1 with
  | .ok (frames, _) => frames
  | .error _ => []

def chunkException (r : UpstreamFrames) (c : List UInt8) : Bool :=
  match (r.feed sj c).1 with
  | .ok (_, exception) => exception.isSome
  | .error _ => false

def readerAfter (r : UpstreamFrames) (chunks : List (List UInt8)) : UpstreamFrames :=
  chunks.foldl (fun r c => (r.feed sj c).2) r

/-- The frames the reader completes over the chunks. -/
def framesRead : UpstreamFrames → List (List UInt8) → List SseFrame
  | _, [] => []
  | r, c :: cs => chunkFrames sj r c ++ framesRead (r.feed sj c).2 cs

def exceptionRead : UpstreamFrames → List (List UInt8) → Bool
  | _, [] => false
  | r, c :: cs => chunkException sj r c || exceptionRead (r.feed sj c).2 cs

/-- All frames of the upstream, with the one its end completes. -/
def upstreamFrames (chunks : List (List UInt8)) : List SseFrame :=
  framesRead sj (.forWire wire) chunks ++
    match (readerAfter sj (.forWire wire) chunks).finish with
    | .ok (some raw) => [raw]
    | _ => []

theorem readerAfter_snoc (r : UpstreamFrames) (cs : List (List UInt8)) (c : List UInt8) :
    readerAfter sj r (cs ++ [c]) = ((readerAfter sj r cs).feed sj c).2 := by
  rw [readerAfter, List.foldl_append]
  rfl

theorem framesRead_append (r : UpstreamFrames) (xs ys : List (List UInt8)) :
    framesRead sj r (xs ++ ys) = framesRead sj r xs ++ framesRead sj (readerAfter sj r xs) ys := by
  induction xs generalizing r with
  | nil => rfl
  | cons c cs ih =>
    rw [List.cons_append, framesRead, framesRead, ih, List.append_assoc]
    rfl

theorem exceptionRead_append (r : UpstreamFrames) (xs ys : List (List UInt8)) :
    exceptionRead sj r (xs ++ ys) =
      (exceptionRead sj r xs || exceptionRead sj (readerAfter sj r xs) ys) := by
  induction xs generalizing r with
  | nil => rfl
  | cons c cs ih =>
    rw [List.cons_append, exceptionRead, exceptionRead, ih, Bool.or_assoc]
    rfl

theorem framesRead_snoc (r : UpstreamFrames) (cs : List (List UInt8)) (c : List UInt8) :
    framesRead sj r (cs ++ [c]) = framesRead sj r cs ++ chunkFrames sj (readerAfter sj r cs) c := by
  rw [framesRead_append, framesRead, framesRead, List.append_nil]

theorem exceptionRead_snoc (r : UpstreamFrames) (cs : List (List UInt8)) (c : List UInt8) :
    exceptionRead sj r (cs ++ [c]) =
      (exceptionRead sj r cs || chunkException sj (readerAfter sj r cs) c) := by
  rw [exceptionRead_append, exceptionRead, exceptionRead, Bool.or_false]

def gateStep (g : SameWireGate) (bytes : List UInt8) :
    Except String (List SameWirePush × SameWireGate) :=
  match push sj checks wire g bytes with
  | (.ok p, t) => .ok ([p], t)
  | (.error e, _) => .error e

/-- The pushes of the chunks, up to the first error. -/
def runGate (chunks : List (List UInt8)) : Except String (List SameWirePush × SameWireGate) :=
  runAll (gateStep sj checks wire) (SameWireGate.new wire) chunks

/-- A vendor error, or a failed Responses frame. -/
def isVendorError (raw : SseFrame) : Bool :=
  isWrappedError sj raw || (responsesFailedVendorError sj checks wire raw).isSome

/-- A failed frame came in these chunks. -/
def FailedRead (chunks : List (List UInt8)) : Prop :=
  ∃ raw ∈ framesRead sj (.forWire wire) chunks,
    (responsesFailedVendorError sj checks wire raw).isSome = true

/-- What the flags of the gate say of the chunks read. -/
structure Watched (chunks : List (List UInt8)) (g : SameWireGate) : Prop where
  reader : g.dropRest = false → g.reader = readerAfter sj (.forWire wire) chunks
  ended : g.sawTerminal = true →
    (∃ raw ∈ framesRead sj (.forWire wire) chunks, endsStream sj wire raw = true) ∨
      exceptionRead sj (.forWire wire) chunks = true
  unframed : g.sawFrame = false → framesRead sj (.forWire wire) chunks = []
  vendor : g.sawVendorError = true → g.sawFrame = true ∧ g.held = []
  seen : exceptionRead sj (.forWire wire) chunks = false →
    (∃ raw ∈ framesRead sj (.forWire wire) chunks, isVendorError sj checks wire raw = true) →
      g.sawVendorError = true
  failed : FailedRead sj checks wire chunks ↔ g.dropRest = true
  dropped : g.dropRest = true → g.sawVendorError = true ∧ g.sawTerminal = true

theorem watched_new : Watched sj checks wire [] (SameWireGate.new wire) where
  reader := fun _ => rfl
  ended := fun h => by cases h
  unframed := fun _ => rfl
  vendor := fun h => by cases h
  seen := fun _ h => by obtain ⟨_, hmem, _⟩ := h; cases hmem
  failed := by
    refine iff_of_false ?_ Bool.false_ne_true
    rintro ⟨_, hmem, _⟩
    cases hmem
  dropped := fun h => by cases h

variable {sj checks wire} {chunks : List (List UInt8)} {g t : SameWireGate} {c : List UInt8}
  {p : SameWirePush} {frames before : List SseFrame} {msg : String}

theorem splitFailed_some (h : splitFailed sj checks wire frames = some (before, msg)) :
    ∃ raw rest, frames = before ++ raw :: rest ∧
      responsesFailedVendorError sj checks wire raw = some msg := by
  induction frames generalizing before with
  | nil => cases h
  | cons raw rest ih =>
    unfold splitFailed at h
    split at h
    · rename_i found hfound
      obtain ⟨rfl, rfl⟩ := Prod.mk.inj (Option.some.inj h)
      exact ⟨raw, rest, rfl, hfound⟩
    · obtain ⟨⟨kept, err⟩, hrest, heq⟩ := Option.map_eq_some_iff.mp h
      obtain ⟨rfl, rfl⟩ := Prod.mk.inj heq
      obtain ⟨failed, after, rfl, hfailed⟩ := ih hrest
      exact ⟨failed, after, rfl, hfailed⟩

theorem splitFailed_none (h : splitFailed sj checks wire frames = none) :
    ∀ raw ∈ frames, responsesFailedVendorError sj checks wire raw = none := by
  induction frames with
  | nil => simp
  | cons raw rest ih =>
    unfold splitFailed at h
    split at h
    · cases h
    · rename_i hnone
      have hrest := ih (Option.map_eq_none_iff.mp h)
      simpa using ⟨hnone, hrest⟩

theorem failed_endsStream {raw : SseFrame}
    (h : responsesFailedVendorError sj checks wire raw = some msg) :
    endsStream sj wire raw = true := by
  unfold responsesFailedVendorError at h
  split at h
  · rename_i hname
    obtain ⟨rfl, hname⟩ := hname
    simp [endsStream, frameIsTerminal, responsesFrameIsTerminal, hname]
  · cases h

/-- A step that reads the chunk: what changes is in the frames of the chunk. -/
theorem Watched.read {exception : Option String} {reader : UpstreamFrames}
    (hw : Watched sj checks wire chunks g) (hdrop : g.dropRest = false)
    (hfeed : g.reader.feed sj c = (.ok (frames, exception), reader))
    (hreader : t.reader = reader)
    (hended : t.sawTerminal = true → g.sawTerminal = true ∨
      (∃ raw ∈ frames, endsStream sj wire raw = true) ∨ exception.isSome = true)
    (hunframed : t.sawFrame = false → g.sawFrame = false ∧ frames = [])
    (hvendor : t.sawVendorError = true → t.sawFrame = true ∧ t.held = [])
    (hseen : g.sawVendorError = true ∨ exception = none ∧
      (∃ raw ∈ frames, isVendorError sj checks wire raw = true) → t.sawVendorError = true)
    (hfailed : (∃ raw ∈ frames, (responsesFailedVendorError sj checks wire raw).isSome = true) ↔
      t.dropRest = true)
    (hdropped : t.dropRest = true → t.sawVendorError = true ∧ t.sawTerminal = true) :
    Watched sj checks wire (chunks ++ [c]) t := by
  have hframes : chunkFrames sj (readerAfter sj (.forWire wire) chunks) c = frames := by
    rw [chunkFrames, ← hw.reader hdrop, hfeed]
  have hexception : chunkException sj (readerAfter sj (.forWire wire) chunks) c =
      exception.isSome := by
    rw [chunkException, ← hw.reader hdrop, hfeed]
  constructor
  · intro _
    rw [hreader, readerAfter_snoc, ← hw.reader hdrop, hfeed]
  · intro ht
    rw [framesRead_snoc, exceptionRead_snoc, hframes, hexception, Bool.or_eq_true]
    rcases hended ht with h | ⟨raw, hmem, hraw⟩ | h
    · rcases hw.ended h with ⟨raw, hmem, hraw⟩ | h
      · exact .inl ⟨raw, List.mem_append_left _ hmem, hraw⟩
      · exact .inr (.inl h)
    · exact .inl ⟨raw, List.mem_append_right _ hmem, hraw⟩
    · exact .inr (.inr h)
  · intro ht
    obtain ⟨hg, hnil⟩ := hunframed ht
    rw [framesRead_snoc, hframes, hw.unframed hg, hnil]
    rfl
  · exact hvendor
  · intro hplain hmem
    rw [exceptionRead_snoc, hexception, Bool.or_eq_false_iff] at hplain
    rw [framesRead_snoc, hframes] at hmem
    obtain ⟨raw, hmem, hraw⟩ := hmem
    rcases List.mem_append.mp hmem with hbefore | hnow
    · exact hseen (.inl (hw.seen hplain.1 ⟨raw, hbefore, hraw⟩))
    · exact hseen (.inr ⟨by simpa using hplain.2, raw, hnow, hraw⟩)
  · rw [FailedRead, framesRead_snoc, hframes, ← hfailed]
    constructor
    · rintro ⟨raw, hmem, hraw⟩
      rcases List.mem_append.mp hmem with hbefore | hnow
      · have hg := hw.failed.mp ⟨raw, hbefore, hraw⟩
        rw [hdrop] at hg
        cases hg
      · exact ⟨raw, hnow, hraw⟩
    · rintro ⟨raw, hmem, hraw⟩
      exact ⟨raw, List.mem_append_right _ hmem, hraw⟩
  · exact hdropped

theorem no_vendorError (hfailed : splitFailed sj checks wire frames = none)
    (hplain : frames.any (isWrappedError sj) = false) :
    ¬ ∃ raw ∈ frames, isVendorError sj checks wire raw = true := by
  rintro ⟨raw, hmem, hraw⟩
  have hnone := splitFailed_none hfailed raw hmem
  have hunwrapped : isWrappedError sj raw = false := by
    simpa using List.any_eq_false.mp hplain raw hmem
  simp [isVendorError, hnone, hunwrapped] at hraw

theorem no_failed (hfailed : splitFailed sj checks wire frames = none) {dropRest : Bool}
    (hdrop : dropRest = false) :
    (∃ raw ∈ frames, (responsesFailedVendorError sj checks wire raw).isSome = true) ↔
      dropRest = true := by
  refine iff_of_false ?_ (by simp [hdrop])
  rintro ⟨raw, hmem, hraw⟩
  rw [splitFailed_none hfailed raw hmem] at hraw
  cases hraw

/-- Without a complete frame only the held bytes change, and not after a vendor error. -/
theorem pushPartial_eq (g : SameWireGate) (bytes : List UInt8) :
    ∃ held, (pushPartial wire g bytes).2 = { g with held } ∧
      (g.sawFrame = true → g.sawVendorError = true →
        (pushPartial wire g bytes).1 = .hold ∧ held = g.held) := by
  unfold pushPartial
  split
  · rename_i hframe
    exact ⟨_, rfl, fun h => by simp [h] at hframe⟩
  · split
    · exact ⟨g.held, rfl, fun _ _ => ⟨rfl, rfl⟩⟩
    · rename_i hvendor
      split
      · exact ⟨_, rfl, fun _ h => absurd h hvendor⟩
      · exact ⟨g.held, rfl, fun _ h => absurd h hvendor⟩

theorem mem_keptFrames {raw : SseFrame} (h : raw ∈ keptFrames frames) :
    raw ∈ frames ∧ sseDoneFrame raw = false := by
  simpa [keptFrames] using h

theorem notedAll_ended {kept : List SseFrame} {r : SameWireGate}
    (hsub : ∀ raw ∈ kept, raw ∈ frames) (h : (notedAll sj wire r kept).sawTerminal = true) :
    r.sawTerminal = true ∨ ∃ raw ∈ frames, endsStream sj wire raw = true := by
  rcases Bool.or_eq_true_iff.mp h with h | h
  · exact .inl h
  · obtain ⟨raw, hmem, hraw⟩ := List.any_eq_true.mp h
    exact .inr ⟨raw, hsub raw hmem, hraw⟩

/-- Once the rest is dropped, a chunk changes nothing. -/
theorem Watched.dropped_step (hw : Watched sj checks wire chunks g) (h : g.dropRest = true) :
    Watched sj checks wire (chunks ++ [c]) g := by
  have hvendor := (hw.dropped h).1
  have hframe := (hw.vendor hvendor).1
  refine ⟨fun hd => ?_, fun ht => ?_, fun hf => ?_, hw.vendor, fun _ _ => hvendor,
    ⟨fun _ => h, fun _ => ?_⟩, hw.dropped⟩
  · rw [h] at hd
    cases hd
  · rw [framesRead_snoc, exceptionRead_snoc]
    rcases hw.ended ht with ⟨raw, hmem, hraw⟩ | hexception
    · exact .inl ⟨raw, List.mem_append_left _ hmem, hraw⟩
    · exact .inr (by rw [hexception, Bool.true_or])
  · rw [hframe] at hf
    cases hf
  · obtain ⟨raw, hmem, hraw⟩ := hw.failed.mpr h
    rw [FailedRead, framesRead_snoc]
    exact ⟨raw, List.mem_append_left _ hmem, hraw⟩

/-- A chunk that cannot be read, before the first frame, is held whole. -/
theorem Watched.unread_step {err : String} {reader : UpstreamFrames} {held : List UInt8}
    (hw : Watched sj checks wire chunks g) (hdrop : g.dropRest = false) (hframe : g.sawFrame = false)
    (hfeed : g.reader.feed sj c = (.error err, reader)) :
    Watched sj checks wire (chunks ++ [c]) { g with reader, held } := by
  have hframes : chunkFrames sj (readerAfter sj (.forWire wire) chunks) c = [] := by
    rw [chunkFrames, ← hw.reader hdrop, hfeed]
  have hexception : chunkException sj (readerAfter sj (.forWire wire) chunks) c = false := by
    rw [chunkException, ← hw.reader hdrop, hfeed]
  refine ⟨fun _ => ?_, fun ht => ?_, fun hf => ?_, fun hv => ?_, fun he hm => ?_, ?_, hw.dropped⟩
  · rw [readerAfter_snoc, ← hw.reader hdrop, hfeed]
  · rw [framesRead_snoc, exceptionRead_snoc, hframes, hexception, List.append_nil, Bool.or_false]
    exact hw.ended ht
  · rw [framesRead_snoc, hframes, List.append_nil]
    exact hw.unframed hf
  · have hseen := (hw.vendor hv).1
    rw [hframe] at hseen
    cases hseen
  · rw [exceptionRead_snoc, hexception, Bool.or_false] at he
    rw [framesRead_snoc, hframes, List.append_nil] at hm
    exact hw.seen he hm
  · rw [FailedRead, framesRead_snoc, hframes, List.append_nil]
    exact hw.failed

/-- Without a vendor error so far, there is none in a plain chunk. -/
theorem vendor_of_plain {exception : Option String} {seen : Prop}
    (hfailed : splitFailed sj checks wire frames = none) (hplain : frames.any (isWrappedError sj) = false)
    (hvendor : g.sawVendorError = false)
    (h : g.sawVendorError = true ∨ exception = none ∧
      ∃ raw ∈ frames, isVendorError sj checks wire raw = true) : seen := by
  rcases h with h | ⟨_, h⟩
  · rw [h] at hvendor
    cases hvendor
  · exact absurd h (no_vendorError hfailed hplain)

theorem watched_step (hw : Watched sj checks wire chunks g)
    (hstep : PushStep sj checks wire g c p t) : Watched sj checks wire (chunks ++ [c]) t := by
  have hkept : ∀ {seen : Prop}, g.dropRest = false → g.dropRest = true → seen :=
    fun hdrop h => absurd h (Bool.eq_false_iff.mp hdrop)
  cases hstep with
  | dropped h => exact hw.dropped_step h
  | unread hdrop hframe hfeed => exact hw.unread_step hdrop hframe hfeed
  | @failed hdrop frames before msg exception reader hfeed hfailed =>
    obtain ⟨raw, rest, rfl, hraw⟩ := splitFailed_some hfailed
    exact hw.read hdrop hfeed rfl
      (fun _ => .inr (.inl ⟨raw, by simp, failed_endsStream hraw⟩)) (fun h => by cases h)
      (fun _ => ⟨rfl, rfl⟩) (fun _ => rfl)
      (iff_of_true ⟨raw, by simp, Option.isSome_iff_exists.mpr ⟨msg, hraw⟩⟩ rfl)
      (fun _ => ⟨rfl, rfl⟩)
  | @opened hdrop frames exception reader hfeed hfailed hwire hvendor hopen hframes hplain =>
    refine hw.read hdrop hfeed rfl (fun ht => ?_) (fun h => by cases h)
      (fun hv => ?_) (vendor_of_plain hfailed hplain hvendor) (no_failed hfailed hdrop) (hkept hdrop)
    · exact (notedAll_ended (fun _ hmem => (mem_keptFrames hmem).1) ht).imp_right .inl
    · rw [show g.sawVendorError = true from hv] at hvendor
      cases hvendor
  | @excepted hdrop frames exception reader hfeed hfailed =>
    refine hw.read hdrop hfeed rfl (fun _ => .inr (.inr rfl)) (fun h => by cases h)
      (fun _ => ⟨rfl, rfl⟩) (fun h => ?_) (no_failed hfailed hdrop) (hkept hdrop)
    rcases h with h | ⟨h, _⟩
    · exact h
    · cases h
  | @noFrame hdrop reader hfeed =>
    obtain ⟨held, heq, hheld⟩ := pushPartial_eq { g with reader } c
    rw [heq]
    refine hw.read hdrop hfeed rfl .inl (fun h => ⟨h, rfl⟩) (fun hv => ?_) (fun h => ?_)
      (no_failed rfl hdrop) hw.dropped
    · obtain ⟨hframe, hempty⟩ := hw.vendor hv
      exact ⟨hframe, (hheld hframe hv).2.trans hempty⟩
    · rcases h with h | ⟨_, _, hmem, _⟩
      · exact h
      · cases hmem
  | @rewritten hdrop frames reader hfeed hfailed hframes hvendor =>
    refine hw.read hdrop hfeed rfl (fun ht => ?_) (fun h => by cases h) (fun _ => ⟨rfl, rfl⟩)
      (fun _ => rfl) (no_failed hfailed hdrop) (hkept hdrop)
    exact (notedAll_ended (fun _ hmem => (mem_keptFrames hmem).1) ht).imp_right .inl
  | @forwarded hdrop frames reader hfeed hfailed hframes hvendor hplain hclosed =>
    refine hw.read hdrop hfeed rfl (fun ht => ?_) (fun h => by cases h) (fun _ => ⟨rfl, rfl⟩)
      (vendor_of_plain hfailed hplain hvendor) (no_failed hfailed hdrop) (hkept hdrop)
    exact (notedAll_ended (fun _ hmem => hmem) ht).imp_right .inl

variable (sj checks wire) in
/-- What a push forwards of the frames of its chunk after a vendor error: all of them
without `[DONE]`, or those before the first failed one and the error of that frame. -/
inductive QuietPush (failedBefore : Prop) (frames : List SseFrame) : SameWirePush → Prop where
  | hold (h : frames = [] ∨ failedBefore) : QuietPush failedBefore frames .hold
  | kept (h : splitFailed sj checks wire frames = none) :
      QuietPush failedBefore frames (.forward (formatAll (keptFrames frames)))
  | failed {before : List SseFrame} {msg : String}
      (h : splitFailed sj checks wire frames = some (before, msg)) :
      QuietPush failedBefore frames
        (.forward (formatAll (keptFrames before) ++ destErrorBytes sj wire msg))

variable (sj checks wire) in
/-- What the end forwards after a vendor error: at most the frame that it completes,
when that is not the first part of a `[DONE]`. -/
inductive QuietEnd (last : Except String (Option SseFrame)) : SameWireEnd → Prop where
  | done : QuietEnd last (.done [])
  | doneLast {raw : SseFrame} (hlast : last = .ok (some raw)) (h : doneFramePrefix raw = false) :
      QuietEnd last (.done (formatSse raw))
  | append (msg : String) : QuietEnd last (.append [] msg)
  | appendLast {raw : SseFrame} (hlast : last = .ok (some raw)) (h : doneFramePrefix raw = false)
      (msg : String) : QuietEnd last (.append (formatSse raw) msg)
  | failed {raw : SseFrame} {msg : String} (hlast : last = .ok (some raw))
      (h : responsesFailedVendorError sj checks wire raw = some msg) : QuietEnd last (.replace msg)

theorem quiet_step (hw : Watched sj checks wire chunks g) (hvendor : g.sawVendorError = true)
    (hplain : chunkException sj (readerAfter sj (.forWire wire) chunks) c = false)
    (hstep : PushStep sj checks wire g c p t) :
    QuietPush sj checks wire (FailedRead sj checks wire chunks)
      (chunkFrames sj (readerAfter sj (.forWire wire) chunks) c) p ∧ t.sawVendorError = true := by
  have hread : ∀ {frames exception reader}, g.dropRest = false →
      g.reader.feed sj c = (.ok (frames, exception), reader) →
      chunkFrames sj (readerAfter sj (.forWire wire) chunks) c = frames := by
    intro frames exception reader hdrop hfeed
    rw [chunkFrames, ← hw.reader hdrop, hfeed]
  cases hstep with
  | dropped h => exact ⟨.hold (.inr (hw.failed.mpr h)), hvendor⟩
  | unread hdrop hframe hfeed =>
    rw [(hw.vendor hvendor).1] at hframe
    cases hframe
  | failed hdrop hfeed hfailed =>
    rw [hread hdrop hfeed]
    exact ⟨.failed hfailed, rfl⟩
  | opened hdrop hfeed hfailed hwire hv hopen hframes hunwrapped =>
    rw [hvendor] at hv
    cases hv
  | excepted hdrop hfeed hfailed =>
    rw [chunkException, ← hw.reader hdrop, hfeed] at hplain
    cases hplain
  | @noFrame hdrop reader hfeed =>
    obtain ⟨held, heq, hheld⟩ := pushPartial_eq { g with reader } c
    rw [heq, (hheld (hw.vendor hvendor).1 hvendor).1, hread hdrop hfeed]
    exact ⟨.hold (.inl rfl), hvendor⟩
  | rewritten hdrop hfeed hfailed hframes hv =>
    rw [hread hdrop hfeed]
    exact ⟨.kept hfailed, rfl⟩
  | forwarded hdrop hfeed hfailed hframes hv hunwrapped hclosed =>
    rw [hvendor] at hv
    cases hv

/-- Something from upstream ended the stream. -/
def Ended (sj : SerdeJson) (wire : Wire) (chunks : List (List UInt8)) : Prop :=
  (∃ raw ∈ upstreamFrames sj wire chunks, endsStream sj wire raw = true) ∨
    exceptionRead sj (.forWire wire) chunks = true

theorem noFrameEnd_cases (checks : BodyChecks) (body : List UInt8) :
    (∃ msg, noFrameEnd checks body = .replace msg) ∨
      ∃ sse, noFrameEnd checks body = .promote sse := by
  unfold noFrameEnd
  simp only
  split
  · exact .inl ⟨_, rfl⟩
  · split
    · exact .inr ⟨_, rfl⟩
    · exact .inl ⟨_, rfl⟩

theorem finishWith_done {synthesized tail : List UInt8}
    (h : finishWith checks g synthesized = .done tail) : g.sawTerminal = true := by
  unfold finishWith at h
  simp only at h
  split at h
  · rcases noFrameEnd_cases checks (g.held ++ synthesized) with ⟨msg, heq⟩ | ⟨sse, heq⟩
    · rw [heq] at h
      cases h
    · rw [heq] at h
      cases h
  · split at h
    · cases h
    · rename_i hterminal
      simpa using hterminal

theorem finishWith_open {synthesized : List UInt8} (h : g.sawTerminal = false) :
    (∃ msg, finishWith checks g synthesized = .replace msg) ∨
      (∃ tail msg, finishWith checks g synthesized = .append tail msg) ∨
      (g.sawFrame = false ∧ ∃ sse, finishWith checks g synthesized = .promote sse) := by
  unfold finishWith
  simp only
  split
  · rename_i hframe
    rcases noFrameEnd_cases checks (g.held ++ synthesized) with hmsg | hsse
    · exact .inl hmsg
    · exact .inr (.inr ⟨by simpa using hframe, hsse⟩)
  · rw [if_pos (by simp [h])]
    exact .inr (.inl ⟨_, _, rfl⟩)

theorem Watched.ended_upstream (hw : Watched sj checks wire chunks g) (h : g.sawTerminal = true) :
    Ended sj wire chunks := by
  rcases hw.ended h with ⟨raw, hmem, hraw⟩ | hexception
  · exact .inl ⟨raw, List.mem_append_left _ hmem, hraw⟩
  · exact .inr hexception

theorem Watched.last (hw : Watched sj checks wire chunks g) (hdrop : g.dropRest = false)
    {raw : SseFrame} (hfinish : g.reader.finish = .ok (some raw)) :
    raw ∈ upstreamFrames sj wire chunks := by
  refine List.mem_append_right _ ?_
  rw [← hw.reader hdrop, hfinish]
  exact List.mem_singleton_self _

theorem finish_done (hw : Watched sj checks wire chunks g) {tail : List UInt8}
    (h : finish sj checks wire g = .done tail) : Ended sj wire chunks := by
  unfold finish at h
  split at h
  · rename_i hdrop
    exact hw.ended_upstream (hw.dropped hdrop).2
  · rename_i hdrop
    have hdrop : g.dropRest = false := by simpa using hdrop
    split at h
    · split at h
      · rcases noFrameEnd_cases checks g.held with ⟨msg, heq⟩ | ⟨sse, heq⟩
        · rw [heq] at h
          cases h
        · rw [heq] at h
          cases h
      · cases h
    · exact hw.ended_upstream (finishWith_done h)
    · rename_i raw hfinish
      split at h
      · cases h
      · have hterminal := finishWith_done h
        rw [noteTerminal_eq] at hterminal
        rcases notedAll_ended (fun _ hmem => hmem) hterminal with hg | hraw
        · exact hw.ended_upstream hg
        · obtain ⟨last, hmem, hlast⟩ := hraw
          obtain rfl := List.mem_singleton.mp hmem
          exact .inl ⟨last, hw.last hdrop hfinish, hlast⟩

theorem finish_open (hw : Watched sj checks wire chunks g) (h : ¬ Ended sj wire chunks) :
    (∃ msg, finish sj checks wire g = .replace msg) ∨
      (∃ tail msg, finish sj checks wire g = .append tail msg) ∨
      (upstreamFrames sj wire chunks = [] ∧ ∃ sse, finish sj checks wire g = .promote sse) := by
  have hopen : g.sawTerminal = false := by
    by_contra hterminal
    exact h (hw.ended_upstream (by simpa using hterminal))
  unfold finish
  split
  · rename_i hdrop
    rw [(hw.dropped hdrop).2] at hopen
    cases hopen
  · rename_i hdrop
    have hdrop : g.dropRest = false := by simpa using hdrop
    have hempty : g.sawFrame = false → (∀ raw, g.reader.finish ≠ .ok (some raw)) →
        upstreamFrames sj wire chunks = [] := by
      intro hframe hlast
      rw [upstreamFrames, hw.unframed hframe, ← hw.reader hdrop]
      split
      · rename_i raw hraw
        exact absurd hraw (hlast raw)
      · rfl
    split
    · rename_i err hfinish
      split
      · rename_i hframe
        rcases noFrameEnd_cases checks g.held with hmsg | hsse
        · exact .inl hmsg
        · exact .inr (.inr ⟨hempty (by simpa using hframe) (by simp [hfinish]), hsse⟩)
      · exact .inr (.inl ⟨_, _, rfl⟩)
    · rename_i hfinish
      rcases finishWith_open hopen with h | h | ⟨hframe, h⟩
      · exact .inl h
      · exact .inr (.inl h)
      · exact .inr (.inr ⟨hempty hframe (by simp [hfinish]), h⟩)
    · rename_i raw hfinish
      split
      · exact .inl ⟨_, rfl⟩
      · have hstill : (noteTerminal sj wire { g with sawFrame := true } raw).sawTerminal = false := by
          by_contra hterminal
          rw [Bool.not_eq_false, noteTerminal_eq] at hterminal
          rcases notedAll_ended (fun _ hmem => hmem) hterminal with hg | hraw
          · rw [show g.sawTerminal = true from hg] at hopen
            cases hopen
          · obtain ⟨last, hmem, hlast⟩ := hraw
            obtain rfl := List.mem_singleton.mp hmem
            exact h (.inl ⟨last, hw.last hdrop hfinish, hlast⟩)
        rcases finishWith_open hstill with h | h | ⟨hframe, _⟩
        · exact .inl h
        · exact .inr (.inl h)
        · rw [noteTerminal_eq] at hframe
          cases hframe

theorem finishWith_framed (checks : BodyChecks) (hframe : g.sawFrame = true) (hheld : g.held = [])
    (synthesized : List UInt8) :
    finishWith checks g synthesized = .append synthesized incompleteStreamMessage ∨
      finishWith checks g synthesized = .done synthesized := by
  unfold finishWith
  simp only
  rw [hheld, List.nil_append, if_neg (by simp [hframe])]
  split
  · exact .inl rfl
  · exact .inr rfl

theorem finish_quiet (hw : Watched sj checks wire chunks g) (hvendor : g.sawVendorError = true) :
    QuietEnd sj checks wire (readerAfter sj (.forWire wire) chunks).finish
      (finish sj checks wire g) := by
  obtain ⟨hframe, hheld⟩ := hw.vendor hvendor
  unfold finish
  split
  · exact .done
  · rename_i hdrop
    rw [← hw.reader (by simpa using hdrop)]
    split
    · rw [if_neg (by simp [hframe]), hheld]
      exact .append _
    · rcases finishWith_framed checks hframe hheld [] with h | h
      · rw [h]
        exact .append _
      · rw [h]
        exact .done
    · rename_i raw hfinish
      split
      · rename_i msg hmsg
        exact .failed hfinish hmsg
      · rw [noteTerminal_eq]
        have hend := finishWith_framed checks
          (g := notedAll sj wire { g with sawFrame := true } [raw]) rfl hheld
        split
        · rename_i hkept
          have hpart : doneFramePrefix raw = false := by simpa [hvendor] using hkept
          rcases hend (formatSse raw) with h | h
          · rw [h]
            exact .appendLast hfinish hpart _
          · rw [h]
            exact .doneLast hfinish hpart
        · rcases hend [] with h | h
          · rw [h]
            exact .append _
          · rw [h]
            exact .done

theorem gateStep_ok {more : List SameWirePush} (h : gateStep sj checks wire g c = .ok (more, t)) :
    ∃ p, more = [p] ∧ PushStep sj checks wire g c p t := by
  unfold gateStep at h
  split at h
  · rename_i p u hpush
    obtain ⟨rfl, rfl⟩ := Prod.mk.inj (Except.ok.inj h)
    exact ⟨p, rfl, push_step hpush⟩
  · cases h

theorem runGate_cons {outs : List SameWirePush}
    (h : runAll (gateStep sj checks wire) g (c :: chunks) = .ok (outs, t)) :
    ∃ p more, outs = p :: more ∧ ∃ next, PushStep sj checks wire g c p next := by
  simp only [runAll] at h
  split at h
  · cases h
  · rename_i first next hstep
    split at h
    · cases h
    · rename_i rest last hrest
      obtain ⟨rfl, rfl⟩ := Prod.mk.inj (Except.ok.inj h)
      obtain ⟨p, rfl, hpush⟩ := gateStep_ok hstep
      exact ⟨p, rest, rfl, next, hpush⟩

theorem runGate_watched {outs : List SameWirePush}
    (h : runGate sj checks wire chunks = .ok (outs, g)) :
    Watched sj checks wire chunks g ∧ outs.length = chunks.length := by
  refine runAll_ok_invariant
    (fun seen out g => Watched sj checks wire seen g ∧ out.length = seen.length) h
    ⟨watched_new sj checks wire, rfl⟩ ?_
  intro before c out g more t _ hI hstep
  obtain ⟨p, rfl, hpush⟩ := gateStep_ok hstep
  refine ⟨watched_step hI.1 hpush, ?_⟩
  rw [List.length_append, List.length_append, hI.2]
  rfl

/-- What the gate promises of a run that gave `outs` and ended in `g`. -/
structure EndsSafely (sj : SerdeJson) (checks : BodyChecks) (wire : Wire)
    (chunks : List (List UInt8)) (outs : List SameWirePush) (g : SameWireGate) : Prop where
  clean : ∀ tail, finish sj checks wire g = .done tail → Ended sj wire chunks
  unclean : ¬ Ended sj wire chunks →
    (∃ msg, finish sj checks wire g = .replace msg) ∨
      (∃ tail msg, finish sj checks wire g = .append tail msg) ∨
      (upstreamFrames sj wire chunks = [] ∧ ∃ sse, finish sj checks wire g = .promote sse)
  quiet : ∀ before c after, chunks = before ++ c :: after →
    exceptionRead sj (.forWire wire) (before ++ [c]) = false →
    (∃ raw ∈ framesRead sj (.forWire wire) before, isVendorError sj checks wire raw = true) →
      ∃ p, outs[before.length]? = some p ∧
        QuietPush sj checks wire (FailedRead sj checks wire before)
          (chunkFrames sj (readerAfter sj (.forWire wire) before) c) p
  quietEnd : exceptionRead sj (.forWire wire) chunks = false →
    (∃ raw ∈ framesRead sj (.forWire wire) chunks, isVendorError sj checks wire raw = true) →
      QuietEnd sj checks wire (readerAfter sj (.forWire wire) chunks).finish
        (finish sj checks wire g)

/-- The vendor error `{"error":"e"}`. -/
def vendorFrame : SseFrame := ⟨none, "\x7b\"error\":\"e\"\x7d"⟩

/-- Its bytes, as a frame. -/
def vendorChunk : List UInt8 := [0x64, 0x61, 0x74, 0x61, 0x3A, 0x7B, 0x22, 0x65, 0x72, 0x72, 0x6F,
  0x72, 0x22, 0x3A, 0x22, 0x65, 0x22, 0x7D, SseReader.newline, SseReader.newline]

/-- `serde_json` on that text. -/
def vendorJson : SerdeJson where
  fromStr text :=
    if text = vendorFrame.data then some (.object [("error", .string "e")]) else none
  toString _ := "{}"

def noChecks : BodyChecks where
  decodeError _ := none
  vendorFailure _ := none
  completionToSse _ := none

theorem feed_vendorChunk : UpstreamFrames.feed vendorJson vendorChunk (.sse {}) =
    (.ok ([vendorFrame], none), .sse {}) := rfl

theorem fromStr_vendorFrame :
    vendorJson.fromStr vendorFrame.data = some (.object [("error", .string "e")]) := by
  simp [vendorJson]

theorem isWrappedError_vendorFrame : isWrappedError vendorJson vendorFrame = true := by
  rw [isWrappedError, sseWrappedErrorMessage, fromStr_vendorFrame]
  decide +kernel

theorem frameIsTerminal_vendorFrame :
    frameIsTerminal vendorJson .chatCompletions vendorFrame = false := by
  decide +kernel

/-- The gate that has seen the vendor error. -/
def vendorGate : SameWireGate :=
  { reader := .sse {}, sawFrame := true, sawTerminal := true, sawVendorError := true }

theorem noteTerminal_vendorFrame (g : SameWireGate) :
    noteTerminal vendorJson .chatCompletions g vendorFrame = { g with sawTerminal := true } := by
  rw [noteTerminal, isWrappedError_vendorFrame, Bool.or_true, if_pos rfl]

theorem rewrite_vendorFrame (g : SameWireGate) :
    rewrite vendorJson .chatCompletions g [vendorFrame] =
      (formatSse vendorFrame, { g with sawTerminal := true }) := by
  have hkept : sseDoneFrame vendorFrame = false := by decide +kernel
  rw [rewrite, if_neg (by simp [hkept]), rewrite, noteTerminal_vendorFrame]
  exact Prod.ext (List.append_nil _) rfl

theorem push_vendorChunk :
    push vendorJson noChecks .chatCompletions (.new .chatCompletions) vendorChunk =
      (.ok (.forward (formatSse vendorFrame)), vendorGate) := by
  have hfailed : splitFailed vendorJson noChecks .chatCompletions [vendorFrame] = none := rfl
  rw [push, if_neg (by decide), if_neg (by decide)]
  simp only [SameWireGate.new, UpstreamFrames.forWire, feed_vendorChunk, hfailed]
  rw [if_neg (by simp), if_neg (by simp), if_neg (by simp), pushFrames]
  simp only [List.any_cons, isWrappedError_vendorFrame, Bool.true_or, if_true, rewrite_vendorFrame]
  rfl

theorem runGate_vendorChunk : runGate vendorJson noChecks .chatCompletions [vendorChunk] =
    .ok ([.forward (formatSse vendorFrame)], vendorGate) := by
  rw [runGate, runAll, gateStep, push_vendorChunk]
  rfl

theorem upstreamFrames_vendorChunk :
    upstreamFrames vendorJson .chatCompletions [vendorChunk] = [vendorFrame] := rfl

end Wiremux.GateEnds
