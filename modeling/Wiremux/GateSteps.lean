import Wiremux.EmittingRuns
import Wiremux.SameWire

set_option autoImplicit false

/-!
# What one push of the gate can do

`PushStep` lists the ways a push succeeds; the readers of upstream bytes are
followed beside it.
-/
namespace Wiremux.GateSteps
open JsonValue StreamEvents SseReader Upstream SseWriting SameWire EmittingRuns

variable (sj : SerdeJson) (checks : BodyChecks) (wire : Wire)

def endsStream (raw : SseFrame) : Bool := frameIsTerminal sj wire raw || isWrappedError sj raw

def keptFrames (frames : List SseFrame) : List SseFrame := frames.filter fun raw => !sseDoneFrame raw

def formatAll (frames : List SseFrame) : List UInt8 := frames.flatMap formatSse

def notedAll (g : SameWireGate) (frames : List SseFrame) : SameWireGate :=
  { g with sawTerminal := g.sawTerminal || frames.any (endsStream sj wire) }

theorem noteTerminal_eq (g : SameWireGate) (raw : SseFrame) :
    noteTerminal sj wire g raw = notedAll sj wire g [raw] := by
  rw [noteTerminal, notedAll, List.any_cons, List.any_nil, Bool.or_false]
  cases h : endsStream sj wire raw with
  | true =>
    rw [if_pos (by exact h), Bool.or_true]
  | false =>
    rw [if_neg (by rw [show (frameIsTerminal sj wire raw || isWrappedError sj raw) = false from h]; simp),
      Bool.or_false]

theorem notedAll_append (g : SameWireGate) (xs ys : List SseFrame) :
    notedAll sj wire (notedAll sj wire g xs) ys = notedAll sj wire g (xs ++ ys) := by
  simp [notedAll, Bool.or_assoc]

theorem foldl_noteTerminal (frames : List SseFrame) (g : SameWireGate) :
    frames.foldl (noteTerminal sj wire) g = notedAll sj wire g frames := by
  induction frames generalizing g with
  | nil => simp [notedAll]
  | cons raw rest ih =>
    rw [List.foldl_cons, ih, noteTerminal_eq, notedAll_append]
    rfl

theorem rewrite_eq (frames : List SseFrame) (g : SameWireGate) :
    rewrite sj wire g frames =
      (formatAll (keptFrames frames), notedAll sj wire g (keptFrames frames)) := by
  induction frames generalizing g with
  | nil => simp [rewrite, keptFrames, formatAll, notedAll]
  | cons raw rest ih =>
    rw [rewrite]
    cases hdone : sseDoneFrame raw with
    | true => simp [ih, keptFrames, hdone]
    | false =>
      rw [if_neg (by simp)]
      simp only [ih, noteTerminal_eq, notedAll_append]
      simp [keptFrames, formatAll, hdone]

theorem pushFrames_vendor {g : SameWireGate} {bytes : List UInt8} {frames : List SseFrame}
    (h : g.sawVendorError = true ∨ frames.any (isWrappedError sj) = true) :
    pushFrames sj wire g bytes frames =
      (.forward (formatAll (keptFrames frames)),
        notedAll sj wire { g with sawFrame := true, sawVendorError := true, held := [] }
          (keptFrames frames)) := by
  have hflag : (if frames.any (isWrappedError sj) = true then { g with sawVendorError := true }
      else g) = { g with sawVendorError := true } := by
    split
    · rfl
    · rename_i hplain
      have hseen : g.sawVendorError = true := h.resolve_right hplain
      cases g
      simp_all
  rw [pushFrames, hflag, rewrite_eq]
  rfl

theorem pushFrames_plain {g : SameWireGate} {bytes : List UInt8} {frames : List SseFrame}
    (hvendor : g.sawVendorError = false) (hplain : frames.any (isWrappedError sj) = false) :
    pushFrames sj wire g bytes frames =
      (.forward (g.held ++ bytes),
        notedAll sj wire { g with sawFrame := true, held := [] } frames) := by
  rw [pushFrames, hplain]
  simp only [Bool.false_eq_true, if_false, hvendor, foldl_noteTerminal]

inductive PushStep (g : SameWireGate) (bytes : List UInt8) : SameWirePush → SameWireGate → Prop where
  | dropped (h : g.dropRest = true) : PushStep g bytes .hold g
  | unread (hdrop : g.dropRest = false) (hframe : g.sawFrame = false) {err : String}
      {reader : UpstreamFrames} (hfeed : g.reader.feed sj bytes = (.error err, reader)) :
      PushStep g bytes .hold { g with reader, held := g.held ++ bytes }
  | failed (hdrop : g.dropRest = false) {frames before : List SseFrame} {msg : String}
      {exception : Option String} {reader : UpstreamFrames}
      (hfeed : g.reader.feed sj bytes = (.ok (frames, exception), reader))
      (hfailed : splitFailed sj checks wire frames = some (before, msg)) :
      PushStep g bytes (.forward (formatAll (keptFrames before) ++ destErrorBytes sj wire msg))
        { g with
          reader
          sawFrame := true
          sawTerminal := true
          sawVendorError := true
          dropRest := true
          held := [] }
  | opened (hdrop : g.dropRest = false) {frames : List SseFrame} {exception : Option String}
      {reader : UpstreamFrames}
      (hfeed : g.reader.feed sj bytes = (.ok (frames, exception), reader))
      (hfailed : splitFailed sj checks wire frames = none) (hwire : wire = .responses)
      (hvendor : g.sawVendorError = false) (hopen : reader.hasOpenFrame = true)
      (hframes : frames ≠ []) (hplain : frames.any (isWrappedError sj) = false) :
      PushStep g bytes (.forward (formatAll (keptFrames frames)))
        { notedAll sj wire { g with reader } (keptFrames frames) with
          sawFrame := true
          held := pendingOf reader }
  | excepted (hdrop : g.dropRest = false) {frames : List SseFrame} {exception : String}
      {reader : UpstreamFrames}
      (hfeed : g.reader.feed sj bytes = (.ok (frames, some exception), reader))
      (hfailed : splitFailed sj checks wire frames = none) :
      PushStep g bytes (.forward (g.held ++ bytes))
        { g with reader, sawFrame := true, sawTerminal := true, held := [] }
  | noFrame (hdrop : g.dropRest = false) {reader : UpstreamFrames}
      (hfeed : g.reader.feed sj bytes = (.ok ([], none), reader)) :
      PushStep g bytes (pushPartial wire { g with reader } bytes).1
        (pushPartial wire { g with reader } bytes).2
  | rewritten (hdrop : g.dropRest = false) {frames : List SseFrame} {reader : UpstreamFrames}
      (hfeed : g.reader.feed sj bytes = (.ok (frames, none), reader))
      (hfailed : splitFailed sj checks wire frames = none) (hframes : frames ≠ [])
      (hvendor : g.sawVendorError = true ∨ frames.any (isWrappedError sj) = true) :
      PushStep g bytes (.forward (formatAll (keptFrames frames)))
        (notedAll sj wire
          { g with reader, sawFrame := true, sawVendorError := true, held := [] }
          (keptFrames frames))
  | forwarded (hdrop : g.dropRest = false) {frames : List SseFrame} {reader : UpstreamFrames}
      (hfeed : g.reader.feed sj bytes = (.ok (frames, none), reader))
      (hfailed : splitFailed sj checks wire frames = none) (hframes : frames ≠ [])
      (hvendor : g.sawVendorError = false) (hplain : frames.any (isWrappedError sj) = false)
      (hclosed : ¬ (wire = .responses ∧ reader.hasOpenFrame = true)) :
      PushStep g bytes (.forward (g.held ++ bytes))
        (notedAll sj wire { g with reader, sawFrame := true, held := [] } frames)

variable {sj checks wire} {g t : SameWireGate} {bytes : List UInt8} {p : SameWirePush}

theorem push_step (h : push sj checks wire g bytes = (.ok p, t)) :
    PushStep sj checks wire g bytes p t := by
  unfold push at h
  split at h
  · rename_i hdrop
    obtain ⟨hp, rfl⟩ := Prod.mk.inj h
    obtain rfl := Except.ok.inj hp
    exact .dropped hdrop
  · rename_i hdrop
    have hdrop : g.dropRest = false := by simpa using hdrop
    split at h
    · cases (Prod.mk.inj h).1
    · split at h
      · rename_i err reader hfeed
        unfold pushError at h
        simp only at h
        split at h
        · cases (Prod.mk.inj h).1
        · rename_i hframe
          split at h
          · cases (Prod.mk.inj h).1
          · obtain ⟨hp, rfl⟩ := Prod.mk.inj h
            obtain rfl := Except.ok.inj hp
            exact .unread hdrop (by simpa using hframe) hfeed
      · rename_i frames exception reader hfeed
        simp only at h
        split at h
        · rename_i before msg hfailed
          rw [rewrite_eq] at h
          obtain ⟨hp, rfl⟩ := Prod.mk.inj h
          obtain rfl := Except.ok.inj hp
          exact .failed hdrop hfeed hfailed
        · rename_i hfailed
          split at h
          · rename_i hopen
            obtain ⟨hwire, hvendor, hopen, hframes, hplain⟩ := hopen
            rw [rewrite_eq] at h
            obtain ⟨hp, rfl⟩ := Prod.mk.inj h
            obtain rfl := Except.ok.inj hp
            exact .opened hdrop hfeed hfailed hwire hvendor hopen hframes hplain
          · rename_i hopen
            split at h
            · rename_i hexception
              obtain ⟨err, rfl⟩ := Option.isSome_iff_exists.mp hexception
              obtain ⟨hp, rfl⟩ := Prod.mk.inj h
              obtain rfl := Except.ok.inj hp
              exact .excepted hdrop hfeed hfailed
            · rename_i hexception
              obtain rfl : exception = none := by simpa using hexception
              split at h
              · rename_i hempty
                obtain rfl := List.isEmpty_iff.mp hempty
                obtain ⟨hp, rfl⟩ := Prod.mk.inj h
                obtain rfl := Except.ok.inj hp
                exact .noFrame hdrop hfeed
              · rename_i hempty
                have hframes : frames ≠ [] := fun he => hempty (List.isEmpty_iff.mpr he)
                cases hvendor : (frames.any (isWrappedError sj) || g.sawVendorError) with
                | true =>
                  have hseen : g.sawVendorError = true ∨ frames.any (isWrappedError sj) = true := by
                    simpa [or_comm] using hvendor
                  rw [pushFrames_vendor sj wire (g := { g with reader }) hseen] at h
                  obtain ⟨hp, rfl⟩ := Prod.mk.inj h
                  obtain rfl := Except.ok.inj hp
                  exact .rewritten hdrop hfeed hfailed hframes hseen
                | false =>
                  obtain ⟨hplain, hseen⟩ := Bool.or_eq_false_iff.mp hvendor
                  rw [pushFrames_plain sj wire (g := { g with reader }) hseen hplain] at h
                  obtain ⟨hp, rfl⟩ := Prod.mk.inj h
                  obtain rfl := Except.ok.inj hp
                  exact .forwarded hdrop hfeed hfailed hframes hseen hplain
                    fun hresponses => hopen
                      ⟨hresponses.1, hseen, hresponses.2, hframes, hplain⟩

end Wiremux.GateSteps
