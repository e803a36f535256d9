import Wiremux.GateEnds
import Wiremux.SseRoundTrip

set_option autoImplicit false

/-!
# The gate passes frames on

The frames the client reads are the frames upstream wrote, less those withheld:
a `[DONE]` after a vendor error, and everything from a failed Responses frame on,
in whose place an error frame stands. The condition on a step says where the
gate joins the bytes it forwards and the frames it writes anew without harm.
-/
namespace Wiremux.GateTransparency
open JsonValue StreamEvents SseReader Upstream SseWriting SameWire EmittingRuns GateSteps GateEnds
open ChunkedReading SseChunking SseRoundTrip

variable (sj : SerdeJson) (checks : BodyChecks) (wire : Wire)

/-- What has come: a vendor error, a failed frame. -/
structure Withholding where
  vendor : Bool := false
  failed : Bool := false

def pass (s : Withholding) : List SseFrame → List SseFrame × Withholding
  | [] => ([], s)
  | raw :: rest =>
    if s.failed then ([], s)
    else
      match responsesFailedVendorError sj checks wire raw with
      | some msg => ([SseWriting.errorFrame sj wire msg], { vendor := true, failed := true })
      | none =>
        let out := pass { s with vendor := s.vendor || isWrappedError sj raw } rest
        (if s.vendor && sseDoneFrame raw then out.1 else raw :: out.1, out.2)

/-- The frame that the end of the input completes; here the first part of a `[DONE]` counts. -/
def passLast (s : Withholding) : Option SseFrame → List SseFrame
  | none => []
  | some raw =>
    if s.failed || (responsesFailedVendorError sj checks wire raw).isSome ||
        (s.vendor && doneFramePrefix raw) then []
    else [raw]

/-- The frames of an input, and the one its end completes. -/
def parse (bytes : List UInt8) : List SseFrame × Option SseFrame :=
  match readBytes {} bytes with
  | (frames, .error _) => (frames, none)
  | (frames, .ok r) => (frames, (finish r).toOption.join)

def parsed (bytes : List UInt8) : List SseFrame := (parse bytes).1 ++ (parse bytes).2.toList

/-- The frames of the upstream bytes that should reach the client. -/
def expected (bytes : List UInt8) : List SseFrame :=
  let out := pass sj checks wire {} (parse bytes).1
  out.1 ++ passLast sj checks wire out.2 (parse bytes).2

def forwarded : SameWirePush → List UInt8
  | .hold => []
  | .forward bytes => bytes

/-- The upstream bytes in the end, or those a completion is promoted to. -/
def endBytes : SameWireEnd → List UInt8
  | .done tail => tail
  | .replace _ => []
  | .append tail _ => tail
  | .promote bytes => bytes

def donesAfterError (vendor : Bool) : List SseFrame → Bool
  | [] => true
  | raw :: rest =>
    (vendor || !sseDoneFrame raw) && donesAfterError (vendor || isWrappedError sj raw) rest

/-- The frames of a chunk can be written anew. -/
structure Rewritable (vendor : Bool) (frames : List SseFrame) : Prop where
  dones : donesAfterError sj vendor frames = true
  written : ∀ raw ∈ keptFrames frames, WritableFrame raw

/-- Nothing of a line and no data line of the open frame is in the reader. -/
def CleanCut : UpstreamFrames → Prop
  | .sse r => r.buffer = [] ∧ r.data = []
  | .event _ => False

def WritableRest : UpstreamFrames → Prop
  | .sse r => WritableOpen r
  | .event _ => False

/-- The chunk is read, and where its frames are written anew they fit what was forwarded. -/
structure StepKept (g : SameWireGate) (bytes : List UInt8) : Prop where
  reads : g.dropRest = false → ∀ err, (g.reader.feed sj bytes).1 ≠ .error err
  failed : g.dropRest = false → ∀ frames exception reader before msg,
    g.reader.feed sj bytes = (.ok (frames, exception), reader) →
    splitFailed sj checks wire frames = some (before, msg) →
      Rewritable sj g.sawVendorError before ∧ WritableFrame (SseWriting.errorFrame sj wire msg)
  rewritten : g.dropRest = false → ∀ frames exception reader,
    g.reader.feed sj bytes = (.ok (frames, exception), reader) → frames ≠ [] →
    splitFailed sj checks wire frames = none →
    (g.sawVendorError = true ∨ frames.any (isWrappedError sj) = true) →
      Rewritable sj g.sawVendorError frames ∧
        (g.sawVendorError = false → g.sawFrame = true → wire ≠ .responses → CleanCut g.reader)
  opened : g.dropRest = false → ∀ frames exception reader,
    g.reader.feed sj bytes = (.ok (frames, exception), reader) → frames ≠ [] →
    wire = .responses → g.sawVendorError = false → reader.hasOpenFrame = true →
    splitFailed sj checks wire frames = none → frames.any (isWrappedError sj) = false →
      Rewritable sj false frames ∧ WritableRest reader
  joined : g.dropRest = false → ∀ exception reader,
    g.reader.feed sj bytes = (.ok ([], exception), reader) →
    wire = .responses → g.sawVendorError = false → g.sawFrame = true →
    g.reader.hasOpenFrame = true → reader.hasOpenFrame = true

/-- The body is not promoted, and a last frame after a vendor error can be written. -/
structure EndKept (g : SameWireGate) : Prop where
  stream : g.sawFrame = false → checks.completionToSse g.held = none
  last : g.sawVendorError = true → ∀ raw, g.reader.finish = .ok (some raw) →
    doneFramePrefix raw = false → WritableFrame raw

variable {sj checks wire}

theorem pass_failed (s : Withholding) (h : s.failed = true) (frames : List SseFrame) :
    pass sj checks wire s frames = ([], s) := by
  cases frames with
  | nil => rfl
  | cons raw rest => rw [pass, if_pos h]

theorem pass_append (s : Withholding) (xs ys : List SseFrame) :
    pass sj checks wire s (xs ++ ys) =
      ((pass sj checks wire s xs).1 ++ (pass sj checks wire (pass sj checks wire s xs).2 ys).1,
        (pass sj checks wire (pass sj checks wire s xs).2 ys).2) := by
  induction xs generalizing s with
  | nil => rfl
  | cons raw rest ih =>
    rw [List.cons_append, pass, pass]
    split
    · rename_i hfailed
      rw [pass_failed s hfailed]
      rfl
    · cases hmsg : responsesFailedVendorError sj checks wire raw with
      | some msg =>
        simp only
        rw [pass_failed _ rfl, List.append_nil]
      | none =>
        simp only [ih]
        split <;> simp

theorem splitFailed_cons_none {raw : SseFrame} {rest : List SseFrame}
    (h : splitFailed sj checks wire (raw :: rest) = none) :
    responsesFailedVendorError sj checks wire raw = none ∧
      splitFailed sj checks wire rest = none := by
  rw [splitFailed] at h
  split at h
  · cases h
  · rename_i hraw
    exact ⟨hraw, by simpa using h⟩

theorem pass_plain {frames : List SseFrame} (hfailed : splitFailed sj checks wire frames = none)
    (hplain : frames.any (isWrappedError sj) = false) :
    pass sj checks wire {} frames = (frames, {}) := by
  induction frames with
  | nil => rfl
  | cons raw rest ih =>
    obtain ⟨hraw, hrest⟩ := splitFailed_cons_none hfailed
    obtain ⟨hhead, htail⟩ := Bool.or_eq_false_iff.mp hplain
    rw [pass, if_neg (by decide), hraw]
    simp only [hhead, Bool.or_false, ih hrest htail]
    rfl

theorem keptFrames_cons (raw : SseFrame) (rest : List SseFrame) :
    keptFrames (raw :: rest) =
      if sseDoneFrame raw then keptFrames rest else raw :: keptFrames rest := by
  rw [keptFrames, keptFrames, List.filter_cons]
  cases sseDoneFrame raw <;> rfl

theorem dropped_iff {vendor : Bool} {raw : SseFrame} (h : (vendor || !sseDoneFrame raw) = true) :
    (vendor && sseDoneFrame raw) = sseDoneFrame raw := by
  revert h
  cases vendor <;> cases sseDoneFrame raw <;> simp

theorem pass_kept {s : Withholding} {frames : List SseFrame} (hs : s.failed = false)
    (hfailed : splitFailed sj checks wire frames = none)
    (hdones : donesAfterError sj s.vendor frames = true) :
    pass sj checks wire s frames =
      (keptFrames frames, { s with vendor := s.vendor || frames.any (isWrappedError sj) }) := by
  induction frames generalizing s with
  | nil => simp [pass, keptFrames]
  | cons raw rest ih =>
    obtain ⟨hraw, hrest⟩ := splitFailed_cons_none hfailed
    rw [donesAfterError, Bool.and_eq_true] at hdones
    have hnext := ih (s := { s with vendor := s.vendor || isWrappedError sj raw }) hs hrest hdones.2
    rw [pass, if_neg (by simp [hs]), hraw]
    simp only [hnext]
    rw [dropped_iff hdones.1, keptFrames_cons, List.any_cons, Bool.or_assoc]

theorem pass_split {s : Withholding} {frames before : List SseFrame} {msg : String}
    (hs : s.failed = false) (hfailed : splitFailed sj checks wire frames = some (before, msg))
    (hdones : donesAfterError sj s.vendor before = true) :
    pass sj checks wire s frames = (keptFrames before ++ [SseWriting.errorFrame sj wire msg],
      { vendor := true, failed := true }) := by
  induction frames generalizing s before with
  | nil => cases hfailed
  | cons raw rest ih =>
    rw [splitFailed] at hfailed
    split at hfailed
    · rename_i text hraw
      obtain ⟨rfl, rfl⟩ := Prod.mk.inj (Option.some.inj hfailed)
      rw [pass, if_neg (by simp [hs]), hraw]
      rfl
    · rename_i hraw
      obtain ⟨⟨earlier, text⟩, hrest, hout⟩ := Option.map_eq_some_iff.mp hfailed
      obtain ⟨rfl, rfl⟩ := Prod.mk.inj hout
      rw [donesAfterError, Bool.and_eq_true] at hdones
      have hnext := ih (s := { s with vendor := s.vendor || isWrappedError sj raw }) hs hrest hdones.2
      rw [pass, if_neg (by simp [hs]), hraw]
      simp only [hnext]
      rw [dropped_iff hdones.1, keptFrames_cons]
      split <;> rfl

theorem splitFailed_responses {frames : List SseFrame} {found : List SseFrame × String}
    (h : splitFailed sj checks wire frames = some found) : wire = .responses := by
  induction frames generalizing found with
  | nil => cases h
  | cons raw rest ih =>
    rw [splitFailed] at h
    split at h
    · rename_i msg hraw
      unfold responsesFailedVendorError at hraw
      split at hraw
      · rename_i hwire
        exact hwire.1
      · cases hraw
    · obtain ⟨found, hrest, _⟩ := Option.map_eq_some_iff.mp h
      exact ih hrest

variable (sj checks wire) in
/-- What the client reads so far, beside what upstream wrote. -/
inductive Faithful (bytes out : List UInt8) (g : SameWireGate) : Prop where
  | plain {frames : List SseFrame} {r : SseFrameReader}
      (hread : readBytes {} bytes = (frames, .ok r)) (hreader : g.reader = .sse r)
      (hdrop : g.dropRest = false) (hvendor : g.sawVendorError = false)
      (hpass : pass sj checks wire {} frames = (frames, {}))
      (hout : readBytes {} (out ++ g.held) = (frames, .ok r))
      (hstart : g.sawFrame = false → out = [] ∧ frames = [])
      (hheld : g.sawFrame = true → (wire = .responses ∧ hasOpenFrame r = true) ∨ g.held = [])
      (hclosed : wire = .responses → readBytes {} out = (frames, .ok {}))
  | vendor {frames kept : List SseFrame} {r : SseFrameReader}
      (hread : readBytes {} bytes = (frames, .ok r)) (hreader : g.reader = .sse r)
      (hdrop : g.dropRest = false) (hvendor : g.sawVendorError = true)
      (hpass : pass sj checks wire {} frames = (kept, { vendor := true }))
      (hout : readBytes {} out = (kept, .ok {})) (hframe : g.sawFrame = true) (hheld : g.held = [])
  | failed {kept : List SseFrame} (hdrop : g.dropRest = true)
      (hpass : pass sj checks wire {} (readBytes {} bytes).1 =
        (kept, { vendor := true, failed := true }))
      (hout : readBytes {} out = (kept, .ok {}))

theorem faithful_new (hwire : wire ≠ .converse) : Faithful sj checks wire [] [] (.new wire) := by
  refine .plain (r := {}) rfl ?_ rfl rfl rfl rfl (fun _ => ⟨rfl, rfl⟩)
    (fun h => nomatch h) (fun _ => rfl)
  cases wire <;> first | rfl | exact absurd rfl hwire

theorem readBytes_of_feed {bytes c : List UInt8} {seen frames : List SseFrame} {r : SseFrameReader}
    {exception : Option String} {reader : UpstreamFrames}
    (hread : readBytes {} bytes = (seen, .ok r))
    (hfeed : UpstreamFrames.feed sj c (.sse r) = (.ok (frames, exception), reader)) :
    ∃ t, reader = .sse t ∧ exception = none ∧ readBytes r c = (frames, .ok t) ∧
      readBytes {} (bytes ++ c) = (seen ++ frames, .ok t) := by
  have hcapped := readBytes_capped bytes capped_new hread
  rw [UpstreamFrames.feed] at hfeed
  cases hchunk : SseReader.feed r c with
  | error e =>
    rw [hchunk] at hfeed
    cases (Prod.mk.inj hfeed).1
  | ok parsed =>
    obtain ⟨fs, t⟩ := parsed
    rw [hchunk] at hfeed
    obtain ⟨hframes, rfl⟩ := Prod.mk.inj hfeed
    obtain ⟨rfl, rfl⟩ := Prod.mk.inj (Except.ok.inj hframes)
    have hreading : dropping (fun _ => true) readBytes r c = (fs, .ok t) := by
      rw [← feedReading_eq hcapped, feedReading, hchunk]
    have hbytes := dropping_ok hreading
    exact ⟨t, rfl, rfl, hbytes, by rw [readBytes_append, hread, andThen_ok, hbytes]⟩

theorem formatAll_read {out : List UInt8} {kept frames : List SseFrame}
    (hout : readBytes {} out = (kept, .ok {})) (hwritten : ∀ raw ∈ frames, WritableFrame raw) :
    readBytes {} (out ++ formatAll frames) = (kept ++ frames, .ok {}) := by
  rw [readBytes_append, hout, andThen_ok, formatAll, readBytes_formatAll hwritten]

theorem formatAll_cut {out : List UInt8} {seen frames : List SseFrame} {raw : SseFrame}
    {r : SseFrameReader} (hout : readBytes {} out = (seen, .ok r)) (hempty : r.buffer = [])
    (hdata : r.data = []) (hevent : r.event.isSome = true → raw.event.isSome = true)
    (hwritten : ∀ f ∈ raw :: frames, WritableFrame f) :
    readBytes {} (out ++ formatAll (raw :: frames)) = (seen ++ raw :: frames, .ok {}) := by
  have hbytes : r.dataBytes = 0 := by
    rw [(readBytes_sound out sound_new hout).counted, hdata]
    rfl
  have hname : raw.event = none → r.event = none := by
    intro hraw
    cases he : r.event with
    | none => rfl
    | some e => rw [hraw, he] at hevent; cases hevent rfl
  rw [readBytes_append, hout, andThen_ok, formatAll, List.flatMap_cons, readBytes_append,
    readBytes_formatSse (hwritten raw (by simp)) hempty hdata hbytes hname, andThen_ok,
    readBytes_formatAll fun f hf => hwritten f (by simp [hf])]
  rfl

variable {g t : SameWireGate} {bytes out c : List UInt8} {p : SameWirePush}

theorem destErrorBytes_responses (msg : String) (hwire : wire = .responses) :
    destErrorBytes sj wire msg = formatSse (SseWriting.errorFrame sj wire msg) := by
  rw [hwire, destErrorBytes]
  exact fun h => nomatch h

theorem faithful_failing {seen kept frames before : List SseFrame} {u : SseFrameReader}
    {s : Withholding} {msg : String} (hs : s.failed = false)
    (hread : readBytes {} (bytes ++ c) = (seen ++ frames, .ok u))
    (hpass : pass sj checks wire {} seen = (kept, s)) (hout : readBytes {} out = (kept, .ok {}))
    (hfailed : splitFailed sj checks wire frames = some (before, msg))
    (hbefore : Rewritable sj s.vendor before)
    (herror : WritableFrame (SseWriting.errorFrame sj wire msg)) (hdrop : t.dropRest = true) :
    Faithful sj checks wire (bytes ++ c)
      (out ++ (formatAll (keptFrames before) ++ destErrorBytes sj wire msg)) t := by
  refine @Faithful.failed _ _ _ _ _ _
    (kept ++ (keptFrames before ++ [SseWriting.errorFrame sj wire msg])) hdrop
    ?_ ?_
  · rw [hread, pass_append, hpass, pass_split hs hfailed hbefore.dones]
  · have hall : formatAll (keptFrames before) ++ destErrorBytes sj wire msg =
        formatAll (keptFrames before ++ [SseWriting.errorFrame sj wire msg]) := by
      rw [destErrorBytes_responses msg (splitFailed_responses hfailed)]
      simp [formatAll]
    rw [hall]
    refine formatAll_read hout fun raw hraw => ?_
    rcases List.mem_append.mp hraw with hraw | hraw
    · exact hbefore.written raw hraw
    · rwa [List.mem_singleton.mp hraw]

theorem faithful_step_failed {kept : List SseFrame} (hdrop : g.dropRest = true)
    (hpass : pass sj checks wire {} (readBytes {} bytes).1 =
      (kept, { vendor := true, failed := true }))
    (hout : readBytes {} out = (kept, .ok {})) (hpush : PushStep sj checks wire g c p t) :
    Faithful sj checks wire (bytes ++ c) (out ++ forwarded p) t := by
  have hmore : ∃ more, (readBytes {} (bytes ++ c)).1 = (readBytes {} bytes).1 ++ more := by
    rw [readBytes_append]
    cases readBytes {} bytes with
    | mk fs next =>
      cases next with
      | error e => exact ⟨[], (List.append_nil fs).symm⟩
      | ok r => exact ⟨(readBytes r c).1, rfl⟩
  obtain ⟨more, hmore⟩ := hmore
  cases hpush with
  | dropped _ =>
    refine .failed hdrop ?_ (by rwa [forwarded, List.append_nil])
    rw [hmore, pass_append, hpass, pass_failed _ rfl, List.append_nil]
  | unread h => rw [hdrop] at h; cases h
  | failed h => rw [hdrop] at h; cases h
  | opened h => rw [hdrop] at h; cases h
  | excepted h => rw [hdrop] at h; cases h
  | noFrame h => rw [hdrop] at h; cases h
  | rewritten h => rw [hdrop] at h; cases h
  | forwarded h => rw [hdrop] at h; cases h

theorem faithful_step_vendor {frames kept : List SseFrame} {r : SseFrameReader}
    (hread : readBytes {} bytes = (frames, .ok r)) (hreader : g.reader = .sse r)
    (hdrop : g.dropRest = false) (hvendor : g.sawVendorError = true)
    (hpass : pass sj checks wire {} frames = (kept, { vendor := true }))
    (hout : readBytes {} out = (kept, .ok {})) (hframe : g.sawFrame = true) (hheld : g.held = [])
    (hkept : StepKept sj checks wire g c) (hpush : PushStep sj checks wire g c p t) :
    Faithful sj checks wire (bytes ++ c) (out ++ forwarded p) t := by
  cases hpush with
  | dropped h => rw [hdrop] at h; cases h
  | unread _ h => rw [hframe] at h; cases h
  | failed _ hfeed hfailed =>
    obtain ⟨hbefore, herror⟩ := hkept.failed hdrop _ _ _ _ _ hfeed hfailed
    rw [hreader] at hfeed
    obtain ⟨u, rfl, rfl, _, hall⟩ := readBytes_of_feed hread hfeed
    rw [hvendor] at hbefore
    exact faithful_failing rfl hall hpass hout hfailed hbefore herror rfl
  | opened _ _ _ _ h => rw [hvendor] at h; cases h
  | excepted _ hfeed =>
    rw [hreader] at hfeed
    obtain ⟨_, _, h, _⟩ := readBytes_of_feed hread hfeed
    cases h
  | noFrame _ hfeed =>
    rw [hreader] at hfeed
    obtain ⟨u, rfl, _, _, hall⟩ := readBytes_of_feed hread hfeed
    rw [List.append_nil] at hall
    have hhold : ∀ u : UpstreamFrames, pushPartial wire { g with reader := u } c =
        (.hold, { g with reader := u }) := by
      intro u
      rw [pushPartial, if_neg (by simp [hframe]), if_pos hvendor]
    rw [hhold]
    exact .vendor hall rfl hdrop hvendor hpass (by rwa [forwarded, List.append_nil]) hframe hheld
  | rewritten _ hfeed hfailed hne hseen =>
    obtain ⟨hwritten, _⟩ := hkept.rewritten hdrop _ _ _ hfeed hne hfailed hseen
    rw [hreader] at hfeed
    obtain ⟨u, rfl, _, _, hall⟩ := readBytes_of_feed hread hfeed
    rw [hvendor] at hwritten
    refine .vendor hall rfl hdrop rfl ?_ (formatAll_read hout hwritten.written) rfl rfl
    rw [pass_append, hpass, pass_kept rfl hfailed hwritten.dones]
    rfl
  | forwarded _ _ _ _ h => rw [hvendor] at h; cases h

theorem faithful_step_noFrame {frames : List SseFrame} {r u : SseFrameReader}
    (hread : readBytes {} (bytes ++ c) = (frames, .ok u)) (hreader : g.reader = .sse u)
    (hdrop : g.dropRest = false) (hvendor : g.sawVendorError = false)
    (hpass : pass sj checks wire {} frames = (frames, {}))
    (hout : readBytes {} (out ++ g.held) = (frames, .ok r)) (hchunk : readBytes r c = ([], .ok u))
    (hstart : g.sawFrame = false → out = [] ∧ frames = [])
    (hheld : g.sawFrame = true → (wire = .responses ∧ hasOpenFrame u = true) ∨ g.held = [])
    (hclosed : wire = .responses → readBytes {} out = (frames, .ok {})) :
    Faithful sj checks wire (bytes ++ c) (out ++ forwarded (pushPartial wire g c).1)
      (pushPartial wire g c).2 := by
  have hjoined : readBytes {} (out ++ (g.held ++ c)) = (frames, .ok u) := by
    rw [← List.append_assoc, readBytes_append, hout, andThen_ok, hchunk, List.append_nil]
  cases hframe : g.sawFrame with
  | false =>
    rw [pushPartial, if_pos (by simp [hframe])]
    simp only [forwarded, List.append_nil]
    exact .plain hread hreader hdrop hvendor hpass hjoined (fun _ => hstart hframe)
      (fun h => by rw [hframe] at h; cases h) hclosed
  | true =>
    rw [pushPartial, if_neg (by simp [hframe]), if_neg (by simp [hvendor])]
    have hopens : g.reader.hasOpenFrame = hasOpenFrame u := by
      rw [hreader]
      rfl
    split
    · rename_i hopen
      simp only [forwarded, List.append_nil]
      exact .plain hread hreader hdrop hvendor hpass hjoined
        (fun h => by rw [hframe] at h; cases h) (fun _ => .inl ⟨hopen.1, hopens ▸ hopen.2⟩) hclosed
    · rename_i hclose
      have hempty : g.held = [] := (hheld hframe).resolve_left fun h => hclose ⟨h.1, hopens ▸ h.2⟩
      rw [hempty, List.nil_append] at hjoined
      refine .plain hread hreader hdrop hvendor hpass ?_ (fun h => by rw [hframe] at h; cases h)
        (fun _ => .inr hempty) ?_
      · rwa [forwarded, hempty, List.append_nil]
      · intro hwire
        have hfinal : hasOpenFrame u = false := by
          rw [← hopens]
          exact Bool.eq_false_iff.mpr fun h => hclose ⟨hwire, h⟩
        rw [forwarded, hjoined, (readBytes_sound _ sound_new hread).closed hfinal]

theorem faithful_switch {frames more : List SseFrame} {r u : SseFrameReader}
    (hread : readBytes {} bytes = (frames, .ok r)) (hchunk : readBytes r c = (more, .ok u))
    (hout : readBytes {} out = (frames, .ok {}) ∨
      (readBytes {} out = (frames, .ok r) ∧ r.buffer = [] ∧ r.data = []))
    (hne : more ≠ []) (hmore : Rewritable sj false more) :
    readBytes {} (out ++ formatAll (keptFrames more)) = (frames ++ keptFrames more, .ok {}) := by
  rcases hout with hout | ⟨hout, hempty, hdata⟩
  · exact formatAll_read hout hmore.written
  · obtain ⟨raw, rest, rfl⟩ := List.exists_cons_of_ne_nil hne
    have hdone : sseDoneFrame raw = false := by
      have hdones := hmore.dones
      rw [donesAfterError, Bool.and_eq_true] at hdones
      simpa using hdones.1
    have hwritten := hmore.written
    rw [keptFrames_cons, if_neg (by simp [hdone])] at hwritten ⊢
    refine formatAll_cut hout hempty hdata (fun hevent => ?_) hwritten
    have hfields : r.hasFields = true := by
      cases hf : r.hasFields with
      | true => rfl
      | false =>
        rw [((readBytes_sound bytes sound_new hread).idle hf).1] at hevent
        cases hevent
    exact readBytes_event c hfields hevent hchunk

theorem faithful_step_plain {frames : List SseFrame} {r : SseFrameReader}
    (hread : readBytes {} bytes = (frames, .ok r)) (hreader : g.reader = .sse r)
    (hdrop : g.dropRest = false) (hvendor : g.sawVendorError = false)
    (hpass : pass sj checks wire {} frames = (frames, {}))
    (hout : readBytes {} (out ++ g.held) = (frames, .ok r))
    (hstart : g.sawFrame = false → out = [] ∧ frames = [])
    (hheld : g.sawFrame = true → (wire = .responses ∧ hasOpenFrame r = true) ∨ g.held = [])
    (hclosed : wire = .responses → readBytes {} out = (frames, .ok {}))
    (hkept : StepKept sj checks wire g c) (hpush : PushStep sj checks wire g c p t) :
    Faithful sj checks wire (bytes ++ c) (out ++ forwarded p) t := by
  cases hpush with
  | dropped h => rw [hdrop] at h; cases h
  | unread _ _ hfeed => exact absurd (congrArg Prod.fst hfeed) (hkept.reads hdrop _)
  | failed _ hfeed hfailed =>
    obtain ⟨hbefore, herror⟩ := hkept.failed hdrop _ _ _ _ _ hfeed hfailed
    rw [hreader] at hfeed
    obtain ⟨u, rfl, rfl, _, hall⟩ := readBytes_of_feed hread hfeed
    rw [hvendor] at hbefore
    exact faithful_failing rfl hall hpass (hclosed (splitFailed_responses hfailed)) hfailed hbefore
      herror rfl
  | opened _ hfeed hfailed hwire _ hopen hne hplain =>
    obtain ⟨hwritten, hrest⟩ :=
      hkept.opened hdrop _ _ _ hfeed hne hwire hvendor hopen hfailed hplain
    rw [hreader] at hfeed
    obtain ⟨u, rfl, _, _, hall⟩ := readBytes_of_feed hread hfeed
    have hpassed := pass_plain hfailed hplain
    have hsame := (pass_kept (s := {}) rfl hfailed hwritten.dones).symm.trans hpassed
    obtain ⟨hframes, _⟩ := Prod.mk.inj hsame
    have hclean := formatAll_read (hclosed hwire) hwritten.written
    rw [hframes] at hclean ⊢
    refine .plain hall rfl hdrop hvendor ?_ ?_ (fun h => nomatch h) (fun _ => .inl ⟨hwire, hopen⟩)
      fun _ => hclean
    · rw [pass_append, hpass, hpassed]
    · have hpending := readBytes_pendingWireBytes (readBytes_sound _ sound_new hall)
        (readBytes_capped _ capped_new hall) hrest
      change readBytes {} ((out ++ formatAll _) ++ pendingWireBytes u) = _
      rw [readBytes_append, hclean, andThen_ok, hpending, List.append_nil]
  | excepted _ hfeed =>
    rw [hreader] at hfeed
    obtain ⟨_, _, h, _⟩ := readBytes_of_feed hread hfeed
    cases h
  | noFrame _ hfeed =>
    have hjoined := hkept.joined hdrop _ _ hfeed
    rw [hreader] at hfeed hjoined
    obtain ⟨u, rfl, _, hchunk, hall⟩ := readBytes_of_feed hread hfeed
    rw [List.append_nil] at hall
    refine faithful_step_noFrame hall rfl hdrop hvendor hpass hout hchunk hstart ?_ hclosed
    intro hframe
    rcases hheld hframe with ⟨hwire, hopen⟩ | hempty
    · exact .inl ⟨hwire, hjoined hwire hvendor hframe hopen⟩
    · exact .inr hempty
  | rewritten _ hfeed hfailed hne hseen =>
    obtain ⟨hwritten, hcut⟩ := hkept.rewritten hdrop _ _ _ hfeed hne hfailed hseen
    rw [hreader] at hfeed hcut
    obtain ⟨u, rfl, _, hchunk, hall⟩ := readBytes_of_feed hread hfeed
    rw [hvendor] at hwritten
    have hbefore : readBytes {} out = (frames, .ok {}) ∨
        (readBytes {} out = (frames, .ok r) ∧ r.buffer = [] ∧ r.data = []) := by
      by_cases hwire : wire = .responses
      · exact .inl (hclosed hwire)
      · cases hframe : g.sawFrame with
        | false =>
          obtain ⟨rfl, rfl⟩ := hstart hframe
          exact .inl rfl
        | true =>
          have hempty := (hheld hframe).resolve_left fun h => hwire h.1
          rw [hempty, List.append_nil] at hout
          exact .inr ⟨hout, hcut hvendor hframe hwire⟩
    refine .vendor hall rfl hdrop rfl ?_ (faithful_switch hread hchunk hbefore hne hwritten) rfl rfl
    have hany := hseen.resolve_left (by simp [hvendor])
    rw [pass_append, hpass, pass_kept rfl hfailed hwritten.dones, hany]
    rfl
  | forwarded _ hfeed hfailed hne _ hplain hopen =>
    rw [hreader] at hfeed
    obtain ⟨u, rfl, _, hchunk, hall⟩ := readBytes_of_feed hread hfeed
    have hjoined : ∀ more, readBytes r c = (more, .ok u) →
        readBytes {} (out ++ (g.held ++ c)) = (frames ++ more, .ok u) := by
      intro more hmore
      rw [← List.append_assoc, readBytes_append, hout, andThen_ok, hmore]
    refine .plain hall rfl hdrop hvendor ?_ ?_ (fun h => nomatch h) (fun _ => .inr rfl) ?_
    · rw [pass_append, hpass, pass_plain hfailed hplain]
    · change readBytes {} ((out ++ (g.held ++ c)) ++ []) = _
      rw [List.append_nil]
      exact hjoined _ hchunk
    · intro hwire
      have hfinal : hasOpenFrame u = false := Bool.eq_false_iff.mpr fun h => hopen ⟨hwire, h⟩
      rw [forwarded, hjoined _ hchunk, (readBytes_sound _ sound_new hall).closed hfinal]

theorem faithful_step (h : Faithful sj checks wire bytes out g)
    (hkept : StepKept sj checks wire g c) (hpush : PushStep sj checks wire g c p t) :
    Faithful sj checks wire (bytes ++ c) (out ++ forwarded p) t := by
  cases h with
  | plain hread hreader hdrop hvendor hpass hout hstart hheld hclosed =>
    exact faithful_step_plain hread hreader hdrop hvendor hpass hout hstart hheld hclosed hkept hpush
  | vendor hread hreader hdrop hvendor hpass hout hframe hheld =>
    exact faithful_step_vendor hread hreader hdrop hvendor hpass hout hframe hheld hkept hpush
  | failed hdrop hpass hout => exact faithful_step_failed hdrop hpass hout hpush

theorem parsed_ok {seen : List SseFrame} {r : SseFrameReader}
    (h : readBytes {} bytes = (seen, .ok r)) :
    parsed bytes = seen ++ (finish r).toOption.join.toList := by
  rw [parsed, parse, h]

theorem parsed_closed {kept : List SseFrame} (h : readBytes {} bytes = (kept, .ok {})) :
    parsed bytes = kept := by
  rw [parsed_ok h]
  exact List.append_nil kept

theorem expected_ok {seen kept : List SseFrame} {s : Withholding} {r : SseFrameReader}
    (h : readBytes {} bytes = (seen, .ok r))
    (hpass : pass sj checks wire {} seen = (kept, s)) :
    expected sj checks wire bytes =
      kept ++ passLast sj checks wire s (SseReader.finish r).toOption.join := by
  rw [expected, parse, h]
  simp only [hpass]

theorem endBytes_noFrameEnd {body : List UInt8} (h : checks.completionToSse body = none) :
    endBytes (noFrameEnd checks body) = [] := by
  simp only [noFrameEnd, h]
  split <;> rfl

theorem endBytes_finishWith {g : SameWireGate} (more : List UInt8) (h : g.sawFrame = true) :
    endBytes (finishWith checks g more) = g.held ++ more := by
  simp only [finishWith, h, Bool.not_true, Bool.false_eq_true, if_false]
  split <;> rfl

theorem endBytes_noted {g : SameWireGate} (raw : SseFrame) (more : List UInt8)
    (h : g.sawFrame = true) :
    endBytes (finishWith checks (noteTerminal sj wire g raw) more) = g.held ++ more := by
  rw [noteTerminal]
  split <;> exact endBytes_finishWith more h

theorem finish_frames_plain {frames : List SseFrame} {r : SseFrameReader}
    (hread : readBytes {} bytes = (frames, .ok r)) (hreader : g.reader = .sse r)
    (hdrop : g.dropRest = false) (hvendor : g.sawVendorError = false)
    (hpass : pass sj checks wire {} frames = (frames, {}))
    (hout : readBytes {} (out ++ g.held) = (frames, .ok r))
    (hstart : g.sawFrame = false → out = [] ∧ frames = [])
    (hclosed : wire = .responses → readBytes {} out = (frames, .ok {}))
    (hend : EndKept checks g) :
    parsed (out ++ endBytes (SameWire.finish sj checks wire g)) = expected sj checks wire bytes := by
  have hheld := parsed_ok hout
  rw [expected_ok hread hpass, SameWire.finish, if_neg (by simp [hdrop]), hreader,
    UpstreamFrames.finish]
  cases hlast : SseReader.finish r with
  | error e =>
    rw [hlast] at hheld
    simp only [Except.toOption, Option.join_none, passLast]
    cases hframe : g.sawFrame with
    | false =>
      obtain ⟨rfl, rfl⟩ := hstart hframe
      rw [if_pos (by simp), endBytes_noFrameEnd (hend.stream hframe)]
      rfl
    | true =>
      rw [if_neg (by simp)]
      exact hheld
  | ok last =>
    rw [hlast] at hheld
    cases last with
    | none =>
      simp only [Except.toOption, Option.join_some, passLast]
      cases hframe : g.sawFrame with
      | false =>
        obtain ⟨rfl, rfl⟩ := hstart hframe
        rw [finishWith, if_pos (by simp [hframe]), List.append_nil,
          endBytes_noFrameEnd (hend.stream hframe)]
        rfl
      | true =>
        rw [endBytes_finishWith _ hframe, List.append_nil]
        exact hheld
    | some raw =>
      simp only [Except.toOption, Option.join_some, passLast, hvendor, Bool.false_and,
        Bool.false_or, Bool.or_false]
      cases hfailed : responsesFailedVendorError sj checks wire raw with
      | some msg =>
        have hwire := @splitFailed_responses _ _ _ [raw] _
          (by rw [splitFailed, hfailed])
        simp only [Option.isSome_some, if_true, endBytes, List.append_nil]
        exact parsed_closed (hclosed hwire)
      | none =>
        simp only [Option.isSome_none, Bool.false_eq_true, if_false]
        rw [endBytes_noted raw [] rfl, List.append_nil]
        exact hheld

theorem finish_frames_vendor {frames kept : List SseFrame} {r : SseFrameReader}
    (hread : readBytes {} bytes = (frames, .ok r)) (hreader : g.reader = .sse r)
    (hdrop : g.dropRest = false) (hvendor : g.sawVendorError = true)
    (hpass : pass sj checks wire {} frames = (kept, { vendor := true }))
    (hout : readBytes {} out = (kept, .ok {})) (hframe : g.sawFrame = true) (hheld : g.held = [])
    (hend : EndKept checks g) :
    parsed (out ++ endBytes (SameWire.finish sj checks wire g)) = expected sj checks wire bytes := by
  have hlasts := hend.last hvendor
  rw [hreader, UpstreamFrames.finish] at hlasts
  rw [expected_ok hread hpass, SameWire.finish, if_neg (by simp [hdrop]), hreader,
    UpstreamFrames.finish]
  cases hlast : SseReader.finish r with
  | error e =>
    simp only [hframe, hheld, Bool.not_true, Bool.false_eq_true, if_false, endBytes, List.append_nil,
      Except.toOption, Option.join_none, passLast]
    exact parsed_closed hout
  | ok last =>
    cases last with
    | none =>
      simp only [Except.toOption, Option.join_some, passLast]
      rw [endBytes_finishWith _ hframe, hheld]
      simpa using parsed_closed hout
    | some raw =>
      simp only [Except.toOption, Option.join_some, passLast, hvendor, Bool.true_and,
        Bool.false_or]
      cases hfailed : responsesFailedVendorError sj checks wire raw with
      | some msg =>
        simpa [endBytes] using parsed_closed hout
      | none =>
        simp only
        rw [endBytes_noted raw _ rfl]
        simp only [hheld, List.nil_append, Option.isSome_none, Bool.false_or]
        cases hprefix : doneFramePrefix raw with
        | true => simpa using parsed_closed hout
        | false =>
          have hall : readBytes {} (out ++ formatAll [raw]) = (kept ++ [raw], .ok {}) := by
            refine formatAll_read hout fun f hf => ?_
            rw [List.mem_singleton.mp hf]
            exact hlasts raw hlast hprefix
          simpa [formatAll] using parsed_closed hall

theorem finish_frames (h : Faithful sj checks wire bytes out g) (hend : EndKept checks g) :
    parsed (out ++ endBytes (SameWire.finish sj checks wire g)) = expected sj checks wire bytes := by
  cases h with
  | plain hread hreader hdrop hvendor hpass hout hstart hheld hclosed =>
    exact finish_frames_plain hread hreader hdrop hvendor hpass hout hstart hclosed hend
  | vendor hread hreader hdrop hvendor hpass hout hframe hheld =>
    exact finish_frames_vendor hread hreader hdrop hvendor hpass hout hframe hheld hend
  | @failed kept hdrop hpass hout =>
    have hfirst : (parse bytes).1 = (readBytes {} bytes).1 := by
      rw [parse]
      split <;> simp_all
    have hlast : ∀ last, passLast sj checks wire { vendor := true, failed := true } last = [] := by
      intro last
      cases last <;> simp [passLast]
    rw [SameWire.finish, if_pos hdrop, endBytes, List.append_nil, expected, hfirst, hpass]
    simp only
    rw [hlast, List.append_nil]
    exact parsed_closed hout

/-- In a run whose steps all meet the condition the client reads what upstream
wrote, less what is withheld. -/
theorem gate_transparent (sj : SerdeJson) (checks : BodyChecks) (wire : Wire)
    (chunks : List (List UInt8)) (outs : List SameWirePush) (g : SameWireGate)
    (hsse : wire ≠ .converse) (hrun : runGate sj checks wire chunks = .ok (outs, g))
    (hkept : StepsMeet (gateStep sj checks wire) (StepKept sj checks wire) (.new wire) chunks)
    (hend : EndKept checks g) :
    parsed (outs.flatMap forwarded ++ endBytes (SameWire.finish sj checks wire g)) =
      expected sj checks wire chunks.flatten := by
  have hall : Faithful sj checks wire chunks.flatten (outs.flatMap forwarded) g := by
    refine runAll_meets_invariant
      (fun seen out g => Faithful sj checks wire seen.flatten (out.flatMap forwarded) g) hrun hkept
      (faithful_new hsse) ?_
    intro before c out s more t hI hG hstep
    obtain ⟨p, rfl, hpush⟩ := gateStep_ok hstep
    simpa using faithful_step hI hG hpush
  exact finish_frames hall hend

theorem writable_vendorFrame : WritableFrame vendorFrame := by
  have hlines : vendorFrame.data.toList.splitOn '\n' = [vendorFrame.data.toList] := by
    decide +kernel
  refine ⟨fun e he => (nomatch he), ?_, ?_⟩
  · rw [hlines]
    intro l hl
    rw [List.mem_singleton.mp hl]
    exact ⟨by decide +kernel, by decide +kernel, by decide +kernel⟩
  · rw [hlines]
    decide +kernel

theorem rewritable_vendorFrame : Rewritable vendorJson false [vendorFrame] := by
  refine ⟨by decide +kernel, fun raw hraw => ?_⟩
  obtain rfl := List.mem_singleton.mp (List.mem_of_mem_filter hraw)
  exact writable_vendorFrame

theorem stepKept_vendorChunk :
    StepKept vendorJson noChecks .chatCompletions (.new .chatCompletions) vendorChunk := by
  have hfeed : UpstreamFrames.feed vendorJson vendorChunk
      (SameWireGate.new .chatCompletions).reader = (.ok ([vendorFrame], none), .sse {}) :=
    feed_vendorChunk
  refine ⟨?_, ?_, ?_, ?_, ?_⟩
  · intro _ err herr
    rw [hfeed] at herr
    cases herr
  · intro _ frames exception reader before msg _ hfailed
    cases splitFailed_responses hfailed
  · intro _ frames exception reader hread _ _ _
    rw [hfeed] at hread
    cases hread
    exact ⟨rewritable_vendorFrame, fun _ hframe => nomatch hframe⟩
  · intro _ frames exception reader _ _ hwire
    cases hwire
  · intro _ exception reader _ hwire
    cases hwire

theorem gate_transparent_error :
    parsed ([SameWirePush.forward (formatSse vendorFrame)].flatMap forwarded ++
      endBytes (SameWire.finish vendorJson noChecks .chatCompletions vendorGate)) =
        expected vendorJson noChecks .chatCompletions [vendorChunk].flatten := by
  refine gate_transparent _ _ _ _ _ _ (by decide) runGate_vendorChunk
    ⟨stepKept_vendorChunk, fun _ _ _ => trivial⟩ ⟨fun _ => rfl, fun _ raw hlast => ?_⟩
  cases hlast

def vendorHead : List UInt8 := vendorChunk.take 10

def vendorTail : List UInt8 := vendorChunk.drop 10

theorem feed_oneFrame : UpstreamFrames.feed vendorJson oneFrame (.sse {}) =
    (.ok ([⟨none, "x"⟩], none), .sse {}) := rfl

theorem feed_vendorHead : UpstreamFrames.feed vendorJson vendorHead (.sse {}) =
    (.ok ([], none), .sse { buffer := vendorHead }) := rfl

theorem feed_vendorTail : UpstreamFrames.feed vendorJson vendorTail (.sse { buffer := vendorHead }) =
    (.ok ([vendorFrame], none), .sse {}) := rfl

theorem parsed_torn : parsed (oneFrame ++ vendorHead ++ formatSse vendorFrame) =
    [⟨none, "x"⟩, ⟨none, "\x7b\"errdata: \x7b\"error\":\"e\"\x7d"⟩] := by
  decide +kernel

def plainGate (r : SseFrameReader) : SameWireGate := { reader := .sse r, sawFrame := true }

theorem push_oneFrame :
    push vendorJson noChecks .chatCompletions (.new .chatCompletions) oneFrame =
      (.ok (.forward oneFrame), plainGate {}) := by
  have hfailed : splitFailed vendorJson noChecks .chatCompletions [⟨none, "x"⟩] = none := rfl
  have hplain : [(⟨none, "x"⟩ : SseFrame)].any (isWrappedError vendorJson) = false := by
    decide +kernel
  have hterminal : [(⟨none, "x"⟩ : SseFrame)].any (endsStream vendorJson .chatCompletions) = false := by
    decide +kernel
  rw [push, if_neg (by decide), if_neg (by decide)]
  simp only [SameWireGate.new, UpstreamFrames.forWire, feed_oneFrame, hfailed]
  rw [if_neg (by simp), if_neg (by simp), if_neg (by simp), pushFrames_plain _ _ rfl hplain]
  simp only [notedAll, hterminal]
  rfl

theorem push_vendorHead :
    push vendorJson noChecks .chatCompletions (plainGate {}) vendorHead =
      (.ok (.forward vendorHead), plainGate { buffer := vendorHead }) := by
  rw [push, if_neg (by decide), if_neg (by decide)]
  simp only [plainGate, feed_vendorHead]
  rfl

theorem push_vendorTail :
    push vendorJson noChecks .chatCompletions (plainGate { buffer := vendorHead }) vendorTail =
      (.ok (.forward (formatSse vendorFrame)), vendorGate) := by
  have hfailed : splitFailed vendorJson noChecks .chatCompletions [vendorFrame] = none := rfl
  rw [push, if_neg (by decide), if_neg (by decide)]
  simp only [plainGate, feed_vendorTail, hfailed]
  rw [if_neg (by simp), if_neg (by simp), if_neg (by simp), pushFrames]
  simp only [List.any_cons, isWrappedError_vendorFrame, Bool.true_or, if_true, rewrite_vendorFrame]
  rfl

/-- A vendor error that comes in two chunks is torn: its first part was forwarded already. -/
theorem gate_tears_vendor_error : ¬ ∀ (sj : SerdeJson) (checks : BodyChecks) (wire : Wire)
    (chunks : List (List UInt8)) (outs : List SameWirePush) (g : SameWireGate),
    wire ≠ .converse → runGate sj checks wire chunks = .ok (outs, g) →
      parsed (outs.flatMap forwarded ++ endBytes (SameWire.finish sj checks wire g)) =
        expected sj checks wire chunks.flatten := by
  intro hall
  have hrun : runGate vendorJson noChecks .chatCompletions [oneFrame, vendorHead, vendorTail] =
      .ok ([.forward oneFrame, .forward vendorHead, .forward (formatSse vendorFrame)], vendorGate) := by
    simp only [runGate, runAll, gateStep, push_oneFrame, push_vendorHead, push_vendorTail]
    rfl
  have hsame := hall _ _ _ _ _ _ (by decide) hrun
  have hout : [SameWirePush.forward oneFrame, .forward vendorHead,
      .forward (formatSse vendorFrame)].flatMap forwarded ++
        endBytes (SameWire.finish vendorJson noChecks .chatCompletions vendorGate) =
      oneFrame ++ vendorHead ++ formatSse vendorFrame := by
    have hend : endBytes (SameWire.finish vendorJson noChecks .chatCompletions vendorGate) = [] := rfl
    rw [hend]
    simp [forwarded]
  have hexpected : expected vendorJson noChecks .chatCompletions
      [oneFrame, vendorHead, vendorTail].flatten = [⟨none, "x"⟩, vendorFrame] := by
    decide +kernel
  rw [hout, parsed_torn, hexpected] at hsame
  revert hsame
  decide +kernel

end Wiremux.GateTransparency
