import Mathlib
import Wiremux.SsePartialLines

set_option autoImplicit false

/-!
# The end of the input and a blank line

`finish` takes every carriage return off the last line, the loop of `feed` only
one. So the two agree on the last line unless what it says depends on the
others, or it breaks the data cap after frames that `feed` then loses.
-/
namespace Wiremux.SseEndOfInput
open Utf8Lossy SseReader ChunkedReading SseChunking SseWriting SseRoundTrip PercentDecoding SseReadBack
  SseWrittenFrames SsePartialLines

variable {r t : SseFrameReader} {line : List Char} {fs : List SseFrame}

def lastFrame (line : List Char) (r : SseFrameReader) : Except String (Option SseFrame) :=
  match pushLine line r with
  | .error e => .error e
  | .ok (some frame, _) => .ok (some frame)
  | .ok (none, r) => .ok (takeFrame r).1

theorem finish_eq (hne : r.buffer ≠ []) :
    finish r = lastFrame (trimReturns (fromUtf8Lossy r.buffer)) { r with buffer := [] } := by
  have hempty : r.buffer.isEmpty = false := by simpa using hne
  rw [finish, hempty]
  rfl

theorem finish_idle (hempty : r.buffer = []) : finish r = .ok (takeFrame r).1 := by
  rw [finish, hempty]
  rfl

theorem takeFrame_closed (hsound : Sound r) (hempty : r.buffer = []) : (takeFrame r).2 = {} := by
  refine (takeFrame_sound hsound).closed ?_
  rw [hasOpenFrame, takeFrame_buffer, hempty]
  unfold takeFrame
  split
  · rfl
  · simp_all

theorem pushLine_blank (r : SseFrameReader) : pushLine [] r = .ok (takeFrame r) := rfl

theorem readBytes_blank (hsound : Sound r) (hempty : r.buffer = []) :
    readBytes r [newline] = ((takeFrame r).1.toList, .ok {}) := by
  have hback : { r with buffer := [] } = r := by rw [← hempty]
  have hdrop : fromUtf8Lossy (dropReturn []) = [] := rfl
  rw [readBytes, if_pos rfl, endLine, hempty, hdrop, pushLine_blank, hback]
  simp [readBytes, takeFrame_closed hsound hempty]

theorem pushLine_frame {frame : SseFrame} (h : pushLine line r = .ok (some frame, t)) :
    line = [] := by
  by_contra hne
  have hempty : line.isEmpty = false := by simpa using hne
  unfold pushLine at h
  rw [hempty] at h
  simp only [Bool.false_eq_true, if_false] at h
  split at h
  · cases (Prod.mk.inj (Except.ok.inj h)).1
  · split at h
    · cases (Prod.mk.inj (Except.ok.inj h)).1
    · split at h
      · cases hdata : pushData (splitField line).2 r with
        | error e =>
          rw [hdata] at h
          cases h
        | ok u =>
          rw [hdata] at h
          cases (Prod.mk.inj (Except.ok.inj h)).1
      · split at h
        · cases (Prod.mk.inj (Except.ok.inj h)).1
        · cases (Prod.mk.inj (Except.ok.inj h)).1

theorem readBytes_blankLines (hsound : Sound r) :
    readBytes r [newline, newline] =
      match lastFrame (lineText r.buffer) { r with buffer := [] } with
      | .error e => ([], .error e)
      | .ok frame => (frame.toList, .ok {}) := by
  have hsplit : [newline, newline] = newline :: [newline] := rfl
  rw [hsplit, readBytes, if_pos rfl, endLine, lastFrame, ← lineText]
  cases hpush : pushLine (lineText r.buffer) { r with buffer := [] } with
  | error e => rfl
  | ok out =>
    obtain ⟨frame, u⟩ := out
    have hempty : u.buffer = [] := pushLine_buffer hpush
    have hu : Sound u := pushLine_sound (hsound.buffer []) hpush
    rw [andThen_ok, readBytes_blank hu hempty]
    cases frame with
    | none => rfl
    | some frame =>
      have hblank := pushLine_frame hpush
      rw [hblank, pushLine_blank] at hpush
      have htaken : u = {} := by
        rw [← takeFrame_closed (hsound.buffer []) rfl, Except.ok.inj hpush]
      rw [htaken]
      rfl

theorem trimReturns_concat (line : List Char) : trimReturns (line ++ ['\r']) = trimReturns line := by
  simp [trimReturns]

theorem trimReturns_of_ne (h : line.getLast? ≠ some '\r') : trimReturns line = line := by
  rcases List.eq_nil_or_concat line with rfl | ⟨front, c, rfl⟩
  · rfl
  · rw [List.concat_eq_append, List.getLast?_concat] at h
    have hc : c ≠ '\r' := fun heq => h (congrArg some heq)
    simp [trimReturns, hc]

theorem trimReturns_spec (line : List Char) :
    ∃ n, line = trimReturns line ++ List.replicate n '\r' := by
  induction line using List.reverseRecOn with
  | nil => exact ⟨0, rfl⟩
  | append_singleton front c ih =>
    by_cases hc : c = '\r'
    · obtain ⟨n, hn⟩ := ih
      refine ⟨n + 1, ?_⟩
      rw [hc, trimReturns_concat, List.replicate_succ', ← List.append_assoc, ← hn]
    · refine ⟨0, ?_⟩
      have hlast : (front ++ [c]).getLast? ≠ some '\r' := by
        rw [List.getLast?_concat]
        exact fun heq => hc (Option.some.inj heq)
      rw [trimReturns_of_ne hlast, List.replicate_zero, List.append_nil]

theorem trimReturns_lineText (bytes : List UInt8) :
    trimReturns (fromUtf8Lossy bytes) = trimReturns (lineText bytes) := by
  by_cases hlast : bytes.getLast? = some carriageReturn
  · obtain ⟨front, rfl⟩ := List.getLast?_eq_some_iff.mp hlast
    have hascii : carriageReturn.toNat < 0x80 := by decide
    rw [lineText, dropReturn_concat, fromUtf8Lossy_around hascii front []]
    exact trimReturns_concat _
  · rw [lineText, dropReturn, if_neg hlast]

/-- The value does not fit the data cap. -/
def BreaksCap (r : SseFrameReader) (value : String) : Prop :=
  maxSsePending < r.dataBytes + if r.data.isEmpty then value.utf8ByteSize else value.utf8ByteSize + 1

instance (r : SseFrameReader) (value : String) : Decidable (BreaksCap r value) :=
  inferInstanceAs (Decidable (_ < _))

theorem pushData_breaks {value : String} (h : BreaksCap r value) :
    pushData value r = .error dataTooLong := if_pos h

theorem pushData_fits {value : String} (h : ¬ BreaksCap r value) :
    ∃ counted, pushData value r = .ok { r with
      data := r.data ++ [value]
      dataBytes := counted
      hasFields := true } := ⟨_, if_neg h⟩

theorem lastFrame_eq (line : List Char) (r : SseFrameReader) : lastFrame line r =
    if (splitField line).1 = "event" then
      .ok (some ⟨some (splitField line).2, "\n".intercalate r.data⟩)
    else if (splitField line).1 = "data" then
      if BreaksCap r (splitField line).2 then .error dataTooLong
      else .ok (some ⟨r.event, "\n".intercalate (r.data ++ [(splitField line).2])⟩)
    else if (splitField line).1 = "id" ∨ (splitField line).1 = "retry" then
      .ok (some ⟨r.event, "\n".intercalate r.data⟩)
    else .ok (takeFrame r).1 := by
  rw [lastFrame]
  cases line with
  | nil =>
    have hname : (splitField []).1 = "" := rfl
    rw [pushLine_blank, hname, if_neg (by decide), if_neg (by decide), if_neg (by decide)]
    cases hfields : r.hasFields with
    | true => simp [takeFrame, hfields]
    | false => simp [takeFrame, hfields]
  | cons c rest =>
    have hempty : ¬ (c :: rest).isEmpty = true := by simp
    rw [pushLine, if_neg hempty]
    by_cases hc : c = ':'
    · have hhead : (c :: rest).head? = some ':' := by simp [hc]
      have hname : (splitField (c :: rest)).1 = "" := by
        rw [hc]
        exact congrArg Prod.fst (splitField_colon List.not_mem_nil rest)
      rw [if_pos hhead, hname, if_neg (by decide), if_neg (by decide), if_neg (by decide)]
    · have hhead : ¬ (c :: rest).head? = some ':' := by simp [hc]
      rw [if_neg hhead]
      simp only
      by_cases hevent : (splitField (c :: rest)).1 = "event"
      · rw [if_pos hevent, if_pos hevent]
        simp [takeFrame]
      · rw [if_neg hevent, if_neg hevent]
        by_cases hdata : (splitField (c :: rest)).1 = "data"
        · rw [if_pos hdata, if_pos hdata]
          by_cases hbreak : BreaksCap r (splitField (c :: rest)).2
          · rw [pushData_breaks hbreak, if_pos hbreak]
            rfl
          · obtain ⟨counted, hpush⟩ := pushData_fits hbreak
            rw [hpush, if_neg hbreak]
            rfl
        · rw [if_neg hdata, if_neg hdata]
          by_cases hother : (splitField (c :: rest)).1 = "id" ∨ (splitField (c :: rest)).1 = "retry"
          · rw [if_pos hother, if_pos hother]
            simp [takeFrame]
          · rw [if_neg hother, if_neg hother]

theorem stripBlank_append (value : List Char) (n : ℕ) :
    stripBlank (value ++ List.replicate n '\r') = stripBlank value ++ List.replicate n '\r' := by
  cases value with
  | nil => cases n <;> rfl
  | cons c rest =>
    by_cases hc : c = ' '
    · rw [hc]
      rfl
    · rw [List.cons_append]
      unfold stripBlank
      split
      · rename_i heq
        exact absurd (List.cons.inj heq).1 hc
      · split
        · rename_i heq
          exact absurd (List.cons.inj heq).1 hc
        · rfl

theorem splitField_returns (hcolon : ':' ∈ line) (n : ℕ) :
    splitField (line ++ List.replicate n '\r') =
      ((splitField line).1, (splitField line).2 ++ String.ofList (List.replicate n '\r')) := by
  obtain ⟨name, value, rfl, hname⟩ := List.eq_append_cons_of_mem hcolon
  rw [List.append_assoc, List.cons_append, splitField_colon hname, splitField_colon hname,
    stripBlank_append, String.ofList_append]

theorem lastFrame_returnName (hcolon : ':' ∉ line) (hlast : line.getLast? = some '\r') :
    lastFrame line r = .ok (takeFrame r).1 := by
  have hne : ∀ name : String, name.toList.getLast? ≠ some '\r' → String.ofList line ≠ name := by
    intro name hname heq
    rw [← heq, String.toList_ofList] at hname
    exact hname hlast
  rw [lastFrame_eq, splitField_plain hcolon, if_neg (hne _ (by decide)), if_neg (hne _ (by decide)),
    if_neg]
  rintro (h | h)
  · exact hne "id" (by decide) h
  · exact hne "retry" (by decide) h

theorem joined_concat (data : List String) :
    ∃ front : String, (data ≠ [] → front = "\n".intercalate data ++ "\n") ∧
      ∀ value, "\n".intercalate (data ++ [value]) = front ++ value := by
  cases data with
  | nil => exact ⟨"", fun h => absurd rfl h, fun value => by simp⟩
  | cons d rest =>
    refine ⟨"\n".intercalate (d :: rest) ++ "\n", fun _ => rfl, ?_⟩
    intro value
    induction rest generalizing d with
    | nil => simp
    | cons e rest ih =>
      have h := ih e
      simp only [List.cons_append, String.intercalate_cons_cons] at h ⊢
      rw [h]
      simp only [String.append_assoc]

theorem append_returns_ne (value : String) {n : ℕ} (hn : 0 < n) :
    value ++ String.ofList (List.replicate n '\r') ≠ value := by
  intro heq
  have hlength := congrArg (fun s => s.toList.length) heq
  simp only [String.toList_append, String.toList_ofList, List.length_append,
    List.length_replicate] at hlength
  omega

/-- The line says the same with more carriage returns: its value is not used,
or it does not fit the cap in any case; a name without a colon, which they
spoil, says nothing that is not in the frame already. -/
def ReturnsIgnored (r : SseFrameReader) (line : List Char) : Prop :=
  let field := splitField line
  if ':' ∈ line then field.1 ≠ "event" ∧ (field.1 = "data" → BreaksCap r field.2)
  else (field.1 = "event" → r.event = some "") ∧
    (field.1 = "data" → r.data = [] ∧ r.hasFields = true) ∧
    (field.1 = "id" ∨ field.1 = "retry" → r.hasFields = true)

theorem breaksCap_append {value more : String} (h : BreaksCap r value) : BreaksCap r (value ++ more) := by
  unfold BreaksCap at h ⊢
  rw [String.utf8ByteSize_append]
  split at h
  · rename_i hdata
    rw [if_pos hdata]
    omega
  · rename_i hdata
    rw [if_neg hdata]
    omega

theorem frame_inj {event event' : Option String} {data data' : String}
    (h : (Except.ok (some ⟨event, data⟩) : Except String (Option SseFrame)) =
      .ok (some ⟨event', data'⟩)) : event = event' ∧ data = data' :=
  (SseFrame.mk.injEq _ _ _ _).mp (Option.some.inj (Except.ok.inj h))

theorem lastFrame_returns_colon (hcolon : ':' ∈ line) {n : ℕ} (hn : 0 < n) :
    lastFrame (line ++ List.replicate n '\r') r = lastFrame line r ↔ ReturnsIgnored r line := by
  rw [ReturnsIgnored, if_pos hcolon, lastFrame_eq, lastFrame_eq line, splitField_returns hcolon]
  simp only
  generalize splitField line = field
  by_cases hevent : field.1 = "event"
  · rw [if_pos hevent, if_pos hevent]
    constructor
    · intro h
      exact absurd (Option.some.inj (frame_inj h).1) (append_returns_ne _ hn)
    · intro h
      exact absurd hevent h.1
  · rw [if_neg hevent, if_neg hevent]
    by_cases hdata : field.1 = "data"
    · rw [if_pos hdata, if_pos hdata]
      by_cases hbreak : BreaksCap r field.2
      · rw [if_pos hbreak, if_pos (breaksCap_append hbreak)]
        exact iff_of_true rfl ⟨hevent, fun _ => hbreak⟩
      · rw [if_neg hbreak]
        refine iff_of_false ?_ fun h => hbreak (h.2 hdata)
        split
        · nofun
        · intro h
          obtain ⟨front, _, hjoin⟩ := joined_concat r.data
          have hvalue := (frame_inj h).2
          rw [hjoin, hjoin] at hvalue
          exact append_returns_ne field.2 hn (by simpa using hvalue)
    · rw [if_neg hdata, if_neg hdata]
      exact iff_of_true rfl ⟨hevent, fun h => absurd h hdata⟩

theorem takeFrame_none (hfields : r.hasFields = false) : (takeFrame r).1 = none := by
  rw [takeFrame, hfields]
  rfl

/-- A line that only names the event is in the frame already when its name is empty. -/
theorem takeFrame_eq_named (hsound : Sound r) :
    (Except.ok (takeFrame r).1 : Except String (Option SseFrame)) =
      .ok (some ⟨some "", "\n".intercalate r.data⟩) ↔ r.event = some "" := by
  constructor
  · intro h
    cases hfields : r.hasFields with
    | true =>
      rw [takeFrame_event hfields] at h
      exact (frame_inj h).1
    | false =>
      rw [takeFrame_none hfields] at h
      cases Except.ok.inj h
  · intro hname
    have hfields : r.hasFields = true := by
      by_contra hno
      rw [(hsound.idle (by simpa using hno)).1] at hname
      cases hname
    rw [takeFrame_event hfields, hname]

/-- An empty data line is in the frame already when it is the only one. -/
theorem takeFrame_eq_line (hsound : Sound r) :
    (Except.ok (takeFrame r).1 : Except String (Option SseFrame)) =
      (if BreaksCap r "" then .error dataTooLong
        else .ok (some ⟨r.event, "\n".intercalate (r.data ++ [""])⟩)) ↔
      r.data = [] ∧ r.hasFields = true := by
  constructor
  · intro h
    split at h
    · cases h
    · cases hfields : r.hasFields with
      | true =>
        refine ⟨?_, rfl⟩
        by_contra hne
        obtain ⟨front, hfront, hjoin⟩ := joined_concat r.data
        rw [takeFrame_event hfields, hjoin, hfront hne, String.append_empty] at h
        have hlength := congrArg (fun s => s.toList.length) (frame_inj h).2
        have hnewline : "\n".toList.length = 1 := by decide
        simp only [String.toList_append, List.length_append, hnewline] at hlength
        omega
      | false =>
        rw [takeFrame_none hfields] at h
        cases Except.ok.inj h
  · rintro ⟨hempty, hfields⟩
    have hroom : ¬ BreaksCap r "" := by
      rw [BreaksCap, hempty]
      exact Nat.not_lt.mpr hsound.sized
    rw [if_neg hroom, takeFrame_event hfields, hempty]
    rfl

theorem takeFrame_eq_same :
    (Except.ok (takeFrame r).1 : Except String (Option SseFrame)) =
      .ok (some ⟨r.event, "\n".intercalate r.data⟩) ↔ r.hasFields = true := by
  cases hfields : r.hasFields with
  | true => exact iff_of_true (by rw [takeFrame_event hfields]) rfl
  | false =>
    rw [takeFrame_none hfields]
    exact iff_of_false (fun h => by cases Except.ok.inj h) (by simp)

theorem lastFrame_returns_plain (hsound : Sound r) (hcolon : ':' ∉ line) {n : ℕ} (hn : 0 < n) :
    lastFrame (line ++ List.replicate n '\r') r = lastFrame line r ↔ ReturnsIgnored r line := by
  have hspoiled : lastFrame (line ++ List.replicate n '\r') r = .ok (takeFrame r).1 := by
    refine lastFrame_returnName ?_ ?_
    · intro hmem
      rcases List.mem_append.mp hmem with hmem | hmem
      · exact hcolon hmem
      · exact absurd (List.eq_of_mem_replicate hmem) (by decide)
    · obtain ⟨m, rfl⟩ := Nat.exists_eq_succ_of_ne_zero hn.ne'
      rw [List.replicate_succ', ← List.append_assoc]
      exact List.getLast?_concat
  rw [hspoiled, ReturnsIgnored, if_neg hcolon, lastFrame_eq, splitField_plain hcolon]
  simp only
  generalize String.ofList line = name
  by_cases hevent : name = "event"
  · subst hevent
    have hnames : ¬ "event" = "data" ∧ ¬ ("event" = "id" ∨ "event" = "retry") := by decide
    rw [if_pos rfl, takeFrame_eq_named hsound]
    exact ⟨fun h => ⟨fun _ => h, fun hname => absurd hname hnames.1, fun hname => absurd hname hnames.2⟩,
      fun h => h.1 rfl⟩
  · rw [if_neg hevent]
    by_cases hdata : name = "data"
    · subst hdata
      have hnames : ¬ ("data" = "id" ∨ "data" = "retry") := by decide
      rw [if_pos rfl, takeFrame_eq_line hsound]
      exact ⟨fun h => ⟨fun hname => absurd hname hevent, fun _ => h, fun hname => absurd hname hnames⟩,
        fun h => h.2.1 rfl⟩
    · rw [if_neg hdata]
      by_cases hother : name = "id" ∨ name = "retry"
      · rw [if_pos hother, takeFrame_eq_same]
        exact ⟨fun h => ⟨fun hname => absurd hname hevent, fun hname => absurd hname hdata, fun _ => h⟩,
          fun h => h.2.2 hother⟩
      · rw [if_neg hother]
        exact iff_of_true rfl ⟨fun hname => absurd hname hevent, fun hname => absurd hname hdata,
          fun hname => absurd hname hother⟩

/-- The last line, with its carriage returns off, is data over the cap only
where no frame was read; and where it has more than one they are ignored. -/
structure EndAgrees (fs : List SseFrame) (r : SseFrameReader) : Prop where
  kept : (splitField (trimReturns (lineText r.buffer))).1 = "data" →
    BreaksCap r (splitField (trimReturns (lineText r.buffer))).2 → fs = []
  returns : (lineText r.buffer).getLast? = some '\r' →
    ReturnsIgnored r (trimReturns (lineText r.buffer))

/-- The end of the input keeps the frames before a broken cap. -/
def finished (fs : List SseFrame) (last : Except String (Option SseFrame)) :
    List SseFrame × Option String :=
  match last with
  | .error e => (fs, some e)
  | .ok frame => (fs ++ frame.toList, none)

def looped (fs : List SseFrame) (last : Except String (Option SseFrame)) :
    List SseFrame × Option String :=
  match last with
  | .error e => ([], some e)
  | .ok frame => (fs ++ frame.toList, none)

theorem finished_eq_looped {last last' : Except String (Option SseFrame)} :
    finished fs last = looped fs last' ↔ last' = last ∧ ∀ e, last = .error e → fs = [] := by
  cases last with
  | error e =>
    cases last' with
    | error e' =>
      constructor
      · intro h
        obtain ⟨hfs, he⟩ := Prod.mk.inj h
        exact ⟨congrArg Except.error (Option.some.inj he).symm, fun _ _ => hfs⟩
      · rintro ⟨h, hfs⟩
        exact Prod.ext (hfs e rfl) (congrArg some (Except.error.inj h).symm)
    | ok frame =>
      refine iff_of_false ?_ ?_
      · intro h
        cases (Prod.mk.inj h).2
      · rintro ⟨h, _⟩
        cases h
  | ok frame =>
    cases last' with
    | error e' =>
      refine iff_of_false ?_ ?_
      · intro h
        cases (Prod.mk.inj h).2
      · rintro ⟨h, _⟩
        cases h
    | ok frame' =>
      constructor
      · intro h
        have hframes := List.append_cancel_left (Prod.mk.inj h).1
        refine ⟨congrArg Except.ok ?_, nofun⟩
        cases frame with
        | none =>
          cases frame' with
          | none => rfl
          | some f => cases hframes
        | some g =>
          cases frame' with
          | none => cases hframes
          | some f => exact congrArg some (List.cons.inj hframes).1.symm
      · rintro ⟨h, _⟩
        rw [Except.ok.inj h]
        rfl

theorem lastFrame_error (line : List Char) (r : SseFrameReader) :
    (∃ e, lastFrame line r = .error e) ↔
      (splitField line).1 = "data" ∧ BreaksCap r (splitField line).2 := by
  rw [lastFrame_eq]
  constructor
  · rintro ⟨e, h⟩
    split at h
    · cases h
    · split at h
      · rename_i hdata
        split at h
        · rename_i hbreak
          exact ⟨hdata, hbreak⟩
        · cases h
      · split at h
        · cases h
        · cases h
  · rintro ⟨hdata, hbreak⟩
    have hevent : ¬ (splitField line).1 = "event" := by
      rw [hdata]
      decide
    exact ⟨dataTooLong, by rw [if_neg hevent, if_pos hdata, if_pos hbreak]⟩

theorem finish_lastFrame (r : SseFrameReader) :
    finish r = lastFrame (trimReturns (lineText r.buffer)) { r with buffer := [] } := by
  by_cases hempty : r.buffer = []
  · have hline : trimReturns (lineText []) = [] := rfl
    have hback : { r with buffer := [] } = r := by rw [← hempty]
    rw [finish_idle hempty, hempty, hline, hback, lastFrame_eq, splitField_plain (by simp),
      if_neg (by decide), if_neg (by decide), if_neg (by decide)]
  · rw [finish_eq hempty, trimReturns_lineText]

theorem readAll_finished {bytes : List UInt8} (h : readBytes {} bytes = (fs, .ok r)) :
    readAll [bytes] = finished fs (finish r) := by
  have hread : dropping (fun _ => true) readBytes {} bytes = (fs, .ok r) := by
    rw [dropping, h]
    rfl
  rw [readAll, feedAll_eq, feedAll_singleton, hread]
  dsimp only
  cases finish r with
  | error e => rfl
  | ok last => rfl

theorem readAll_looped {bytes : List UInt8} (h : readBytes {} bytes = (fs, .ok r)) :
    readAll [bytes ++ [newline, newline]] =
      looped fs (lastFrame (lineText r.buffer) { r with buffer := [] }) := by
  have hsound : Sound r := readBytes_sound bytes sound_new h
  have hread := readBytes_append {} bytes [newline, newline]
  rw [h, andThen_ok, readBytes_blankLines hsound] at hread
  cases hlast : lastFrame (lineText r.buffer) { r with buffer := [] } with
  | error e =>
    rw [hlast] at hread
    exact readAll_error hread
  | ok frame =>
    rw [hlast] at hread
    exact readAll_ok hread

theorem lastFrame_returns (hsound : Sound r) {n : ℕ} (hn : 0 < n) (line : List Char) :
    lastFrame (line ++ List.replicate n '\r') r = lastFrame line r ↔ ReturnsIgnored r line := by
  by_cases hcolon : ':' ∈ line
  · exact lastFrame_returns_colon hcolon hn
  · exact lastFrame_returns_plain hsound hcolon hn

theorem trimReturns_getLast (line : List Char) : (trimReturns line).getLast? ≠ some '\r' := by
  induction line using List.reverseRecOn with
  | nil => nofun
  | append_singleton front c ih =>
    by_cases hc : c = '\r'
    · rw [hc, trimReturns_concat]
      exact ih
    · have hlast : (front ++ [c]).getLast? ≠ some '\r' := by
        rw [List.getLast?_concat]
        exact fun heq => hc (Option.some.inj heq)
      rwa [trimReturns_of_ne hlast]

theorem lastFrame_trimmed (hsound : Sound r) (line : List Char) :
    lastFrame line r = lastFrame (trimReturns line) r ↔
      (line.getLast? = some '\r' → ReturnsIgnored r (trimReturns line)) := by
  by_cases hlast : line.getLast? = some '\r'
  · obtain ⟨n, hn⟩ := trimReturns_spec line
    have hpos : 0 < n := by
      refine Nat.pos_of_ne_zero ?_
      rintro rfl
      rw [List.replicate_zero, List.append_nil] at hn
      rw [hn] at hlast
      exact trimReturns_getLast line hlast
    have hsame := lastFrame_returns hsound hpos (trimReturns line)
    rw [← hn] at hsame
    rw [hsame]
    exact ⟨fun h _ => h, fun h => h hlast⟩
  · rw [trimReturns_of_ne hlast]
    exact iff_of_true rfl fun h => absurd h hlast

/-- The end of the input acts as a blank line exactly when the last line agrees. -/
theorem end_of_input_is_blank_line (bytes : List UInt8) :
    readAll [bytes] = readAll [bytes ++ [newline, newline]] ↔
      ∀ fs r, readBytes {} bytes = (fs, .ok r) → EndAgrees fs r := by
  cases hread : readBytes {} bytes with
  | mk fs next =>
    cases next with
    | error e =>
      rw [readAll_error hread, readAll_error (readBytes_append_error hread _)]
      exact iff_of_true rfl fun _ _ h => nomatch (Prod.mk.inj h).2
    | ok r =>
      have hsound : Sound r := readBytes_sound bytes sound_new hread
      have hsame := lastFrame_trimmed (hsound.buffer []) (lineText r.buffer)
      have herror := lastFrame_error (trimReturns (lineText r.buffer)) { r with buffer := [] }
      rw [readAll_finished hread, readAll_looped hread, finish_lastFrame, finished_eq_looped, hsame]
      constructor
      · rintro ⟨hreturns, hkept⟩ fs' r' h
        obtain ⟨rfl, hr⟩ := Prod.mk.inj h
        obtain rfl := Except.ok.inj hr
        refine ⟨?_, hreturns⟩
        intro hdata hbreak
        obtain ⟨e, he⟩ := herror.mpr ⟨hdata, hbreak⟩
        exact hkept e he
      · intro h
        obtain ⟨hkept, hreturns⟩ := h fs r rfl
        refine ⟨hreturns, ?_⟩
        intro e he
        obtain ⟨hdata, hbreak⟩ := herror.mp ⟨e, he⟩
        exact hkept hdata hbreak

def openReturns : List UInt8 :=
  [0x64, 0x61, 0x74, 0x61, 0x3A, 0x20, 0x78, carriageReturn, carriageReturn]

/-- The end of the input drops both, a line end one. -/
theorem end_of_input_drops_returns : ¬ ∀ bytes : List UInt8,
    readAll [bytes] = readAll [bytes ++ [newline, newline]] := by
  intro h
  have hfinish : readAll [openReturns] = ([⟨none, "x"⟩], none) := by decide +kernel
  have hloop : readAll [openReturns ++ [newline, newline]] = ([⟨none, "x\r"⟩], none) := by
    decide +kernel
  have hsame := h openReturns
  rw [hfinish, hloop] at hsame
  exact absurd hsame (by decide)

end Wiremux.SseEndOfInput
