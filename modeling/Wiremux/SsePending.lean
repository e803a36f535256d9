import Mathlib
import Wiremux.SseEndOfInput

set_option autoImplicit false

/-!
# The bytes of an open frame

`pendingWireBytes` writes the open frame out as `formatSse` would. A reader that
is fed these bytes goes on as the first reader would exactly when every line
fits the cap and nothing that the written form loses comes into a later frame:
a carriage return at the end of a line, or a frame of `id` and `retry` alone.
-/
namespace Wiremux.SsePending
open Utf8Lossy SseReader ChunkedReading SseChunking SseWriting SseRoundTrip PercentDecoding SseReadBack
  SseWrittenFrames SsePartialLines SseEndOfInput

variable {r t : SseFrameReader}

def keptReader (r : SseFrameReader) : SseFrameReader :=
  { buffer := r.buffer
    event := r.event.map keptText
    data := r.data.map keptText
    dataBytes := countedBytes (r.data.map keptText)
    hasFields := r.event.isSome || !r.data.isEmpty }

/-- Every line of the written bytes fits the cap. -/
structure LinesFit (r : SseFrameReader) : Prop where
  event : ∀ e, r.event = some e → LineFits eventName e.toList
  data : ∀ d ∈ r.data, LineFits dataName d.toList

theorem keptLines_map (data : List String) :
    keptLines (data.map String.toList) = data.map keptText := by
  rw [keptLines, List.map_map]
  rfl

theorem keptText_size (text : String) : (keptText text).utf8ByteSize ≤ text.utf8ByteSize := by
  by_cases hlast : text.toList.getLast? = some '\r'
  · have htext : text = keptText text ++ String.ofList ['\r'] := by
      rw [keptText, ← String.ofList_append, ← ends_in_return hlast, String.ofList_toList]
    conv_rhs => rw [htext, String.utf8ByteSize_append]
    exact Nat.le_add_right _ _
  · rw [keptText_eq_self.mpr hlast]

theorem countedBytes_kept (data : List String) :
    countedBytes (data.map keptText) ≤ countedBytes data := by
  have hsum : ((data.map keptText).map fun l => l.utf8ByteSize + 1).sum ≤
      (data.map fun l => l.utf8ByteSize + 1).sum := by
    rw [List.map_map]
    exact List.sum_le_sum fun l _ => Nat.succ_le_succ (keptText_size l)
  exact Nat.sub_le_sub_right hsum 1

theorem dataLines_oneLine (hone : OneLine r) : ∀ l ∈ r.data.map String.toList, '\n' ∉ l := by
  intro l hl
  obtain ⟨d, hd, rfl⟩ := List.mem_map.mp hl
  exact hone.data d hd

theorem readBytes_pending_fits (hsound : Sound r) (hcapped : Capped r) (hone : OneLine r)
    (hfits : LinesFit r) : readBytes {} (pendingWireBytes r) = ([], .ok (keptReader r)) := by
  have hlines : ∀ l ∈ r.data.map String.toList, LineFits dataName l := by
    intro l hl
    obtain ⟨d, hd, rfl⟩ := List.mem_map.mp hl
    exact hfits.data d hd
  have hsize : countedBytes ([] ++ keptLines (r.data.map String.toList)) ≤ maxSsePending := by
    rw [List.nil_append, keptLines_map]
    exact (countedBytes_kept r.data).trans (hsound.counted ▸ hsound.sized)
  have hread := readBytes_dataLines_fits
    (r := { event := (r.event.map keptText).or none, hasFields := r.event.isSome || false })
    (dataLines_oneLine hone) hlines rfl rfl hsize
  rw [pendingWireBytes, List.append_assoc, readBytes_append,
    readBytes_eventLine_fits hone.event hfits.event rfl, andThen_ok, readBytes_append, hread,
    andThen_ok, readBytes_part _ _ hcapped.line (by simpa using hcapped.short)]
  simp [keptReader, keptLines_map, Bool.or_comm]

theorem readBytes_pending_error (hone : OneLine r) (hover : ¬ LinesFit r) :
    ∃ e, readBytes {} (pendingWireBytes r) = ([], .error e) := by
  rw [pendingWireBytes, List.append_assoc]
  by_cases hevent : ∀ e, r.event = some e → LineFits eventName e.toList
  · have hlines : ¬ ((∀ l ∈ r.data.map String.toList, LineFits dataName l) ∧
        countedBytes ([] ++ keptLines (r.data.map String.toList)) ≤ maxSsePending) := by
      intro h
      exact hover ⟨hevent, fun d hd => h.1 _ (List.mem_map_of_mem hd)⟩
    obtain ⟨e, he⟩ := readBytes_dataLines_error
      (r := { event := (r.event.map keptText).or none, hasFields := r.event.isSome || false })
      (dataLines_oneLine hone) rfl rfl (Nat.zero_le _) hlines
    refine ⟨e, ?_⟩
    rw [readBytes_append, readBytes_eventLine_fits hone.event hevent rfl, andThen_ok,
      readBytes_append_error he]
    rfl
  · push Not at hevent
    obtain ⟨name, hname, hlong⟩ := hevent
    refine ⟨lineTooLong, readBytes_append_error ?_ _⟩
    rw [hname, eventLine]
    exact readBytes_field_overlong fieldName_event (hone.event name hname) hlong rfl

/-- What holds of a reader between two feeds. -/
structure Reached (r : SseFrameReader) : Prop where
  sound : Sound r
  capped : Capped r
  oneLine : OneLine r

theorem reached_new : Reached {} := ⟨sound_new, capped_new, oneLine_new⟩

theorem readBytes_reached {bytes : List UInt8} {fs : List SseFrame}
    (h : readBytes {} bytes = (fs, .ok r)) : Reached r :=
  ⟨readBytes_sound bytes sound_new h, readBytes_capped bytes capped_new h,
    (readBytes_oneLine bytes oneLine_new h).2 r rfl⟩

theorem Reached.kept (hr : Reached r) (hfits : LinesFit r) : Reached (keptReader r) :=
  readBytes_reached (readBytes_pending_fits hr.sound hr.capped hr.oneLine hfits)

/-- The frames and the error that one or more feeds give. -/
def outcome (reading : Reading SseFrame String SseFrameReader) : List SseFrame × Option String :=
  match reading with
  | (frames, .ok _) => (frames, none)
  | (frames, .error e) => (frames, some e)

def continued (r : SseFrameReader) (bytes : List UInt8) : List SseFrame × Option String :=
  outcome (feedReading r bytes)

/-- A new reader goes on, from the bytes of the open frame. -/
def resumed (r : SseFrameReader) (bytes : List UInt8) : List SseFrame × Option String :=
  outcome (feedAll feedReading {} [pendingWireBytes r, bytes])

theorem continued_eq (hr : Reached r) (bytes : List UInt8) :
    continued r bytes = outcome (dropping (fun _ => true) readBytes r bytes) := by
  rw [continued, feedReading_eq hr.capped]

theorem feedReading_pending {next : Except String SseFrameReader} {bytes : List UInt8}
    (h : readBytes {} bytes = ([], next)) : feedReading {} bytes = ([], next) := by
  rw [feedReading_eq capped_new, dropping, h]
  cases next <;> rfl

theorem resumed_fits (hr : Reached r) (hfits : LinesFit r) (bytes : List UInt8) :
    resumed r bytes = continued (keptReader r) bytes := by
  have hpending := feedReading_pending
    (readBytes_pending_fits hr.sound hr.capped hr.oneLine hfits)
  rw [resumed, feedAll, hpending, andThen_ok, feedAll_singleton]
  rfl

theorem resumed_error (hr : Reached r) (hover : ¬ LinesFit r) (bytes : List UInt8) :
    ∃ e, resumed r bytes = ([], some e) := by
  obtain ⟨e, he⟩ := readBytes_pending_error hr.oneLine hover
  refine ⟨e, ?_⟩
  rw [resumed, feedAll, feedReading_pending he]
  rfl

theorem continued_nil (hr : Reached r) : continued r [] = ([], none) := by
  rw [continued_eq hr]
  rfl

/-- Bytes that can still come into the line. -/
structure Completes (r : SseFrameReader) (more : List UInt8) : Prop where
  line : newline ∉ more
  short : r.buffer.length + more.length ≤ maxSsePending

theorem readBytes_more {more : List UInt8} (hmore : Completes r more) (rest : List UInt8) :
    readBytes r (more ++ rest) = readBytes { r with buffer := r.buffer ++ more } rest := by
  rw [readBytes_append, readBytes_part r more hmore.line hmore.short, andThen_ok]
  rfl

theorem continued_lines (hr : Reached r) {more : List UInt8} (hmore : Completes r more) :
    continued r (more ++ [newline, newline]) =
      looped [] (lastFrame (lineText (r.buffer ++ more)) { r with buffer := [] }) := by
  rw [continued_eq hr, dropping, readBytes_more hmore,
    readBytes_blankLines (hr.sound.buffer (r.buffer ++ more))]
  simp only
  cases lastFrame (lineText (r.buffer ++ more)) { r with buffer := [] } <;> rfl

theorem looped_inj {last last' : Except String (Option SseFrame)} (h : looped [] last = looped [] last') :
    last' = last := by
  have hfinished : finished [] last = looped [] last := by cases last <;> rfl
  exact (finished_eq_looped.mp (hfinished.trans h)).1

/-- Two readers in the same line go on alike when every end of the line does the same to them. -/
theorem continued_congr (hr : Reached r) (ht : Reached t) (hbuffer : t.buffer = r.buffer)
    (hline : ∀ more, Completes r more →
      pushLine (lineText (r.buffer ++ more)) { t with buffer := [] } =
        pushLine (lineText (r.buffer ++ more)) { r with buffer := [] }) (bytes : List UInt8) :
    continued t bytes = continued r bytes := by
  rw [continued_eq hr, continued_eq ht]
  by_cases hnewline : newline ∈ bytes
  · obtain ⟨more, rest, rfl, hmore⟩ := List.eq_append_cons_of_mem hnewline
    by_cases hshort : r.buffer.length + more.length ≤ maxSsePending
    · have hend := hline more ⟨hmore, hshort⟩
      have hsame : readBytes t (more ++ newline :: rest) = readBytes r (more ++ newline :: rest) := by
        rw [readBytes_line r more rest hmore hshort,
          readBytes_line t more rest hmore (hbuffer ▸ hshort), endLine, endLine]
        simp only [lineText, hbuffer] at hend ⊢
        rw [hend]
      rw [dropping, dropping, hsame]
    · have hlong := not_le.mp hshort
      rw [dropping, dropping,
        readBytes_append_error (readBytes_overlong more hr.capped hmore hlong),
        readBytes_append_error (readBytes_overlong more ht.capped hmore (hbuffer ▸ hlong))]
  · by_cases hshort : r.buffer.length + bytes.length ≤ maxSsePending
    · rw [dropping, dropping, readBytes_part r bytes hnewline hshort,
        readBytes_part t bytes hnewline (hbuffer ▸ hshort)]
      rfl
    · have hlong := not_le.mp hshort
      rw [dropping, dropping, readBytes_overlong bytes hr.capped hnewline hlong,
        readBytes_overlong bytes ht.capped hnewline (hbuffer ▸ hlong)]

def fieldNames : List String := ["event", "data", "id", "retry"]

/-- Nothing is lost that the open line does not say again. -/
structure FieldsKept (r : SseFrameReader) : Prop where
  event : (∀ e, r.event = some e → e.toList.getLast? ≠ some '\r') ∨ NamesField r.buffer "event"
  data : ∀ d ∈ r.data, d.toList.getLast? ≠ some '\r'
  fields : r.hasFields = true →
    r.event.isSome ∨ r.data ≠ [] ∨ ∃ name ∈ fieldNames, NamesField r.buffer name

/-- The open line is data that breaks the cap however it ends. -/
structure Doomed (r : SseFrameReader) : Prop where
  named : NamesField r.buffer "data"
  breaks : ∀ more, Completes r more →
    BreaksCap (keptReader r) (splitField (lineText (r.buffer ++ more))).2

/-- The open frame can be written. -/
structure PendingKept (r : SseFrameReader) : Prop where
  fits : LinesFit r
  kept : FieldsKept r ∨ Doomed r

theorem pushLine_event_field {line : List Char} (hline : line ≠ []) (hhead : line.head? ≠ some ':')
    (hname : (splitField line).1 = "event") : pushLine line r =
      .ok (none, { r with event := some (splitField line).2, hasFields := true }) := by
  rw [pushLine, if_neg (by simpa using hline), if_neg hhead]
  simp only
  rw [if_pos hname]

theorem pushLine_data_field {line : List Char} (hline : line ≠ []) (hhead : line.head? ≠ some ':')
    (hname : (splitField line).1 = "data") : pushLine line r =
      (pushData (splitField line).2 r).map fun r => (none, r) := by
  have hevent : ¬ (splitField line).1 = "event" := by
    rw [hname]
    decide
  rw [pushLine, if_neg (by simpa using hline), if_neg hhead]
  simp only
  rw [if_neg hevent, if_pos hname]

theorem pushLine_plain_field {line : List Char} (hline : line ≠ []) (hhead : line.head? ≠ some ':')
    (hname : (splitField line).1 = "id" ∨ (splitField line).1 = "retry") :
    pushLine line r = .ok (none, { r with hasFields := true }) := by
  have hother : ¬ (splitField line).1 = "event" ∧ ¬ (splitField line).1 = "data" := by
    rcases hname with hname | hname
    · rw [hname]
      decide
    · rw [hname]
      decide
  rw [pushLine, if_neg (by simpa using hline), if_neg hhead]
  simp only
  rw [if_neg hother.1, if_neg hother.2, if_pos hname]

theorem kept_data (h : ∀ d ∈ r.data, d.toList.getLast? ≠ some '\r') : r.data.map keptText = r.data :=
  (List.map_congr_left fun d hd => keptText_eq_self.mpr (h d hd)).trans (List.map_id _)

theorem kept_event (h : ∀ e, r.event = some e → e.toList.getLast? ≠ some '\r') :
    r.event.map keptText = r.event := by
  cases hevent : r.event with
  | none => rfl
  | some e => exact congrArg some (keptText_eq_self.mpr (h e hevent))

theorem keptReader_eq (hsound : Sound r) (hdata : r.data.map keptText = r.data) :
    keptReader r = { r with
      event := r.event.map keptText
      hasFields := r.event.isSome || !r.data.isEmpty } := by
  rw [keptReader, hdata, ← hsound.counted]

theorem namesField_pushed {name : String} (h : NamesField r.buffer name) (hne : name ≠ "")
    (more : List UInt8) : (splitField (lineText (r.buffer ++ more))).1 = name ∧
      lineText (r.buffer ++ more) ≠ [] ∧ (lineText (r.buffer ++ more)).head? ≠ some ':' := by
  obtain ⟨hname, hline, hhead⟩ := namesField_line h more
  exact ⟨hname, hline, fun heq => hne (hhead.mp heq)⟩

theorem pushLine_kept (hsound : Sound r) (hkept : FieldsKept r) (more : List UInt8) :
    pushLine (lineText (r.buffer ++ more)) { keptReader r with buffer := [] } =
      pushLine (lineText (r.buffer ++ more)) { r with buffer := [] } := by
  have hdata := kept_data hkept.data
  rw [keptReader_eq hsound hdata]
  rcases hkept.event with hevent | hevent
  · rw [kept_event hevent]
    by_cases hopen : r.event.isSome ∨ r.data ≠ []
    · have hfields : r.hasFields = true := by
        by_contra hno
        obtain ⟨hnone, hnil⟩ := hsound.idle (by simpa using hno)
        simp [hnone, hnil] at hopen
      have hsame : (r.event.isSome || !r.data.isEmpty) = r.hasFields := by
        rw [hfields]
        simpa using hopen
      rw [hsame]
    · by_cases hfields : r.hasFields = true
      · obtain ⟨name, hmem, hname⟩ : ∃ name ∈ fieldNames, NamesField r.buffer name := by
          rcases hkept.fields hfields with h | h | h
          · exact absurd (.inl h) hopen
          · exact absurd (.inr h) hopen
          · exact h
        have hnonempty : name ≠ "" := by
          rintro rfl
          exact absurd hmem (by decide)
        obtain ⟨hfield, hline, hhead⟩ := namesField_pushed hname hnonempty more
        simp only [fieldNames, List.mem_cons, List.not_mem_nil, or_false] at hmem
        rcases hmem with rfl | rfl | hmem
        · rw [pushLine_event_field hline hhead hfield, pushLine_event_field hline hhead hfield]
        · rw [pushLine_data_field hline hhead hfield, pushLine_data_field hline hhead hfield]
          rfl
        · rw [← hfield] at hmem
          rw [pushLine_plain_field hline hhead hmem, pushLine_plain_field hline hhead hmem]
      · have hsame : (r.event.isSome || !r.data.isEmpty) = r.hasFields := by
          rw [Bool.eq_false_of_not_eq_true hfields]
          simpa using hopen
        rw [hsame]
  · obtain ⟨hfield, hline, hhead⟩ := namesField_pushed hevent (by decide) more
    rw [pushLine_event_field hline hhead hfield, pushLine_event_field hline hhead hfield]

theorem breaksCap_kept (hsound : Sound r) {value : String} (h : BreaksCap (keptReader r) value) :
    BreaksCap r value := by
  have hcounted : (keptReader r).dataBytes ≤ r.dataBytes :=
    hsound.counted ▸ countedBytes_kept r.data
  have hempty : (keptReader r).data.isEmpty = r.data.isEmpty := List.isEmpty_map
  rw [BreaksCap, hempty] at h
  exact lt_of_lt_of_le h (Nat.add_le_add_right hcounted _)

theorem pushLine_doomed (hsound : Sound r) (hdoomed : Doomed r) {more : List UInt8}
    (hmore : Completes r more) :
    pushLine (lineText (r.buffer ++ more)) { keptReader r with buffer := [] } =
      pushLine (lineText (r.buffer ++ more)) { r with buffer := [] } := by
  obtain ⟨hfield, hline, hhead⟩ := namesField_pushed hdoomed.named (by decide) more
  have hover := hdoomed.breaks more hmore
  rw [pushLine_data_field hline hhead hfield, pushLine_data_field hline hhead hfield,
    pushData_breaks (r := { keptReader r with buffer := [] }) hover,
    pushData_breaks (r := { r with buffer := [] }) (breaksCap_kept hsound hover)]

theorem joined_inj {xs ys : List String} (hxs : ∀ x ∈ xs, '\n' ∉ x.toList)
    (hys : ∀ y ∈ ys, '\n' ∉ y.toList) (hnil : xs = [] ↔ ys = [])
    (h : "\n".intercalate xs = "\n".intercalate ys) : xs = ys := by
  by_cases hempty : xs = []
  · rw [hempty, hnil.mp hempty]
  · have hnewline : "\n".toList = ['\n'] := by decide
    have hlines := congrArg (fun s => s.toList.splitOn '\n') h
    simp only [String.toList_intercalate, hnewline] at hlines
    rw [List.splitOn_intercalate '\n' (by simpa using hxs) (by simpa using hempty),
      List.splitOn_intercalate '\n' (by simpa using hys) (by simpa using fun h => hempty (hnil.mpr h))]
      at hlines
    exact List.map_injective_iff.mpr (fun _ _ => String.toList_inj.mp) hlines

theorem keptText_oneLine {text : String} (h : '\n' ∉ text.toList) : '\n' ∉ (keptText text).toList := by
  rw [keptText, String.toList_ofList]
  exact fun hmem => h (mem_dropReturnChar hmem)

theorem joined_kept (hone : OneLine r)
    (h : "\n".intercalate (r.data.map keptText) = "\n".intercalate r.data) :
    ∀ d ∈ r.data, d.toList.getLast? ≠ some '\r' := by
  have hkept : ∀ d ∈ r.data.map keptText, '\n' ∉ d.toList := by
    intro d hd
    obtain ⟨text, htext, rfl⟩ := List.mem_map.mp hd
    exact keptText_oneLine (hone.data text htext)
  have hsame := joined_inj hkept hone.data (by simp) h
  intro d hd
  exact keptText_eq_self.mp (List.map_inj_left.mp (hsame.trans (List.map_id _).symm) d hd)

theorem event_kept (h : r.event.map keptText = r.event) :
    ∀ e, r.event = some e → e.toList.getLast? ≠ some '\r' := by
  intro e he
  rw [he, Option.map_some] at h
  exact keptText_eq_self.mp (Option.some.inj h)

/-- The same last frame from a line the reader does not know: nothing is lost. -/
theorem kept_of_takeFrame (hsound : Sound r) (hone : OneLine r)
    (h : (takeFrame { keptReader r with buffer := [] }).1 = (takeFrame { r with buffer := [] }).1) :
    FieldsKept r := by
  by_cases hfields : r.hasFields = true
  · rw [takeFrame_event (r := { r with buffer := [] }) hfields] at h
    have hkept : (keptReader r).hasFields = true := by
      by_contra hno
      rw [takeFrame_none (r := { keptReader r with buffer := [] }) (by simpa using hno)] at h
      cases h
    rw [takeFrame_event (r := { keptReader r with buffer := [] }) hkept] at h
    obtain ⟨hevent, hdata⟩ := (SseFrame.mk.injEq _ _ _ _).mp (Option.some.inj h)
    refine ⟨.inl (event_kept hevent), joined_kept hone hdata, fun _ => ?_⟩
    rcases Bool.or_eq_true_iff.mp hkept with hsome | hdata
    · exact .inl hsome
    · exact .inr (.inl (by simpa using hdata))
  · obtain ⟨hnone, hnil⟩ := hsound.idle (by simpa using hfields)
    exact ⟨.inl (by simp [hnone]), by simp [hnil], fun h => absurd h hfields⟩

theorem not_fieldName_concat {front : List Char} : String.ofList (front ++ ['x']) ∉ fieldNames := by
  intro hmem
  have hlast : (String.ofList (front ++ ['x'])).toList.getLast? = some 'x' := by
    rw [String.toList_ofList, List.getLast?_concat]
  simp only [fieldNames, List.mem_cons, List.not_mem_nil, or_false] at hmem
  rcases hmem with h | h | h | h
  · rw [h] at hlast
    exact absurd hlast (by decide)
  · rw [h] at hlast
    exact absurd hlast (by decide)
  · rw [h] at hlast
    exact absurd hlast (by decide)
  · rw [h] at hlast
    exact absurd hlast (by decide)

theorem lastFrame_unknown {line : List Char} (h : (splitField line).1 ∉ fieldNames) :
    lastFrame line r = .ok (takeFrame r).1 := by
  simp only [fieldNames, List.mem_cons, List.not_mem_nil, or_false, not_or] at h
  rw [lastFrame_eq, if_neg h.1, if_neg h.2.1, if_neg]
  exact not_or.mpr ⟨h.2.2.1, h.2.2.2⟩

theorem fieldName_short {line : List Char} (h : String.ofList line ∈ fieldNames) :
    line.length ≤ 5 ∧ ∀ c ∈ line, c.toNat < 0x80 := by
  have hnames : ∀ name ∈ fieldNames, name.toList.length ≤ 5 ∧
      (name.toList.all fun c => c.toNat < 0x80) = true := by decide +kernel
  obtain ⟨hlength, hascii⟩ := hnames _ h
  rw [String.toList_ofList] at hlength hascii
  exact ⟨hlength, fun c hc => of_decide_eq_true (List.all_eq_true.mp hascii c hc)⟩

theorem length_dropReturn (bytes : List UInt8) : bytes.length ≤ (dropReturn bytes).length + 1 := by
  unfold dropReturn
  split
  · rw [List.length_dropLast]
    omega
  · omega

theorem unknown_completion (hcapped : Capped r) (hcolon : colon ∉ r.buffer) :
    ∃ more, Completes r more ∧ (splitField (lineText (r.buffer ++ more))).1 ∉ fieldNames := by
  by_cases hname : String.ofList (lineText r.buffer) ∈ fieldNames
  · refine ⟨[0x78], ⟨by decide, ?_⟩, ?_⟩
    · obtain ⟨hlength, hascii⟩ := fieldName_short hname
      have hbytes := length_of_ascii hascii
      have hdropped := length_dropReturn r.buffer
      rw [lineText] at hlength
      rw [hbytes] at hdropped
      have hroom : 7 ≤ maxSsePending := by decide
      rw [List.length_singleton]
      omega
    · have hlow : (0x78 : UInt8).toNat < 0x80 := by decide
      have hplain : colon ∉ r.buffer ++ [0x78] := by
        simpa using ⟨hcolon, by decide⟩
      rw [splitField_plain (lineText_plain hplain), lineText, dropReturn_cons (by decide),
        fromUtf8Lossy_around hlow]
      exact not_fieldName_concat
  · refine ⟨[], ⟨by simp, hcapped.short⟩, ?_⟩
    rwa [List.append_nil, splitField_plain (lineText_plain hcolon)]

theorem value_oneLine (hone : OneLine r) {more : List UInt8} (hmore : Completes r more) :
    '\n' ∉ (splitField (lineText (r.buffer ++ more))).2.toList := by
  intro hmem
  have hline : newline ∉ r.buffer ++ more := by
    intro h
    rcases List.mem_append.mp h with h | h
    · exact hone.buffer h
    · exact hmore.line h
  exact newline_notMem_lossy (fun h => hline (mem_dropReturn h)) (mem_splitField_snd hmem)

theorem kept_of_data (hr : Reached r) (hfits : LinesFit r) (hnamed : NamesField r.buffer "data")
    (hframe : ∀ more, Completes r more →
      lastFrame (lineText (r.buffer ++ more)) { keptReader r with buffer := [] } =
        lastFrame (lineText (r.buffer ++ more)) { r with buffer := [] })
    (hfields : r.hasFields = true →
      r.event.isSome ∨ r.data ≠ [] ∨ ∃ name ∈ fieldNames, NamesField r.buffer name) :
    FieldsKept r ∨ Doomed r := by
  by_cases hbreaks : ∀ more, Completes r more →
      BreaksCap (keptReader r) (splitField (lineText (r.buffer ++ more))).2
  · exact .inr ⟨hnamed, hbreaks⟩
  · push Not at hbreaks
    obtain ⟨more, hmore, hroom⟩ := hbreaks
    have hname := (namesField_line hnamed more).1
    have hevent : ¬ "data" = "event" := by decide
    have hvalue := value_oneLine hr.oneLine hmore
    have hsame := hframe more hmore
    have hfits' : ¬ BreaksCap { keptReader r with buffer := [] }
        (splitField (lineText (r.buffer ++ more))).2 := hroom
    rw [lastFrame_eq, lastFrame_eq, hname, if_neg hevent, if_neg hevent, if_pos rfl, if_pos rfl,
      if_neg hfits'] at hsame
    split at hsame
    · cases hsame
    · obtain ⟨hevent, hjoined⟩ := frame_inj hsame
      have hlines : ∀ d ∈ (keptReader r).data ++ [(splitField (lineText (r.buffer ++ more))).2],
          '\n' ∉ d.toList := by
        intro d hd
        rcases List.mem_append.mp hd with hd | hd
        · exact (hr.kept hfits).oneLine.data d hd
        · exact List.mem_singleton.mp hd ▸ hvalue
      have hlines' : ∀ d ∈ r.data ++ [(splitField (lineText (r.buffer ++ more))).2],
          '\n' ∉ d.toList := by
        intro d hd
        rcases List.mem_append.mp hd with hd | hd
        · exact hr.oneLine.data d hd
        · exact List.mem_singleton.mp hd ▸ hvalue
      have hdata := List.append_cancel_right (joined_inj hlines hlines' (by simp) hjoined)
      exact .inl ⟨.inl (event_kept hevent), joined_kept hr.oneLine (congrArg _ hdata), hfields⟩

/-- Where the two go on alike, nothing is lost or the open line breaks the cap. -/
theorem kept_of_continued (hr : Reached r) (hfits : LinesFit r)
    (h : ∀ bytes, continued (keptReader r) bytes = continued r bytes) : FieldsKept r ∨ Doomed r := by
  have hframe : ∀ more, Completes r more →
      lastFrame (lineText (r.buffer ++ more)) { keptReader r with buffer := [] } =
        lastFrame (lineText (r.buffer ++ more)) { r with buffer := [] } := by
    intro more hmore
    have hkept : Completes (keptReader r) more := ⟨hmore.line, hmore.short⟩
    have hsame := h (more ++ [newline, newline])
    rw [continued_lines hr hmore, continued_lines (hr.kept hfits) hkept] at hsame
    exact (looped_inj hsame).symm
  have hunknown : ∀ more, Completes r more →
      (splitField (lineText (r.buffer ++ more))).1 ∉ fieldNames → FieldsKept r := by
    intro more hmore hname
    have hsame := hframe more hmore
    rw [lastFrame_unknown hname, lastFrame_unknown hname] at hsame
    exact kept_of_takeFrame hr.sound hr.oneLine (Except.ok.inj hsame)
  by_cases hcolon : colon ∈ r.buffer
  · have hnow : Completes r [] := ⟨by simp, hr.capped.short⟩
    have hnamed : NamesField r.buffer (splitField (fromUtf8Lossy r.buffer)).1 := ⟨hcolon, rfl⟩
    by_cases hknown : (splitField (fromUtf8Lossy r.buffer)).1 ∈ fieldNames
    · have hsame := hframe [] hnow
      have hfields : r.hasFields = true →
          r.event.isSome ∨ r.data ≠ [] ∨ ∃ name ∈ fieldNames, NamesField r.buffer name :=
        fun _ => .inr (.inr ⟨_, hknown, hnamed⟩)
      generalize hvalue : (splitField (fromUtf8Lossy r.buffer)).1 = name at hknown hnamed
      have hname := (namesField_line hnamed []).1
      simp only [fieldNames, List.mem_cons, List.not_mem_nil, or_false] at hknown
      rcases hknown with rfl | rfl | hother
      · rw [lastFrame_eq, lastFrame_eq, if_pos hname, if_pos hname] at hsame
        exact .inl ⟨.inr hnamed, joined_kept hr.oneLine (frame_inj hsame).2, hfields⟩
      · exact kept_of_data hr hfits hnamed hframe hfields
      · have hnames : ¬ name = "event" ∧ ¬ name = "data" := by
          rcases hother with rfl | rfl
          · decide
          · decide
        rw [lastFrame_eq, lastFrame_eq, hname, if_neg hnames.1, if_neg hnames.1, if_neg hnames.2,
          if_neg hnames.2, if_pos hother, if_pos hother] at hsame
        obtain ⟨hevent, hdata⟩ := frame_inj hsame
        exact .inl ⟨.inl (event_kept hevent), joined_kept hr.oneLine hdata, hfields⟩
    · refine .inl (hunknown [] hnow ?_)
      rwa [(namesField_line hnamed []).1]
  · obtain ⟨more, hmore, hname⟩ := unknown_completion hr.capped hcolon
    exact .inl (hunknown more hmore hname)

/-- The reader after one feed; an error leaves it empty. -/
def fedReader (bytes : List UInt8) : SseFrameReader :=
  match feedReading {} bytes with
  | (_, .ok r) => r
  | (_, .error _) => {}

theorem fedReader_reached (bytes : List UInt8) : Reached (fedReader bytes) := by
  unfold fedReader
  split
  · rename_i fs r heq
    rw [feedReading_eq capped_new] at heq
    exact readBytes_reached (dropping_ok heq)
  · exact reached_new

/-- The written bytes say what the reader holds, and are empty when it holds nothing. -/
structure PendingFaithful (r : SseFrameReader) : Prop where
  resumes : ∀ bytes, resumed r bytes = continued r bytes
  empty : pendingWireBytes r = [] ↔ hasOpenFrame r = false

theorem fieldLine_ne (name value : List Char) : fieldLine name value ≠ [] := by
  rw [fieldLine]
  simp

theorem pending_nil_iff : pendingWireBytes r = [] ↔ r.event = none ∧ r.data = [] ∧ r.buffer = [] := by
  rw [pendingWireBytes, List.append_eq_nil_iff, List.append_eq_nil_iff, and_assoc]
  refine and_congr ?_ (and_congr ?_ Iff.rfl)
  · cases r.event with
    | none => simp [eventLine]
    | some e => simp [eventLine, fieldLine_ne]
  · cases r.data with
    | nil => simp [dataLines]
    | cons d rest => simp [dataLines, fieldLine_ne]

theorem hasOpenFrame_iff : hasOpenFrame r = false ↔ r.hasFields = false ∧ r.buffer = [] := by
  rw [hasOpenFrame, Bool.or_eq_false_iff]
  simp

theorem pending_empty (hr : Reached r) (hkept : PendingKept r) :
    pendingWireBytes r = [] ↔ hasOpenFrame r = false := by
  constructor
  · intro h
    obtain ⟨hevent, hdata, hbuffer⟩ := pending_nil_iff.mp h
    have hunnamed : ∀ name, ¬ NamesField r.buffer name := by
      intro name hname
      rw [hbuffer] at hname
      exact absurd hname.1 (by simp)
    refine hasOpenFrame_iff.mpr ⟨?_, hbuffer⟩
    rcases hkept.kept with hfields | hdoomed
    · by_contra hopen
      rcases hfields.fields (by simpa using hopen) with h | h | ⟨name, _, hname⟩
      · simp [hevent] at h
      · exact h hdata
      · exact hunnamed name hname
    · exact absurd hdoomed.named (hunnamed "data")
  · intro h
    rw [hr.sound.closed h]
    rfl

/-- The bytes kept for an open frame are faithful exactly when the frame can be written. -/
theorem pending_bytes_faithful (bytes : List UInt8) :
    PendingFaithful (fedReader bytes) ↔ PendingKept (fedReader bytes) := by
  have hr := fedReader_reached bytes
  generalize fedReader bytes = r at hr
  constructor
  · intro h
    by_cases hfits : LinesFit r
    · refine ⟨hfits, kept_of_continued hr hfits ?_⟩
      intro more
      rw [← resumed_fits hr hfits]
      exact h.resumes more
    · obtain ⟨e, he⟩ := resumed_error hr hfits []
      have hsame := h.resumes []
      rw [he, continued_nil hr] at hsame
      cases (Prod.mk.inj hsame).2
  · intro h
    refine ⟨?_, pending_empty hr h⟩
    intro more
    rw [resumed_fits hr h.fits]
    refine continued_congr hr (hr.kept h.fits) rfl ?_ more
    intro rest hrest
    rcases h.kept with hkept | hdoomed
    · exact pushLine_kept hr.sound hkept rest
    · exact pushLine_doomed hr.sound hdoomed hrest

def idLine : List UInt8 := [0x69, 0x64, 0x3A, 0x20, 0x78, newline]

/-- A frame that so far has only an id is open, and nothing is kept of it. -/
theorem id_not_pending : ¬ ∀ bytes, PendingFaithful (fedReader bytes) := by
  intro h
  have hpending : pendingWireBytes (fedReader idLine) = [] := by decide +kernel
  have hopen : hasOpenFrame (fedReader idLine) = true := by decide +kernel
  have hclosed := (h idLine).empty.mp hpending
  rw [hopen] at hclosed
  cases hclosed

end Wiremux.SsePending
