import Mathlib
import Wiremux.SseChunking
import Wiremux.SseWriting

set_option autoImplicit false

/-!
# What is written is read back

A frame written as SSE text is read back as itself, and so are the bytes kept
for an open frame, as long as every line fits the cap and no line ends in the
carriage return that the reader takes for a part of the line end.
-/
namespace Wiremux.SseRoundTrip
open Utf8Lossy SseReader ChunkedReading SseChunking SseWriting

variable {text value : List Char}

theorem newline_notMem_utf8 (h : '\n' ∉ text) : newline ∉ utf8 text := by
  intro hmem
  obtain ⟨c, hc, hb⟩ := List.mem_flatMap.mp hmem
  have hnewline : c = '\n' := mem_utf8EncodeChar_ascii hb (by decide)
  exact h (hnewline ▸ hc)

theorem utf8_getLast {b : UInt8} (h : (utf8 text).getLast? = some b) :
    ∃ c, text.getLast? = some c ∧ b ∈ String.utf8EncodeChar c := by
  rcases List.eq_nil_or_concat text with rfl | ⟨front, c, rfl⟩
  · cases h
  · rw [List.concat_eq_append] at h ⊢
    refine ⟨c, List.getLast?_concat, ?_⟩
    rw [utf8, List.flatMap_append, List.flatMap_singleton,
      List.getLast?_append_of_ne_nil _ String.utf8EncodeChar_ne_nil] at h
    exact List.mem_of_getLast? h

theorem dropReturn_utf8 (h : text.getLast? ≠ some '\r') : dropReturn (utf8 text) = utf8 text := by
  rw [dropReturn, if_neg]
  intro hlast
  obtain ⟨c, hc, hb⟩ := utf8_getLast hlast
  have hreturn : c = '\r' := mem_utf8EncodeChar_ascii hb (by decide)
  exact h (hreturn ▸ hc)

theorem fromUtf8Lossy_utf8 (text : List Char) : fromUtf8Lossy (utf8 text) = text := by
  have h := fromUtf8Lossy_flatMap text []
  rw [List.append_nil] at h
  rw [utf8, h, fromUtf8Lossy, List.append_nil]

variable {r : SseFrameReader}

theorem readBytes_line (r : SseFrameReader) (line rest : List UInt8) (hline : newline ∉ line)
    (hshort : r.buffer.length + line.length ≤ maxSsePending) :
    readBytes r (line ++ newline :: rest) =
      andThen (endLine { r with buffer := r.buffer ++ line }) fun t => readBytes t rest := by
  induction line generalizing r with
  | nil => rw [List.nil_append, readBytes, if_pos rfl, List.append_nil]
  | cons b line ih =>
    obtain ⟨hb, hline⟩ := List.ne_and_not_mem_of_not_mem_cons hline
    rw [List.length_cons] at hshort
    rw [List.cons_append, readBytes, if_neg hb.symm, if_neg (by omega), ih _ hline]
    · rw [List.append_assoc]
      rfl
    · simp only [List.length_append, List.length_singleton]
      omega

theorem readBytes_part (r : SseFrameReader) (line : List UInt8) (hline : newline ∉ line)
    (hshort : r.buffer.length + line.length ≤ maxSsePending) :
    readBytes r line = ([], .ok { r with buffer := r.buffer ++ line }) := by
  induction line generalizing r with
  | nil => rw [readBytes, List.append_nil]
  | cons b line ih =>
    obtain ⟨hb, hline⟩ := List.ne_and_not_mem_of_not_mem_cons hline
    rw [List.length_cons] at hshort
    rw [readBytes, if_neg hb.symm, if_neg (by omega), ih _ hline]
    · rw [List.append_assoc]
      rfl
    · simp only [List.length_append, List.length_singleton]
      omega

/-- A value that a field line carries unharmed. -/
structure Writable (name value : List Char) : Prop where
  oneLine : '\n' ∉ value
  noReturn : value.getLast? ≠ some '\r'
  short : (utf8 (name ++ ':' :: ' ' :: value)).length ≤ maxSsePending

structure FieldName (name : List Char) : Prop where
  oneLine : '\n' ∉ name
  noColon : ':' ∉ name
  nonempty : name ≠ []

theorem fieldName_event : FieldName eventName := ⟨by decide, by decide, by decide⟩

theorem fieldName_data : FieldName dataName := ⟨by decide, by decide, by decide⟩

variable {name : List Char}

theorem splitField_line (hname : FieldName name) (value : List Char) :
    splitField (name ++ ':' :: ' ' :: value) = (String.ofList name, String.ofList value) := by
  have hkeep : ∀ c ∈ name, (decide (c ≠ ':')) = true := by
    intro c hc
    exact decide_eq_true fun heq => hname.noColon (heq ▸ hc)
  rw [splitField, List.dropWhile_append_of_pos hkeep, List.takeWhile_append_of_pos hkeep]
  simp

theorem line_getLast (hvalue : value.getLast? ≠ some '\r') :
    (name ++ ':' :: ' ' :: value).getLast? ≠ some '\r' := by
  cases value with
  | nil => simp
  | cons c rest =>
    have hsplit : name ++ ':' :: ' ' :: c :: rest = (name ++ [':', ' ']) ++ c :: rest := by simp
    rwa [hsplit, List.getLast?_append_of_ne_nil _ (List.cons_ne_nil c rest)]

theorem readBytes_fieldLine (hname : FieldName name) (hvalue : Writable name value)
    (hempty : r.buffer = []) : readBytes r (fieldLine name value) =
      match pushLine (name ++ ':' :: ' ' :: value) r with
      | .error e => ([], .error e)
      | .ok (frame, t) => (frame.toList, .ok t) := by
  have hline : '\n' ∉ name ++ ':' :: ' ' :: value := by
    simpa using ⟨hname.oneLine, hvalue.oneLine⟩
  have hback : { r with buffer := [] } = r := by rw [← hempty]
  rw [fieldLine, readBytes_line r _ [] (newline_notMem_utf8 hline) (by simpa [hempty] using hvalue.short),
    endLine, hempty, List.nil_append]
  simp only
  rw [dropReturn_utf8 (line_getLast hvalue.noReturn), fromUtf8Lossy_utf8, hback]
  cases pushLine (name ++ ':' :: ' ' :: value) r with
  | error e => rfl
  | ok out => simp [readBytes]

theorem pushLine_field (hname : FieldName name) (value : List Char) (r : SseFrameReader) :
    pushLine (name ++ ':' :: ' ' :: value) r =
      if String.ofList name = "event" then
        .ok (none, { r with event := some (String.ofList value), hasFields := true })
      else if String.ofList name = "data" then
        (pushData (String.ofList value) r).map fun r => (none, r)
      else if String.ofList name = "id" ∨ String.ofList name = "retry" then
        .ok (none, { r with hasFields := true })
      else .ok (none, r) := by
  obtain ⟨c, rest, rfl⟩ := List.exists_cons_of_ne_nil hname.nonempty
  have hcolon : c ≠ ':' := fun heq => hname.noColon (by simp [heq])
  rw [pushLine, if_neg (by simp), if_neg (by simpa using hcolon), splitField_line hname]

theorem readBytes_eventLine {event : Option String}
    (hevent : ∀ e, event = some e → Writable eventName e.toList) (hempty : r.buffer = []) :
    readBytes r (eventLine event) =
      ([], .ok { r with event := event.or r.event, hasFields := event.isSome || r.hasFields }) := by
  cases event with
  | none => rfl
  | some e =>
    have hname : String.ofList eventName = "event" := by decide
    rw [eventLine, readBytes_fieldLine fieldName_event (hevent e rfl) hempty,
      pushLine_field fieldName_event, if_pos hname]
    simp

/-- What the reader counts for its data lines, joined. -/
def countedBytes (data : List String) : ℕ := (data.map fun l => l.utf8ByteSize + 1).sum - 1

theorem countedBytes_append (xs ys : List String) : countedBytes xs ≤ countedBytes (xs ++ ys) := by
  rw [countedBytes, countedBytes, List.map_append, List.sum_append]
  omega

theorem counted_extra {value : String} (hcount : r.dataBytes = countedBytes r.data) :
    r.dataBytes + (if r.data.isEmpty then value.utf8ByteSize else value.utf8ByteSize + 1) =
      countedBytes (r.data ++ [value]) := by
  rw [hcount]
  cases hdata : r.data with
  | nil => simp [countedBytes]
  | cons d ds =>
    simp only [List.isEmpty_cons, Bool.false_eq_true, if_false, countedBytes, List.map_append,
      List.map_cons, List.sum_append, List.sum_cons, List.map_nil, List.sum_nil]
    omega

theorem pushData_ok {value : String} (hcount : r.dataBytes = countedBytes r.data)
    (hsize : countedBytes (r.data ++ [value]) ≤ maxSsePending) :
    pushData value r = .ok { r with
      data := r.data ++ [value]
      dataBytes := countedBytes (r.data ++ [value])
      hasFields := true } := by
  rw [pushData, counted_extra hcount, if_neg (Nat.not_lt.mpr hsize)]

theorem readBytes_dataLines_as {value : List Char → String} {lines : List (List Char)}
    (hread : ∀ l ∈ lines, ∀ r : SseFrameReader, r.buffer = [] →
      readBytes r (fieldLine dataName l) = ([], pushData (value l) r))
    (hempty : r.buffer = []) (hcount : r.dataBytes = countedBytes r.data)
    (hsize : countedBytes (r.data ++ lines.map value) ≤ maxSsePending) :
    readBytes r (dataLines lines) = ([], .ok { r with
      data := r.data ++ lines.map value
      dataBytes := countedBytes (r.data ++ lines.map value)
      hasFields := !lines.isEmpty || r.hasFields }) := by
  induction lines generalizing r with
  | nil =>
    cases r
    simp_all [dataLines, readBytes]
  | cons l rest ih =>
    have hsplit : r.data ++ (l :: rest).map value = (r.data ++ [value l]) ++ rest.map value := by simp
    have hfirst : countedBytes (r.data ++ [value l]) ≤ maxSsePending := by
      refine (countedBytes_append _ (rest.map value)).trans ?_
      rwa [← hsplit]
    rw [dataLines, List.flatMap_cons, readBytes_append, hread l List.mem_cons_self r hempty,
      pushData_ok hcount hfirst]
    rw [hsplit] at hsize ⊢
    simp only [andThen_ok, List.nil_append]
    have hrest := ih (r := { r with
        data := r.data ++ [value l]
        dataBytes := countedBytes (r.data ++ [value l])
        hasFields := true }) (fun l hl => hread l (List.mem_cons_of_mem _ hl)) hempty rfl hsize
    rw [← dataLines, hrest]
    simp

theorem pushLine_data (value : List Char) (r : SseFrameReader) :
    pushLine (dataName ++ ':' :: ' ' :: value) r =
      (pushData (String.ofList value) r).map fun r => (none, r) := by
  have hname : ¬ String.ofList dataName = "event" ∧ String.ofList dataName = "data" := by decide
  rw [pushLine_field fieldName_data, if_neg hname.1, if_pos hname.2]

theorem readBytes_dataLines {lines : List (List Char)} (hlines : ∀ l ∈ lines, Writable dataName l)
    (hempty : r.buffer = []) (hcount : r.dataBytes = countedBytes r.data)
    (hsize : countedBytes (r.data ++ lines.map String.ofList) ≤ maxSsePending) :
    readBytes r (dataLines lines) = ([], .ok { r with
      data := r.data ++ lines.map String.ofList
      dataBytes := countedBytes (r.data ++ lines.map String.ofList)
      hasFields := !lines.isEmpty || r.hasFields }) := by
  refine readBytes_dataLines_as ?_ hempty hcount hsize
  intro l hl r hempty
  rw [readBytes_fieldLine fieldName_data (hlines l hl) hempty, pushLine_data]
  cases pushData (String.ofList l) r <;> rfl

/-- A frame that is written without a change. -/
structure WritableFrame (raw : SseFrame) : Prop where
  event : ∀ e, raw.event = some e → Writable eventName e.toList
  lines : ∀ l ∈ raw.data.toList.splitOn '\n', Writable dataName l
  size : countedBytes ((raw.data.toList.splitOn '\n').map String.ofList) ≤ maxSsePending

theorem intercalate_lines (data : String) :
    "\n".intercalate ((data.toList.splitOn '\n').map String.ofList) = data := by
  refine String.toList_inj.mp ?_
  have hnewline : "\n".toList = ['\n'] := by decide
  rw [String.toList_intercalate, List.map_map, hnewline]
  have hid : String.toList ∘ String.ofList = id := funext fun l => String.toList_ofList
  rw [hid, List.map_id, List.intercalate_splitOn]

theorem readBytes_formatSse {raw : SseFrame} (hraw : WritableFrame raw) (hempty : r.buffer = [])
    (hdata : r.data = []) (hbytes : r.dataBytes = 0) (hevent : raw.event = none → r.event = none) :
    readBytes r (formatSse raw) = ([raw], .ok {}) := by
  have hlines : (raw.data.toList.splitOn '\n').isEmpty = false := by
    simp [List.splitOn_ne_nil]
  have hname : raw.event.or r.event = raw.event := by
    cases he : raw.event with
    | none => simpa using hevent he
    | some e => rfl
  have hread := readBytes_dataLines
    (r := { r with event := raw.event.or r.event, hasFields := raw.event.isSome || r.hasFields })
    hraw.lines hempty (by simp [hdata, hbytes, countedBytes]) (by simpa [hdata] using hraw.size)
  rw [formatSse, List.append_assoc, readBytes_append, readBytes_eventLine hraw.event hempty,
    andThen_ok, readBytes_append, hread, andThen_ok, hname]
  simp [readBytes, endLine, hempty, dropReturn, fromUtf8Lossy, pushLine, takeFrame, hdata,
    intercalate_lines, hlines]

theorem readBytes_formatAll {frames : List SseFrame} (h : ∀ raw ∈ frames, WritableFrame raw) :
    readBytes {} (frames.flatMap formatSse) = (frames, .ok {}) := by
  induction frames with
  | nil => rfl
  | cons raw rest ih =>
    rw [List.flatMap_cons, readBytes_append,
      readBytes_formatSse (h raw (by simp)) rfl rfl rfl (fun _ => rfl), andThen_ok,
      ih fun f hf => h f (by simp [hf])]
    rfl

/-- What holds of the reader after any bytes. -/
structure Sound (r : SseFrameReader) : Prop where
  counted : r.dataBytes = countedBytes r.data
  sized : r.dataBytes ≤ maxSsePending
  idle : r.hasFields = false → r.event = none ∧ r.data = []

theorem sound_new : Sound {} := ⟨rfl, Nat.zero_le _, fun _ => ⟨rfl, rfl⟩⟩

variable {t : SseFrameReader} {frame : Option SseFrame}

theorem Sound.buffer (h : Sound r) (line : List UInt8) : Sound { r with buffer := line } :=
  ⟨h.counted, h.sized, h.idle⟩

theorem pushData_sound {value : String} (hr : Sound r) (h : pushData value r = .ok t) : Sound t := by
  by_cases hsize : countedBytes (r.data ++ [value]) ≤ maxSsePending
  · rw [pushData_ok hr.counted hsize] at h
    obtain rfl := Except.ok.inj h
    exact ⟨rfl, hsize, fun hidle => nomatch hidle⟩
  · have hover : maxSsePending <
        r.dataBytes + (if r.data.isEmpty then value.utf8ByteSize else value.utf8ByteSize + 1) := by
      rw [counted_extra hr.counted]
      omega
    rw [pushData, if_pos hover] at h
    cases h

theorem takeFrame_sound (hr : Sound r) : Sound (takeFrame r).2 := by
  unfold takeFrame
  split
  · exact ⟨rfl, Nat.zero_le _, fun _ => ⟨rfl, rfl⟩⟩
  · exact hr

theorem pushLine_sound {text : List Char} (hr : Sound r) (h : pushLine text r = .ok (frame, t)) :
    Sound t := by
  unfold pushLine at h
  simp only at h
  split at h
  · obtain ⟨_, rfl⟩ := Prod.mk.inj (Except.ok.inj h)
    exact takeFrame_sound hr
  · split at h
    · obtain ⟨_, rfl⟩ := Prod.mk.inj (Except.ok.inj h)
      exact hr
    · split at h
      · obtain ⟨_, rfl⟩ := Prod.mk.inj (Except.ok.inj h)
        exact ⟨hr.counted, hr.sized, fun hidle => nomatch hidle⟩
      · split at h
        · cases hdata : pushData (splitField text).2 r with
          | error e =>
            rw [hdata] at h
            cases h
          | ok u =>
            rw [hdata] at h
            obtain ⟨_, rfl⟩ := Prod.mk.inj (Except.ok.inj h)
            exact pushData_sound hr hdata
        · split at h
          · obtain ⟨_, rfl⟩ := Prod.mk.inj (Except.ok.inj h)
            exact ⟨hr.counted, hr.sized, fun hidle => nomatch hidle⟩
          · obtain ⟨_, rfl⟩ := Prod.mk.inj (Except.ok.inj h)
            exact hr

theorem pushData_event {value : String} (h : pushData value r = .ok t) :
    t.hasFields = true ∧ t.event = r.event := by
  unfold pushData at h
  generalize hextra : (if r.data.isEmpty then value.utf8ByteSize else value.utf8ByteSize + 1) = extra
    at h
  simp only at h
  split at h
  · cases h
  · obtain rfl := Except.ok.inj h
    exact ⟨rfl, rfl⟩

theorem takeFrame_event (hfields : r.hasFields = true) :
    (takeFrame r).1 = some ⟨r.event, "\n".intercalate r.data⟩ := by
  unfold takeFrame
  rw [if_pos hfields]

theorem pushLine_event {text : List Char} (hfields : r.hasFields = true)
    (hevent : r.event.isSome = true) (h : pushLine text r = .ok (frame, t)) :
    (∃ raw, frame = some raw ∧ raw.event.isSome = true) ∨
      (frame = none ∧ t.hasFields = true ∧ t.event.isSome = true) := by
  unfold pushLine at h
  simp only at h
  split at h
  · obtain ⟨rfl, _⟩ := Prod.mk.inj (Except.ok.inj h)
    exact .inl ⟨_, takeFrame_event hfields, hevent⟩
  · split at h
    · obtain ⟨rfl, rfl⟩ := Prod.mk.inj (Except.ok.inj h)
      exact .inr ⟨rfl, hfields, hevent⟩
    · split at h
      · obtain ⟨rfl, rfl⟩ := Prod.mk.inj (Except.ok.inj h)
        exact .inr ⟨rfl, rfl, rfl⟩
      · split at h
        · cases hdata : pushData (splitField text).2 r with
          | error e =>
            rw [hdata] at h
            cases h
          | ok u =>
            rw [hdata] at h
            obtain ⟨rfl, rfl⟩ := Prod.mk.inj (Except.ok.inj h)
            obtain ⟨hu, hname⟩ := pushData_event hdata
            exact .inr ⟨rfl, hu, hname ▸ hevent⟩
        · split at h
          · obtain ⟨rfl, rfl⟩ := Prod.mk.inj (Except.ok.inj h)
            exact .inr ⟨rfl, rfl, hevent⟩
          · obtain ⟨rfl, rfl⟩ := Prod.mk.inj (Except.ok.inj h)
            exact .inr ⟨rfl, hfields, hevent⟩

theorem readBytes_sound (bytes : List UInt8) {fs : List SseFrame} (hr : Sound r)
    (h : readBytes r bytes = (fs, .ok t)) : Sound t := by
  induction bytes generalizing r fs with
  | nil =>
    obtain ⟨_, hrt⟩ := Prod.mk.inj h
    exact Except.ok.inj hrt ▸ hr
  | cons b rest ih =>
    unfold readBytes at h
    split at h
    · unfold endLine at h
      split at h
      · cases (Prod.mk.inj h).2
      · rename_i frame u hpush
        exact ih (pushLine_sound (hr.buffer []) hpush) (Prod.ext rfl (Prod.mk.inj h).2)
    · split at h
      · cases (Prod.mk.inj h).2
      · exact ih (hr.buffer _) h

theorem Sound.closed (hr : Sound r) (h : hasOpenFrame r = false) : r = {} := by
  obtain ⟨hfields, hbuffer⟩ := Bool.or_eq_false_iff.mp h
  obtain ⟨hevent, hdata⟩ := hr.idle hfields
  have hcounted := hr.counted
  rw [hdata] at hcounted
  cases r
  simp_all [countedBytes]

/-- An event name already read is in the next frame, or a later one is. -/
theorem readBytes_event (bytes : List UInt8) {raw : SseFrame} {fs : List SseFrame}
    {next : Except String SseFrameReader} (hfields : r.hasFields = true)
    (hevent : r.event.isSome = true) (h : readBytes r bytes = (raw :: fs, next)) :
    raw.event.isSome = true := by
  induction bytes generalizing r with
  | nil => cases (Prod.mk.inj h).1
  | cons b rest ih =>
    unfold readBytes at h
    split at h
    · unfold endLine at h
      split at h
      · cases (Prod.mk.inj h).1
      · rename_i frame u hpush
        have hnext := pushLine_event (r := { r with buffer := [] }) hfields hevent hpush
        rcases hnext with ⟨g, rfl, hg⟩ | ⟨rfl, hu⟩
        · obtain ⟨rfl, _⟩ := List.cons.inj (Prod.mk.inj h).1
          exact hg
        · exact ih hu.1 hu.2 (Prod.ext (Prod.mk.inj h).1 (Prod.mk.inj h).2)
    · split at h
      · cases (Prod.mk.inj h).1
      · exact ih (r := { r with buffer := r.buffer ++ [b] }) hfields hevent h

/-- The open frame can be written: its fields are an event or data, and their lines fit. -/
structure WritableOpen (r : SseFrameReader) : Prop where
  event : ∀ e, r.event = some e → Writable eventName e.toList
  lines : ∀ l ∈ r.data, Writable dataName l.toList
  fields : r.hasFields = true → r.event.isSome ∨ r.data ≠ []

/-- The bytes kept for an open frame say the same as the bytes it came in. -/
theorem readBytes_pendingWireBytes (hsound : Sound r) (hcapped : Capped r) (hopen : WritableOpen r) :
    readBytes {} (pendingWireBytes r) = ([], .ok r) := by
  have hmap : (r.data.map String.toList).map String.ofList = r.data := by
    rw [List.map_map]
    have hid : String.ofList ∘ String.toList = id := funext fun s => String.ofList_toList
    rw [hid, List.map_id]
  have hlines : ∀ l ∈ r.data.map String.toList, Writable dataName l := by
    intro l hl
    obtain ⟨s, hs, rfl⟩ := List.mem_map.mp hl
    exact hopen.lines s hs
  have hfields : (!(r.data.map String.toList).isEmpty || (r.event.isSome || false)) = r.hasFields := by
    cases hf : r.hasFields with
    | true =>
      rcases hopen.fields hf with he | hd
      · simp [he]
      · simp [hd]
    | false => simp [hsound.idle hf]
  rw [pendingWireBytes, List.append_assoc, readBytes_append, readBytes_eventLine hopen.event rfl,
    andThen_ok, readBytes_append, readBytes_dataLines hlines rfl rfl
      (by simpa [hmap] using hsound.counted ▸ hsound.sized), andThen_ok,
    readBytes_part _ _ hcapped.line (by simpa using hcapped.short), hfields]
  cases r
  simpa [hmap] using hsound.counted.symm

end Wiremux.SseRoundTrip
