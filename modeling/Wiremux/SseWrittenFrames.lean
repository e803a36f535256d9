import Mathlib
import Wiremux.SseReadBack

set_option autoImplicit false

/-!
# Written frames

`formatSse` and the reader are inverse on the writable frames and on no other.
-/
namespace Wiremux.SseWrittenFrames
open Utf8Lossy SseReader ChunkedReading SseChunking SseWriting SseRoundTrip PercentDecoding SseReadBack

variable {r t : SseFrameReader} {raw : SseFrame}

/-- No line feed in the event name, in a data line or in the line that is read. -/
structure OneLine (r : SseFrameReader) : Prop where
  event : ∀ e, r.event = some e → '\n' ∉ e.toList
  data : ∀ d ∈ r.data, '\n' ∉ d.toList
  buffer : newline ∉ r.buffer

theorem oneLine_new : OneLine {} := ⟨nofun, by simp, by simp⟩

def OneLineEvent (raw : SseFrame) : Prop := ∀ e, raw.event = some e → '\n' ∉ e.toList

theorem mem_splitField_snd {line : List Char} {c : Char} (h : c ∈ (splitField line).2.toList) :
    c ∈ line := by
  unfold splitField at h
  split at h
  · cases h
  · rename_i colon value hdrop
    have hvalue : ∀ d ∈ value, d ∈ line := by
      intro d hd
      have hmem : d ∈ line.dropWhile (· ≠ ':') := by
        rw [hdrop]
        exact List.mem_cons_of_mem _ hd
      exact (List.dropWhile_suffix _).mem hmem
    rw [String.toList_ofList] at h
    split at h
    · exact hvalue c (List.mem_cons_of_mem _ h)
    · exact hvalue c h

theorem takeFrame_oneLine (hr : OneLine r) :
    (∀ raw, (takeFrame r).1 = some raw → OneLineEvent raw) ∧ OneLine (takeFrame r).2 := by
  unfold takeFrame
  split
  · refine ⟨?_, ⟨nofun, by simp, hr.buffer⟩⟩
    intro raw hraw
    obtain rfl := Option.some.inj hraw
    exact hr.event
  · exact ⟨nofun, hr⟩

theorem pushData_oneLine {value : String} (hr : OneLine r) (hvalue : '\n' ∉ value.toList)
    (h : pushData value r = .ok t) : OneLine t := by
  unfold pushData at h
  generalize hextra : (if r.data.isEmpty then value.utf8ByteSize else value.utf8ByteSize + 1) = extra
    at h
  simp only at h
  split at h
  · cases h
  · obtain rfl := Except.ok.inj h
    refine ⟨hr.event, ?_, hr.buffer⟩
    intro d hd
    rcases List.mem_append.mp hd with hd | hd
    · exact hr.data d hd
    · rw [List.mem_singleton.mp hd]
      exact hvalue

theorem pushLine_oneLine {text : List Char} {frame : Option SseFrame} (hr : OneLine r)
    (htext : '\n' ∉ text) (h : pushLine text r = .ok (frame, t)) :
    (∀ raw, frame = some raw → OneLineEvent raw) ∧ OneLine t := by
  have hvalue : '\n' ∉ (splitField text).2.toList := fun hmem => htext (mem_splitField_snd hmem)
  unfold pushLine at h
  simp only at h
  split at h
  · obtain ⟨rfl, rfl⟩ := Prod.mk.inj (Except.ok.inj h)
    exact takeFrame_oneLine hr
  · split at h
    · obtain ⟨rfl, rfl⟩ := Prod.mk.inj (Except.ok.inj h)
      exact ⟨nofun, hr⟩
    · split at h
      · obtain ⟨rfl, rfl⟩ := Prod.mk.inj (Except.ok.inj h)
        refine ⟨nofun, ⟨?_, hr.data, hr.buffer⟩⟩
        intro e he
        obtain rfl := Option.some.inj he
        exact hvalue
      · split at h
        · cases hdata : pushData (splitField text).2 r with
          | error e =>
            rw [hdata] at h
            cases h
          | ok u =>
            rw [hdata] at h
            obtain ⟨rfl, rfl⟩ := Prod.mk.inj (Except.ok.inj h)
            exact ⟨nofun, pushData_oneLine hr hvalue hdata⟩
        · split at h
          · obtain ⟨rfl, rfl⟩ := Prod.mk.inj (Except.ok.inj h)
            exact ⟨nofun, ⟨hr.event, hr.data, hr.buffer⟩⟩
          · obtain ⟨rfl, rfl⟩ := Prod.mk.inj (Except.ok.inj h)
            exact ⟨nofun, hr⟩

theorem newline_notMem_lossy {bytes : List UInt8} (h : newline ∉ bytes) :
    '\n' ∉ fromUtf8Lossy bytes := fun hmem => h (mem_fromUtf8Lossy (by decide) hmem)

theorem mem_dropReturn {bytes : List UInt8} {b : UInt8} (h : b ∈ dropReturn bytes) : b ∈ bytes := by
  unfold dropReturn at h
  split at h
  · exact List.mem_of_mem_dropLast h
  · exact h

theorem readBytes_oneLine (bytes : List UInt8) {fs : List SseFrame}
    {next : Except String SseFrameReader} (hr : OneLine r) (h : readBytes r bytes = (fs, next)) :
    (∀ raw ∈ fs, OneLineEvent raw) ∧ ∀ t, next = .ok t → OneLine t := by
  induction bytes generalizing r fs with
  | nil =>
    obtain ⟨rfl, rfl⟩ := Prod.mk.inj h
    refine ⟨by simp, ?_⟩
    intro t ht
    exact Except.ok.inj ht ▸ hr
  | cons b rest ih =>
    unfold readBytes at h
    split at h
    · unfold endLine at h
      split at h
      · obtain ⟨rfl, rfl⟩ := Prod.mk.inj h
        exact ⟨by simp, fun t ht => by cases ht⟩
      · rename_i frame u hpush
        have hline : '\n' ∉ fromUtf8Lossy (dropReturn r.buffer) :=
          newline_notMem_lossy fun hmem => hr.buffer (mem_dropReturn hmem)
        have hempty : OneLine { r with buffer := [] } := ⟨hr.event, hr.data, by simp⟩
        obtain ⟨hframe, hu⟩ := pushLine_oneLine hempty hline hpush
        rw [andThen_ok] at h
        obtain ⟨rfl, hnext⟩ := Prod.mk.inj h
        obtain ⟨hrest, ht⟩ := ih hu (Prod.ext rfl hnext)
        refine ⟨?_, ht⟩
        intro raw hraw
        rcases List.mem_append.mp hraw with hraw | hraw
        · exact hframe raw (Option.mem_toList.mp hraw)
        · exact hrest raw hraw
    · rename_i hb
      split at h
      · obtain ⟨rfl, rfl⟩ := Prod.mk.inj h
        exact ⟨by simp, fun t ht => by cases ht⟩
      · refine ih (r := { r with buffer := r.buffer ++ [b] }) ⟨hr.event, hr.data, ?_⟩ h
        simpa using ⟨hr.buffer, fun heq => hb heq.symm⟩

theorem finish_oneLine {frame : Option SseFrame} (hr : OneLine r) (h : finish r = .ok frame) :
    ∀ raw, frame = some raw → OneLineEvent raw := by
  have hempty : OneLine { r with buffer := [] } := ⟨hr.event, hr.data, by simp⟩
  have hline : '\n' ∉ trimReturns (fromUtf8Lossy r.buffer) := by
    intro hmem
    have hmem := (List.dropWhile_suffix _).mem (List.mem_reverse.mp hmem)
    exact newline_notMem_lossy hr.buffer (List.mem_reverse.mp hmem)
  unfold finish at h
  split at h
  · obtain rfl := Except.ok.inj h
    exact (takeFrame_oneLine hr).1
  · split at h
    · cases h
    · rename_i out _ hpush
      obtain rfl := Except.ok.inj h
      exact (pushLine_oneLine hempty hline hpush).1
    · rename_i u hpush
      obtain rfl := Except.ok.inj h
      exact (takeFrame_oneLine (pushLine_oneLine hempty hline hpush).2).1

theorem dropping_frames {fs : List SseFrame} {next : Except String SseFrameReader}
    {bytes : List UInt8} (h : dropping (fun _ => true) readBytes r bytes = (fs, next)) :
    ∀ raw ∈ fs, raw ∈ (readBytes r bytes).1 := by
  intro raw hraw
  unfold dropping dropLost at h
  split at h
  · obtain ⟨rfl, _⟩ := Prod.mk.inj h
    simp at hraw
  · rename_i heq
    obtain ⟨rfl, _⟩ := Prod.mk.inj h
    rw [heq]
    exact hraw

theorem readAll_oneLine {bytes : List UInt8} {frames : List SseFrame} {e : Option String}
    (h : readAll [bytes] = (frames, e)) : ∀ raw ∈ frames, OneLineEvent raw := by
  have hread := readBytes_oneLine bytes oneLine_new (Prod.mk.eta (p := readBytes {} bytes)).symm
  unfold readAll at h
  rw [feedAll_eq, feedAll_singleton] at h
  split at h
  · rename_i fs e' heq
    obtain ⟨rfl, _⟩ := Prod.mk.inj h
    exact fun raw hraw => hread.1 raw (dropping_frames heq raw hraw)
  · rename_i fs t heq
    have ht : OneLine t := by
      have hok := dropping_ok heq
      exact hread.2 t (by rw [hok])
    split at h
    · obtain ⟨rfl, _⟩ := Prod.mk.inj h
      exact fun raw hraw => hread.1 raw (dropping_frames heq raw hraw)
    · rename_i frame hfinish
      obtain ⟨rfl, _⟩ := Prod.mk.inj h
      intro raw hraw
      rcases List.mem_append.mp hraw with hraw | hraw
      · exact hread.1 raw (dropping_frames heq raw hraw)
      · exact finish_oneLine ht hfinish raw (Option.mem_toList.mp hraw)

def readBack (raw : SseFrame) : SseFrame :=
  ⟨raw.event.map keptText, "\n".intercalate (keptLines (raw.data.toList.splitOn '\n'))⟩

/-- Every line fits the cap, and so does the data that comes back. -/
structure FrameFits (raw : SseFrame) : Prop where
  event : ∀ e, raw.event = some e → LineFits eventName e.toList
  lines : ∀ l ∈ raw.data.toList.splitOn '\n', LineFits dataName l
  size : countedBytes (keptLines (raw.data.toList.splitOn '\n')) ≤ maxSsePending

theorem notMem_of_mem_splitOn {c : Char} {text line : List Char} (h : line ∈ text.splitOn c) :
    c ∉ line := by
  induction text generalizing line with
  | nil =>
    rw [List.splitOn_nil, List.mem_singleton] at h
    simp [h]
  | cons d rest ih =>
    rw [List.splitOn_cons_eq_if_modifyHead] at h
    obtain ⟨first, more, hsplit⟩ := List.exists_cons_of_ne_nil (List.splitOn_ne_nil c rest)
    rw [hsplit] at h ih
    split at h
    · rcases List.mem_cons.mp h with rfl | h
      · simp
      · exact ih h
    · rename_i hd
      rw [List.modifyHead_cons] at h
      rcases List.mem_cons.mp h with rfl | h
      · have hfirst := ih (List.mem_cons_self (l := more))
        intro hmem
        rcases List.mem_cons.mp hmem with rfl | hmem
        · exact hd (beq_self_eq_true _)
        · exact hfirst hmem
      · exact ih (List.mem_cons_of_mem _ h)

theorem splitOn_oneLine (raw : SseFrame) : ∀ l ∈ raw.data.toList.splitOn '\n', '\n' ∉ l :=
  fun _ hl => notMem_of_mem_splitOn hl

theorem readBytes_formatSse_fits (hone : OneLineEvent raw) (hfits : FrameFits raw) :
    readBytes {} (formatSse raw) = ([readBack raw], .ok {}) := by
  have hlines : (raw.data.toList.splitOn '\n').isEmpty = false := by
    simp [List.splitOn_ne_nil]
  have hread := readBytes_dataLines_fits
    (r := { event := (raw.event.map keptText).or none, hasFields := raw.event.isSome || false })
    (splitOn_oneLine raw) hfits.lines rfl rfl (by simpa using hfits.size)
  rw [formatSse, List.append_assoc, readBytes_append, readBytes_eventLine_fits hone hfits.event rfl,
    andThen_ok, readBytes_append, hread, andThen_ok]
  simp [readBytes, endLine, dropReturn, fromUtf8Lossy, pushLine, takeFrame, hlines, readBack]

theorem readBytes_formatSse_error (hone : OneLineEvent raw) (hover : ¬ FrameFits raw) :
    ∃ e, readBytes {} (formatSse raw) = ([], .error e) := by
  rw [formatSse, List.append_assoc]
  by_cases hevent : ∀ e, raw.event = some e → LineFits eventName e.toList
  · have hlines : ¬ ((∀ l ∈ raw.data.toList.splitOn '\n', LineFits dataName l) ∧
        countedBytes ([] ++ keptLines (raw.data.toList.splitOn '\n')) ≤ maxSsePending) := by
      rintro ⟨hlines, hsize⟩
      exact hover ⟨hevent, hlines, hsize⟩
    obtain ⟨e, he⟩ := readBytes_dataLines_error
      (r := { event := (raw.event.map keptText).or none, hasFields := raw.event.isSome || false })
      (splitOn_oneLine raw) rfl rfl (Nat.zero_le _) hlines
    refine ⟨e, ?_⟩
    rw [readBytes_append, readBytes_eventLine_fits hone hevent rfl, andThen_ok,
      readBytes_append_error he]
    rfl
  · push Not at hevent
    obtain ⟨name, hname, hlong⟩ := hevent
    refine ⟨lineTooLong, readBytes_append_error ?_ _⟩
    rw [hname, eventLine]
    exact readBytes_field_overlong fieldName_event (hone name hname) hlong rfl

theorem keptLines_eq_map {lines : List (List Char)} (h : ∀ l ∈ lines, l.getLast? ≠ some '\r') :
    keptLines lines = lines.map String.ofList :=
  List.map_congr_left fun l hl => congrArg String.ofList (dropReturnChar_of_ne (h l hl))

theorem lines_kept {data : String}
    (h : "\n".intercalate (keptLines (data.toList.splitOn '\n')) = data) :
    ∀ l ∈ data.toList.splitOn '\n', l.getLast? ≠ some '\r' := by
  have hnewline : "\n".toList = ['\n'] := by decide
  have hjoined : ['\n'].intercalate ((data.toList.splitOn '\n').map dropReturnChar) = data.toList := by
    have hid : String.toList ∘ (fun l => String.ofList (dropReturnChar l)) = dropReturnChar :=
      funext fun l => String.toList_ofList
    conv_rhs => rw [← h, String.toList_intercalate, keptLines, List.map_map, hnewline, hid]
  have hsplit := congrArg (List.splitOn '\n') hjoined
  rw [List.splitOn_intercalate '\n'
    (fun l hl hmem => by
      obtain ⟨line, hline, rfl⟩ := List.mem_map.mp hl
      exact notMem_of_mem_splitOn hline (mem_dropReturnChar hmem))
    (by simp [List.splitOn_ne_nil])] at hsplit
  intro l hl
  have hfixed := List.map_inj_left.mp (hsplit.trans (List.map_id _).symm) l hl
  exact dropReturnChar_fixed hfixed

theorem readBack_eq_self : readBack raw = raw ↔
    (∀ e, raw.event = some e → e.toList.getLast? ≠ some '\r') ∧
      ∀ l ∈ raw.data.toList.splitOn '\n', l.getLast? ≠ some '\r' := by
  constructor
  · intro h
    refine ⟨?_, lines_kept (congrArg SseFrame.data h)⟩
    intro e he
    have hevent : raw.event.map keptText = raw.event := congrArg SseFrame.event h
    rw [he, Option.map_some] at hevent
    exact keptText_eq_self.mp (Option.some.inj hevent)
  · rintro ⟨hevent, hlines⟩
    obtain ⟨event, data⟩ := raw
    refine (SseFrame.mk.injEq _ _ _ _).mpr ⟨?_, ?_⟩
    · cases event with
      | none => rfl
      | some e => exact congrArg some (keptText_eq_self.mpr (hevent e rfl))
    · rw [keptLines_eq_map hlines]
      exact intercalate_lines data

theorem writableFrame_iff : WritableFrame raw ↔
    OneLineEvent raw ∧ FrameFits raw ∧ readBack raw = raw := by
  constructor
  · intro h
    have hlines : ∀ l ∈ raw.data.toList.splitOn '\n', l.getLast? ≠ some '\r' :=
      fun l hl => (h.lines l hl).noReturn
    refine ⟨fun e he => (h.event e he).oneLine, ⟨fun e he => (h.event e he).short,
      fun l hl => (h.lines l hl).short, ?_⟩, ?_⟩
    · rw [keptLines_eq_map hlines]
      exact h.size
    · exact readBack_eq_self.mpr ⟨fun e he => (h.event e he).noReturn, hlines⟩
  · rintro ⟨hone, hfits, hback⟩
    obtain ⟨hevent, hlines⟩ := readBack_eq_self.mp hback
    refine ⟨fun e he => ⟨hone e he, hevent e he, hfits.event e he⟩,
      fun l hl => ⟨splitOn_oneLine raw l hl, hlines l hl, hfits.lines l hl⟩, ?_⟩
    rw [← keptLines_eq_map hlines]
    exact hfits.size

theorem readBytes_formatAll_fits {frames : List SseFrame} (hone : ∀ raw ∈ frames, OneLineEvent raw)
    (hfits : ∀ raw ∈ frames, FrameFits raw) :
    readBytes {} (frames.flatMap formatSse) = (frames.map readBack, .ok {}) := by
  induction frames with
  | nil => rfl
  | cons raw rest ih =>
    rw [List.flatMap_cons, readBytes_append,
      readBytes_formatSse_fits (hone raw (by simp)) (hfits raw (by simp)), andThen_ok,
      ih (fun f hf => hone f (by simp [hf])) (fun f hf => hfits f (by simp [hf]))]
    rfl

theorem readBytes_formatAll_error {frames : List SseFrame} (hone : ∀ raw ∈ frames, OneLineEvent raw)
    (hover : ¬ ∀ raw ∈ frames, FrameFits raw) :
    ∃ fs e, readBytes {} (frames.flatMap formatSse) = (fs, .error e) := by
  induction frames with
  | nil => exact absurd (by simp) hover
  | cons raw rest ih =>
    rw [List.flatMap_cons]
    by_cases hfits : FrameFits raw
    · obtain ⟨fs, e, he⟩ := ih (fun f hf => hone f (by simp [hf])) (by
        intro hrest
        refine hover ?_
        intro f hf
        rcases List.mem_cons.mp hf with rfl | hf
        · exact hfits
        · exact hrest f hf)
      refine ⟨readBack raw :: fs, e, ?_⟩
      rw [readBytes_append, readBytes_formatSse_fits (hone raw (by simp)) hfits, andThen_ok, he]
      rfl
    · obtain ⟨e, he⟩ := readBytes_formatSse_error (hone raw (by simp)) hfits
      exact ⟨[], e, readBytes_append_error he _⟩

theorem readAll_ok {bytes : List UInt8} {fs : List SseFrame} (h : readBytes {} bytes = (fs, .ok {})) :
    readAll [bytes] = (fs, none) := by
  have hread : dropping (fun _ => true) readBytes {} bytes = (fs, .ok {}) := by
    rw [dropping, h]
    rfl
  rw [readAll, feedAll_eq, feedAll_singleton, hread]
  simp [finish, takeFrame]

theorem readAll_error {bytes : List UInt8} {fs : List SseFrame} {e : String}
    (h : readBytes {} bytes = (fs, .error e)) : readAll [bytes] = ([], some e) := by
  have hread : dropping (fun _ => true) readBytes {} bytes = ([], .error e) := by
    rw [dropping, h]
    rfl
  rw [readAll, feedAll_eq, feedAll_singleton, hread]

theorem written_list_read_back (frames : List SseFrame) :
    readAll [frames.flatMap formatSse] = (frames, none) ↔ ∀ raw ∈ frames, WritableFrame raw := by
  constructor
  · intro h
    have hone := readAll_oneLine h
    by_cases hfits : ∀ raw ∈ frames, FrameFits raw
    · have hread := readAll_ok (readBytes_formatAll_fits hone hfits)
      have hmap : frames.map readBack = frames := (Prod.mk.inj (hread.symm.trans h)).1
      intro raw hraw
      have hback := List.map_inj_left.mp (hmap.trans (List.map_id _).symm) raw hraw
      exact writableFrame_iff.mpr ⟨hone raw hraw, hfits raw hraw, hback⟩
    · obtain ⟨fs, e, he⟩ := readBytes_formatAll_error hone hfits
      exact absurd (Prod.mk.inj ((readAll_error he).symm.trans h)).2 (Option.some_ne_none e)
  · intro h
    exact readAll_ok (readBytes_formatAll h)

/-- A frame is read back as it was written exactly when it is writable, and
frames written one after the other exactly when each of them is. -/
theorem written_frames_read_back (raw : SseFrame) (frames : List SseFrame) :
    (readAll [formatSse raw] = ([raw], none) ↔ WritableFrame raw) ∧
      (readAll [frames.flatMap formatSse] = (frames, none) ↔ ∀ raw ∈ frames, WritableFrame raw) := by
  refine ⟨?_, written_list_read_back frames⟩
  have h := written_list_read_back [raw]
  rwa [List.flatMap_singleton, List.forall_mem_singleton] at h

/-- `data: x`, a carriage return more than the line end has, and the blank line. -/
def returnBytes : List UInt8 :=
  [0x64, 0x61, 0x74, 0x61, 0x3A, 0x20, 0x78, carriageReturn, carriageReturn, newline, newline]

theorem readAll_returnBytes : readAll [returnBytes] = ([⟨none, "x\r"⟩], none) := by
  decide +kernel

/-- A frame of the reader whose data ends in a carriage return is written so
that it is read back without it. -/
theorem carriage_return_not_read_back : ¬ ∀ raw : SseFrame, (∃ bytes, raw ∈ (readAll [bytes]).1) →
    readAll [formatSse raw] = ([raw], none) := by
  intro h
  have hread : readAll [formatSse ⟨none, "x\r"⟩] = ([⟨none, "x"⟩], none) := by decide +kernel
  have hback := h ⟨none, "x\r"⟩ ⟨returnBytes, by rw [readAll_returnBytes]; exact List.mem_singleton_self _⟩
  rw [hread] at hback
  exact absurd hback (by decide)

end Wiremux.SseWrittenFrames
