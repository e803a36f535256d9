import Wiremux.ChunkedReading
import Wiremux.SseReader

set_option autoImplicit false

/-!
# The SSE reader and its chunks

`readBytes` is what the bytes say, one byte at a time, with the frames before
the first line that breaks a cap. The reader gives the same for every cut, but
loses the frames of the chunk in which the cap is broken.
-/
namespace Wiremux.SseChunking
open Utf8Lossy SseReader ChunkedReading

def endLine (r : SseFrameReader) : Reading SseFrame String SseFrameReader :=
  match pushLine (fromUtf8Lossy (dropReturn r.buffer)) { r with buffer := [] } with
  | .error e => ([], .error e)
  | .ok (frame, r) => (frame.toList, .ok r)

def readBytes : SseFrameReader → List UInt8 → Reading SseFrame String SseFrameReader
  | r, [] => ([], .ok r)
  | r, b :: rest =>
    if b = newline then andThen (endLine r) fun r => readBytes r rest
    else if maxSsePending ≤ r.buffer.length then ([], .error lineTooLong)
    else readBytes { r with buffer := r.buffer ++ [b] } rest

/-- A frame is complete before the first line that breaks a cap. -/
def breaksAfterFrame (bytes : List UInt8) : Prop :=
  losesFrames (fun _ => true) (readBytes {} bytes)

/-- Between two feeds the buffer holds a part of one line, within the cap. -/
structure Capped (r : SseFrameReader) : Prop where
  line : newline ∉ r.buffer
  short : r.buffer.length ≤ maxSsePending

theorem capped_new : Capped {} := ⟨by simp, Nat.zero_le _⟩

variable {r t : SseFrameReader} {line : List UInt8} {frame : Option SseFrame}

theorem takeFrame_buffer (r : SseFrameReader) : (takeFrame r).2.buffer = r.buffer := by
  unfold takeFrame
  split <;> rfl

theorem pushData_buffer {value : String} (h : pushData value r = .ok t) : t.buffer = r.buffer := by
  unfold pushData at h
  generalize hextra : (if r.data.isEmpty then value.utf8ByteSize else value.utf8ByteSize + 1) = extra
    at h
  simp only at h
  split at h
  · cases h
  · obtain rfl := Except.ok.inj h
    rfl

theorem pushLine_buffer {text : List Char} (h : pushLine text r = .ok (frame, t)) :
    t.buffer = r.buffer := by
  unfold pushLine at h
  simp only at h
  split at h
  · obtain ⟨_, rfl⟩ := Prod.mk.inj (Except.ok.inj h)
    exact takeFrame_buffer r
  · split at h
    · obtain ⟨_, rfl⟩ := Prod.mk.inj (Except.ok.inj h)
      rfl
    · split at h
      · obtain ⟨_, rfl⟩ := Prod.mk.inj (Except.ok.inj h)
        rfl
      · split at h
        · cases hdata : pushData (splitField text).2 r with
          | error e =>
            rw [hdata] at h
            cases h
          | ok u =>
            rw [hdata] at h
            obtain ⟨_, rfl⟩ := Prod.mk.inj (Except.ok.inj h)
            exact pushData_buffer hdata
        · split at h
          · obtain ⟨_, rfl⟩ := Prod.mk.inj (Except.ok.inj h)
            rfl
          · obtain ⟨_, rfl⟩ := Prod.mk.inj (Except.ok.inj h)
            rfl

theorem endLine_ok {fs : List SseFrame} (h : endLine r = (fs, .ok t)) : t.buffer = [] := by
  unfold endLine at h
  split at h
  · cases (Prod.mk.inj h).2
  · rename_i frame u hpush
    obtain rfl := Except.ok.inj (Prod.mk.inj h).2
    exact pushLine_buffer hpush

theorem readBytes_capped (bytes : List UInt8) {fs : List SseFrame} (hr : Capped r)
    (h : readBytes r bytes = (fs, .ok t)) : Capped t := by
  induction bytes generalizing r fs with
  | nil =>
    obtain ⟨_, hrt⟩ := Prod.mk.inj h
    exact Except.ok.inj hrt ▸ hr
  | cons b rest ih =>
    unfold readBytes at h
    split at h
    · cases hend : endLine r with
      | mk gs next =>
        rw [hend] at h
        cases next with
        | error e => cases (Prod.mk.inj h).2
        | ok u =>
          have hempty := endLine_ok hend
          have hu : Capped u := ⟨by simp [hempty], by simp [hempty]⟩
          exact ih hu (Prod.ext rfl (Prod.mk.inj h).2)
    · rename_i hb
      split at h
      · cases (Prod.mk.inj h).2
      · rename_i hroom
        refine ih ⟨?_, ?_⟩ h
        · simpa using ⟨hr.line, fun heq => hb heq.symm⟩
        · simp only [List.length_append, List.length_singleton]
          omega

theorem readBytes_append (r : SseFrameReader) (xs ys : List UInt8) :
    readBytes r (xs ++ ys) = andThen (readBytes r xs) fun t => readBytes t ys := by
  induction xs generalizing r with
  | nil => simp [readBytes]
  | cons b rest ih =>
    simp only [List.cons_append, readBytes]
    split
    · simp only [ih, andThen_assoc]
    · split
      · rfl
      · exact ih _

theorem readBytes_incremental : Incremental readBytes Capped where
  nil := fun _ _ => rfl
  append := fun r xs ys _ => readBytes_append r xs ys
  valid := fun _ xs _ _ hr h => readBytes_capped xs hr h

def feedReading (r : SseFrameReader) (bytes : List UInt8) :
    Reading SseFrame String SseFrameReader :=
  match feed r bytes with
  | .error e => ([], .error e)
  | .ok (frames, r) => (frames, .ok r)

/-- The lines of one feed, and the check of what is left. -/
def checkedLines (lines : Except String (List SseFrame × SseFrameReader)) :
    Reading SseFrame String SseFrameReader :=
  match lines with
  | .error e => ([], .error e)
  | .ok (frames, r) =>
    if maxSsePending < r.buffer.length then ([], .error lineTooLong) else (frames, .ok r)

theorem feedLines_overlong (r : SseFrameReader) (rest : List UInt8) {line : List UInt8}
    (h : maxSsePending < line.length) :
    checkedLines (feedLines r line rest) = ([], .error lineTooLong) := by
  induction rest generalizing line with
  | nil => simp only [feedLines, checkedLines, if_pos h]
  | cons b rest ih =>
    unfold feedLines
    split
    · rfl
    · refine ih ?_
      simp only [List.length_append, List.length_singleton]
      omega

theorem checkedLines_map (frames : List SseFrame)
    (lines : Except String (List SseFrame × SseFrameReader)) :
    checkedLines (lines.map fun out => (frames ++ out.1, out.2)) =
      match checkedLines lines with
      | (_, .error e) => ([], .error e)
      | (more, .ok t) => (frames ++ more, .ok t) := by
  cases lines with
  | error e => rfl
  | ok out =>
    simp only [Except.map, checkedLines]
    split <;> rfl

theorem checkedLines_eq (rest : List UInt8) (hempty : r.buffer = [])
    (hshort : line.length ≤ maxSsePending) : checkedLines (feedLines r line rest) =
      dropping (fun _ => true) readBytes { r with buffer := line } rest := by
  induction rest generalizing r line with
  | nil =>
    have hroom : ¬ maxSsePending < line.length := Nat.not_lt.mpr hshort
    simp only [feedLines, checkedLines, if_neg hroom]
    rfl
  | cons b rest ih =>
    unfold feedLines dropping readBytes
    split
    · rw [if_neg (Nat.not_lt.mpr hshort)]
      have hback : { r with buffer := [] } = r := by rw [← hempty]
      simp only [endLine, hback]
      cases hpush : pushLine (fromUtf8Lossy (dropReturn line)) r with
      | error e => rfl
      | ok out =>
        obtain ⟨frame, u⟩ := out
        have hu : u.buffer = [] := (pushLine_buffer hpush).trans hempty
        have huback : { u with buffer := [] } = u := by rw [← hu]
        have hrest := @ih _ [] hu (Nat.zero_le _)
        rw [huback] at hrest
        simp only [checkedLines_map, hrest, andThen_ok, dropping]
        cases hread : readBytes u rest with
        | mk fs next => cases next <;> rfl
    · simp only
      split
      · rename_i hfull
        rw [feedLines_overlong r rest (by
          simp only [List.length_append, List.length_singleton]
          omega)]
        rfl
      · exact ih hempty (by
          simp only [List.length_append, List.length_singleton]
          omega)

theorem feedLines_partial (r : SseFrameReader) (line rest : List UInt8) {part : List UInt8}
    (h : newline ∉ part) : feedLines r line (part ++ rest) = feedLines r (line ++ part) rest := by
  induction part generalizing line with
  | nil => simp
  | cons b part ih =>
    obtain ⟨hb, hpart⟩ := List.ne_and_not_mem_of_not_mem_cons h
    simp only [List.cons_append, feedLines, if_neg hb.symm]
    rw [ih _ hpart, List.append_assoc, List.singleton_append]

theorem feedReading_eq (hr : Capped r) (bytes : List UInt8) :
    feedReading r bytes = dropping (fun _ => true) readBytes r bytes := by
  have hlines : feedLines { r with buffer := [] } [] (r.buffer ++ bytes) =
      feedLines { r with buffer := [] } r.buffer bytes := feedLines_partial _ [] bytes hr.line
  have hread := checkedLines_eq (r := { r with buffer := [] }) bytes rfl hr.short
  change checkedLines _ = dropping (fun _ => true) readBytes r bytes at hread
  rw [← hread, ← hlines, feedReading, feed]
  by_cases hlong : maxSsePending < r.buffer.length + bytes.length ∧ newline ∉ bytes ∧
      newline ∉ r.buffer
  · have hall := feedLines_partial { r with buffer := [] } r.buffer [] hlong.2.1
    rw [List.append_nil] at hall
    rw [if_pos hlong, hlines, hall]
    simp [feedLines, checkedLines, hlong.1]
  · rw [if_neg hlong]
    cases feedLines { r with buffer := [] } [] (r.buffer ++ bytes) with
    | error e => rfl
    | ok out =>
      simp only [checkedLines]
      by_cases hover : maxSsePending < out.2.buffer.length
      · simp only [if_pos hover]
      · simp only [if_neg hover]

theorem feedAll_eq (chunks : List (List UInt8)) :
    feedAll feedReading {} chunks = feedAll (dropping (fun _ => true) readBytes) {} chunks :=
  feedAll_congr (fun _ xs hr => feedReading_eq hr xs)
    (fun _ xs _ _ hr h => readBytes_capped xs hr (dropping_ok h)) capped_new chunks

/-- Feed the chunks up to the first error, else finish: the frames and the error. -/
def readAll (chunks : List (List UInt8)) : List SseFrame × Option String :=
  match feedAll feedReading {} chunks with
  | (frames, .error e) => (frames, some e)
  | (frames, .ok r) =>
    match finish r with
    | .error e => (frames, some e)
    | .ok frame => (frames ++ frame.toList, none)

theorem cut_before_break {bytes : List UInt8} {fs : List SseFrame} {e : String}
    (h : readBytes r bytes = (fs, .error e)) (hne : fs ≠ []) :
    ∃ head tail gs t, bytes = head ++ tail ∧ readBytes r head = (gs, .ok t) ∧ gs ≠ [] := by
  induction bytes generalizing r fs with
  | nil => cases (Prod.mk.inj h).2
  | cons b rest ih =>
    unfold readBytes at h
    split at h
    · rename_i hb
      cases hend : endLine r with
      | mk gs next =>
        rw [hend] at h
        cases next with
        | error e' =>
          obtain ⟨rfl, _⟩ := Prod.mk.inj h
          unfold endLine at hend
          split at hend
          · exact absurd (Prod.mk.inj hend).1.symm hne
          · cases (Prod.mk.inj hend).2
        | ok u =>
          by_cases hgs : gs = []
          · subst hgs
            have hrest : readBytes u rest = (fs, .error e) := by
              rw [andThen_ok, List.nil_append] at h
              exact h
            obtain ⟨head, tail, hs, t, rfl, hhead, hhs⟩ := ih hrest hne
            refine ⟨b :: head, tail, hs, t, rfl, ?_, hhs⟩
            rw [readBytes, if_pos hb, hend]
            simp [hhead]
          · refine ⟨[b], rest, gs, u, rfl, ?_, hgs⟩
            rw [readBytes, if_pos hb, hend]
            simp [readBytes]
    · rename_i hb
      split at h
      · obtain ⟨rfl, _⟩ := Prod.mk.inj h
        exact absurd rfl hne
      · rename_i hroom
        obtain ⟨head, tail, hs, t, rfl, hhead, hhs⟩ := ih h hne
        refine ⟨b :: head, tail, hs, t, rfl, ?_, hhs⟩
        rw [readBytes, if_neg hb, if_neg hroom]
        exact hhead

theorem readAll_cut {head tail : List UInt8} {gs : List SseFrame}
    (hhead : readBytes {} head = (gs, .ok t)) (hne : gs ≠ []) : (readAll [head, tail]).1 ≠ [] := by
  have hfirst : dropping (fun _ => true) readBytes {} head = (gs, .ok t) := by
    rw [dropping, hhead]
    rfl
  unfold readAll
  rw [feedAll_eq, feedAll, hfirst]
  simp only [andThen_ok]
  split
  · rename_i frames _ heq
    obtain ⟨rfl, _⟩ := Prod.mk.inj heq
    simp [hne]
  · rename_i frames _ heq
    obtain ⟨rfl, _⟩ := Prod.mk.inj heq
    split <;> simp [hne]

theorem readAll_lost {bytes : List UInt8} (h : breaksAfterFrame bytes) :
    (readAll [bytes]).1 = [] := by
  have hlost : (dropping (fun _ => true) readBytes {} bytes).1 = [] := dropLost_lost h
  obtain ⟨_, e, he, _⟩ := h
  unfold readAll
  rw [feedAll_eq, feedAll_singleton]
  rw [dropping] at hlost ⊢
  cases hread : readBytes {} bytes with
  | mk fs next =>
    rw [hread] at he hlost
    simp only at he
    subst he
    exact hlost

theorem readBytes_overlong (bytes : List UInt8) (hr : Capped r) (hline : newline ∉ bytes)
    (hlong : maxSsePending < r.buffer.length + bytes.length) :
    readBytes r bytes = ([], .error lineTooLong) := by
  induction bytes generalizing r with
  | nil => exact absurd hr.short (Nat.not_le.mpr (by simpa using hlong))
  | cons b rest ih =>
    obtain ⟨hb, hrest⟩ := List.ne_and_not_mem_of_not_mem_cons hline
    rw [readBytes, if_neg hb.symm]
    split
    · rfl
    · rename_i hroom
      refine ih ⟨?_, ?_⟩ hrest ?_
      · simpa using ⟨hr.line, hb⟩
      · simp only [List.length_append, List.length_singleton]
        omega
      · simp only [List.length_append, List.length_singleton]
        rw [List.length_cons] at hlong
        omega

/-- The reader is independent of the cuts exactly where no cap is broken after
a complete frame. -/
theorem sse_chunking_independent (bytes : List UInt8) :
    (∀ chunks : List (List UInt8), chunks.flatten = bytes → readAll chunks = readAll [bytes]) ↔
      ¬ breaksAfterFrame bytes := by
  constructor
  · intro hall hbreak
    obtain ⟨hne, e, he, _⟩ := id hbreak
    obtain ⟨head, tail, gs, t, rfl, hhead, hgs⟩ :=
      cut_before_break (r := {}) (Prod.ext rfl he) hne
    have hcut := @readAll_cut _ _ tail _ hhead hgs
    rw [hall [head, tail] (by simp), readAll_lost hbreak] at hcut
    exact hcut rfl
  · intro hkept chunks hchunks
    have hfeed : ∀ cs : List (List UInt8), cs.flatten = bytes →
        feedAll feedReading {} cs = readBytes {} bytes := by
      intro cs hcs
      rw [feedAll_eq, ← hcs]
      exact feedAll_dropLost readBytes_incremental capped_new cs (by rw [hcs]; exact hkept)
    rw [readAll, readAll, hfeed chunks hchunks, hfeed [bytes] (by simp)]

/-- A line over the cap that follows a frame in the same chunk loses it. -/
theorem overlong_loses {head tail : List UInt8} {gs : List SseFrame}
    (hhead : readBytes {} head = (gs, .ok t)) (hne : gs ≠ []) (hline : newline ∉ tail)
    (hlong : maxSsePending < t.buffer.length + tail.length) :
    readAll [head, tail] ≠ readAll [head ++ tail] := by
  have hrest : readBytes t tail = ([], .error lineTooLong) :=
    readBytes_overlong tail (readBytes_capped head capped_new hhead) hline hlong
  have hbreak : breaksAfterFrame (head ++ tail) := by
    rw [breaksAfterFrame, readBytes_append, hhead, andThen_ok, hrest]
    exact ⟨by simpa using hne, lineTooLong, rfl, rfl⟩
  intro heq
  have hcut := @readAll_cut _ _ tail _ hhead hne
  rw [heq, readAll_lost hbreak] at hcut
  exact hcut rfl

def oneFrame : List UInt8 := [0x64, 0x61, 0x74, 0x61, 0x3A, 0x20, 0x78, newline, newline]

def overlongLine : List UInt8 := List.replicate (maxSsePending + 1) 0x61

theorem newline_notMem_overlongLine : newline ∉ overlongLine := by
  intro h
  exact absurd (List.eq_of_mem_replicate h) (by decide)

theorem length_overlongLine : overlongLine.length = maxSsePending + 1 := List.length_replicate

theorem readBytes_oneFrame : readBytes {} oneFrame = ([⟨none, "x"⟩], .ok {}) := rfl

theorem overlongLine_long (n : Nat) : maxSsePending < n + overlongLine.length := by
  rw [length_overlongLine]
  omega

/-- In one chunk the frame before the long line is lost; after a cut it is not. -/
theorem sse_long_line_loses_frame : ¬ ∀ (bytes : List UInt8) (chunks : List (List UInt8)),
    chunks.flatten = bytes → readAll chunks = readAll [bytes] := by
  intro hall
  have hflat : ∀ head tail : List UInt8, [head, tail].flatten = head ++ tail := by simp
  exact overlong_loses readBytes_oneFrame (List.cons_ne_nil _ _) newline_notMem_overlongLine
    (overlongLine_long _) (hall _ _ (hflat oneFrame overlongLine))

end Wiremux.SseChunking
