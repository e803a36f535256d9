import Mathlib
import Wiremux.PercentDecoding
import Wiremux.SseRoundTrip

set_option autoImplicit false

/-!
# Which frames are read back

Any field line is read: the reader takes one carriage return off its end, and a
line over the cap is an error. So a frame comes back as `readBack` or not at
all, and it is `readBack` of itself when it is writable.
-/
namespace Wiremux.SseReadBack
open Utf8Lossy SseReader ChunkedReading SseChunking SseWriting SseRoundTrip PercentDecoding

variable {text value name : List Char} {r t : SseFrameReader}

def dropReturnChar (text : List Char) : List Char :=
  if text.getLast? = some '\r' then text.dropLast else text

theorem dropReturnChar_of_ne (h : text.getLast? ≠ some '\r') : dropReturnChar text = text := if_neg h

theorem dropReturnChar_concat (text : List Char) : dropReturnChar (text ++ ['\r']) = text := by
  rw [dropReturnChar, if_pos List.getLast?_concat, List.dropLast_concat]

theorem ends_in_return (h : text.getLast? = some '\r') : text = dropReturnChar text ++ ['\r'] := by
  obtain ⟨front, rfl⟩ := List.getLast?_eq_some_iff.mp h
  rw [dropReturnChar_concat]

theorem dropReturnChar_fixed (h : dropReturnChar text = text) : text.getLast? ≠ some '\r' := by
  intro hlast
  have hlength := congrArg List.length (ends_in_return hlast)
  rw [h, List.length_append] at hlength
  simp at hlength

theorem mem_dropReturnChar {c : Char} (h : c ∈ dropReturnChar text) : c ∈ text := by
  unfold dropReturnChar at h
  split at h
  · exact List.mem_of_mem_dropLast h
  · exact h

theorem dropReturn_concat (bytes : List UInt8) : dropReturn (bytes ++ [carriageReturn]) = bytes := by
  rw [dropReturn, if_pos List.getLast?_concat, List.dropLast_concat]

theorem dropReturn_text (text : List Char) : dropReturn (utf8 text) = utf8 (dropReturnChar text) := by
  by_cases hlast : text.getLast? = some '\r'
  · have hreturn : utf8 ['\r'] = [carriageReturn] := rfl
    conv_lhs => rw [ends_in_return hlast, utf8_append, hreturn]
    exact dropReturn_concat _
  · rw [dropReturn_utf8 hlast, dropReturnChar_of_ne hlast]

theorem dropReturnChar_field (name value : List Char) :
    dropReturnChar (name ++ ':' :: ' ' :: value) = name ++ ':' :: ' ' :: dropReturnChar value := by
  by_cases hlast : value.getLast? = some '\r'
  · have hsplit : name ++ ':' :: ' ' :: value =
        (name ++ ':' :: ' ' :: dropReturnChar value) ++ ['\r'] := by
      conv_lhs => rw [ends_in_return hlast]
      simp
    rw [hsplit, dropReturnChar_concat]
  · rw [dropReturnChar_of_ne (line_getLast hlast), dropReturnChar_of_ne hlast]

def LineFits (name value : List Char) : Prop :=
  (utf8 (name ++ ':' :: ' ' :: value)).length ≤ maxSsePending

theorem readBytes_field (hname : FieldName name) (hvalue : '\n' ∉ value)
    (hfits : LineFits name value) (hempty : r.buffer = []) :
    readBytes r (fieldLine name value) =
      match pushLine (name ++ ':' :: ' ' :: dropReturnChar value) r with
      | .error e => ([], .error e)
      | .ok (frame, t) => (frame.toList, .ok t) := by
  have hline : '\n' ∉ name ++ ':' :: ' ' :: value := by
    simpa using ⟨hname.oneLine, hvalue⟩
  have hback : { r with buffer := [] } = r := by rw [← hempty]
  rw [fieldLine, readBytes_line r _ [] (newline_notMem_utf8 hline)
    (by rw [hempty, List.length_nil, Nat.zero_add]; exact hfits),
    endLine, hempty, List.nil_append]
  simp only
  rw [dropReturn_text, dropReturnChar_field, fromUtf8Lossy_utf8, hback]
  cases pushLine (name ++ ':' :: ' ' :: dropReturnChar value) r with
  | error e => rfl
  | ok out => simp [readBytes]

theorem readBytes_append_error {head : List UInt8} {fs : List SseFrame} {e : String}
    (h : readBytes r head = (fs, .error e)) (tail : List UInt8) :
    readBytes r (head ++ tail) = (fs, .error e) := by
  rw [readBytes_append, h, andThen_error]

theorem readBytes_field_overlong (hname : FieldName name) (hvalue : '\n' ∉ value)
    (hlong : ¬ LineFits name value) (hempty : r.buffer = []) :
    readBytes r (fieldLine name value) = ([], .error lineTooLong) := by
  have hline : '\n' ∉ name ++ ':' :: ' ' :: value := by
    simpa using ⟨hname.oneLine, hvalue⟩
  have hcapped : Capped r := ⟨by simp [hempty], by simp [hempty]⟩
  refine readBytes_append_error (readBytes_overlong _ hcapped (newline_notMem_utf8 hline) ?_) _
  rw [hempty, List.length_nil, Nat.zero_add]
  exact not_le.mp hlong

/-- A name that comes back: without a carriage return at its end. -/
def keptText (text : String) : String := String.ofList (dropReturnChar text.toList)

theorem keptText_eq_self {text : String} :
    keptText text = text ↔ text.toList.getLast? ≠ some '\r' := by
  rw [keptText, ← String.toList_inj, String.toList_ofList]
  exact ⟨dropReturnChar_fixed, dropReturnChar_of_ne⟩

theorem readBytes_eventLine_fits {event : Option String}
    (hone : ∀ e, event = some e → '\n' ∉ e.toList)
    (hfits : ∀ e, event = some e → LineFits eventName e.toList) (hempty : r.buffer = []) :
    readBytes r (eventLine event) = ([], .ok { r with
      event := (event.map keptText).or r.event
      hasFields := event.isSome || r.hasFields }) := by
  cases event with
  | none => rfl
  | some e =>
    have hname : String.ofList eventName = "event" := by decide
    rw [eventLine, readBytes_field fieldName_event (hone e rfl) (hfits e rfl) hempty,
      pushLine_field fieldName_event, if_pos hname]
    simp [keptText]

theorem pushData_over {value : String} (hcount : r.dataBytes = countedBytes r.data)
    (hsize : maxSsePending < countedBytes (r.data ++ [value])) :
    pushData value r = .error dataTooLong := by
  rw [pushData, counted_extra hcount, if_pos hsize]

def keptLines (lines : List (List Char)) : List String :=
  lines.map fun l => String.ofList (dropReturnChar l)

theorem readBytes_dataLines_fits {lines : List (List Char)} (hone : ∀ l ∈ lines, '\n' ∉ l)
    (hfits : ∀ l ∈ lines, LineFits dataName l) (hempty : r.buffer = [])
    (hcount : r.dataBytes = countedBytes r.data)
    (hsize : countedBytes (r.data ++ keptLines lines) ≤ maxSsePending) :
    readBytes r (dataLines lines) = ([], .ok { r with
      data := r.data ++ keptLines lines
      dataBytes := countedBytes (r.data ++ keptLines lines)
      hasFields := !lines.isEmpty || r.hasFields }) := by
  refine readBytes_dataLines_as ?_ hempty hcount hsize
  intro l hl r hempty
  rw [readBytes_field fieldName_data (hone l hl) (hfits l hl) hempty, pushLine_data]
  cases pushData (String.ofList (dropReturnChar l)) r <;> rfl

theorem readBytes_dataLines_error {lines : List (List Char)} (hone : ∀ l ∈ lines, '\n' ∉ l)
    (hempty : r.buffer = []) (hcount : r.dataBytes = countedBytes r.data)
    (hr : r.dataBytes ≤ maxSsePending)
    (hover : ¬ ((∀ l ∈ lines, LineFits dataName l) ∧
      countedBytes (r.data ++ keptLines lines) ≤ maxSsePending)) :
    ∃ e, readBytes r (dataLines lines) = ([], .error e) := by
  induction lines generalizing r with
  | nil =>
    refine absurd ⟨by simp, ?_⟩ hover
    rw [keptLines, List.map_nil, List.append_nil, ← hcount]
    exact hr
  | cons l rest ih =>
    rw [dataLines, List.flatMap_cons]
    by_cases hline : LineFits dataName l
    · have hread := readBytes_field (r := r) fieldName_data (hone l (by simp)) hline hempty
      rw [pushLine_data] at hread
      by_cases hfirst : countedBytes (r.data ++ [String.ofList (dropReturnChar l)]) ≤ maxSsePending
      · rw [pushData_ok hcount hfirst] at hread
        have hsplit : r.data ++ keptLines (l :: rest) =
            (r.data ++ [String.ofList (dropReturnChar l)]) ++ keptLines rest := by simp [keptLines]
        obtain ⟨e, he⟩ := ih (r := { r with
            data := r.data ++ [String.ofList (dropReturnChar l)]
            dataBytes := countedBytes (r.data ++ [String.ofList (dropReturnChar l)])
            hasFields := true }) (fun l hl => hone l (by simp [hl])) hempty rfl hfirst (by
          rintro ⟨hlines, hsize⟩
          refine hover ⟨?_, by rwa [hsplit]⟩
          intro line hmem
          rcases List.mem_cons.mp hmem with rfl | hmem
          · exact hline
          · exact hlines line hmem)
        refine ⟨e, ?_⟩
        rw [readBytes_append, hread]
        simp only [Except.map, Option.toList_none, andThen_ok, List.nil_append]
        rw [← dataLines, he]
      · rw [pushData_over hcount (not_le.mp hfirst)] at hread
        exact ⟨_, readBytes_append_error hread _⟩
    · exact ⟨_, readBytes_append_error
        (readBytes_field_overlong fieldName_data (hone l (by simp)) hline hempty) _⟩

end Wiremux.SseReadBack
