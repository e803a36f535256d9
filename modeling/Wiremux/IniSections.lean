import Mathlib.Data.List.Induction
import Wiremux.UpstreamUrls

set_option autoImplicit false

/-!
# Sections of an AWS file

`ini_section` reads the lines of a file once and keeps the keys that stand in the wanted
section. A key that is repeated has its last value.
-/
namespace Wiremux.IniSections
open ChatDecoding (splitOnce)
open JsonValue (asciiLowerChar)
open UpstreamUrls (trim stripPrefix? stripSuffix?)

abbrev Text := List Char

def splitLines : Text → List Text
  | [] => []
  | '\n' :: rest => [] :: splitLines rest
  | c :: rest =>
    match splitLines rest with
    | [] => [[c]]
    | line :: lines => (c :: line) :: lines

/-- The blanks at the ends, among them a carriage return, are trimmed off each line. -/
def lines (text : Text) : List Text := (splitLines text).map trim

def isComment (line : Text) : Bool :=
  line.isEmpty || line.head? == some '#' || line.head? == some ';'

def sectionHeader (line : Text) : Option Text :=
  ((stripPrefix? ['['] line).bind (stripSuffix? [']'])).map trim

/-- A key with its value, and the row of its line. -/
structure Entry where
  key : Text
  value : Text
  row : ℕ
deriving DecidableEq

structure IniState where
  current : Option Text := none
  out : List Entry := []
  row : ℕ := 0

def insertEntry (entry : Entry) (out : List Entry) : List Entry :=
  out.filter (fun other => other.key ≠ entry.key) ++ [entry]

def stepLine (want : Text) (st : IniState) (line : Text) : IniState :=
  if isComment line then { st with row := st.row + 1 }
  else
    match sectionHeader line with
    | some name => { st with current := some name, row := st.row + 1 }
    | none =>
      if st.current ≠ some want then { st with row := st.row + 1 }
      else
        match splitOnce ['='] line with
        | none => { st with row := st.row + 1 }
        | some (key, value) =>
          { st with
            out := insertEntry ⟨(trim key).map asciiLowerChar, trim value, st.row⟩ st.out
            row := st.row + 1 }

def iniSection (text name : Text) : Option (List Entry) :=
  let out := ((lines text).foldl (stepLine (trim name)) {}).out
  if out.isEmpty then none else some out

/-- A header is a line that starts with a bracket and holds a closing one. -/
def headerName (line : Text) : Option Text :=
  match line with
  | '[' :: rest => if ']' ∈ rest then some (trim (rest.takeWhile (· != ']'))) else none
  | _ => none

/-- The section at the end of some lines, by a way to read headers. -/
def sectionAt (header : Text → Option Text) (lines : List Text) : Option Text :=
  lines.foldl (fun current line => (header line).or current) none

def lastHeader (lines : List Text) : Option Text :=
  lines.foldl (fun current line => if (headerName line).isSome then some line else current) none

/-- The key of a line that is neither a comment nor a header. -/
def keyLine (line : Text) : Option (Text × Text) :=
  if isComment line ∨ (sectionHeader line).isSome = true then none
  else (splitOnce ['='] line).map fun halves => ((trim halves.1).map asciiLowerChar, trim halves.2)

section
variable (want : Text) (lines : List Text)

/-- A row with a key of the wanted section, as the source sees sections. -/
def ReadsKey (row : ℕ) (key value : Text) : Prop :=
  ∃ line, lines[row]? = some line ∧ keyLine line = some (key, value) ∧
    sectionAt sectionHeader (lines.take row) = some want

def LastKey (entry : Entry) : Prop :=
  ReadsKey want lines entry.row entry.key entry.value ∧
    ∀ row value, entry.row < row → ¬ ReadsKey want lines row entry.key value

end

variable {want : Text} {front : List Text} {line : Text} {st : IniState} {entry : Entry}

theorem sectionAt_concat (header : Text → Option Text) (front : List Text) (line : Text) :
    sectionAt header (front ++ [line]) = (header line).or (sectionAt header front) := by
  rw [sectionAt, List.foldl_append]
  rfl

theorem lastHeader_concat (front : List Text) (line : Text) :
    lastHeader (front ++ [line]) =
      if (headerName line).isSome then some line else lastHeader front := by
  rw [lastHeader, List.foldl_append]
  rfl

theorem sectionHeader_comment (h : isComment line = true) : sectionHeader line = none := by
  cases line with
  | nil => rfl
  | cons c rest =>
    have hc : c = '#' ∨ c = ';' := by
      simpa [isComment] using h
    unfold sectionHeader stripPrefix?
    rw [if_neg]
    · rfl
    · rw [List.isPrefixOf_iff_prefix]
      intro hprefix
      have hhead := (List.cons_prefix_cons.mp hprefix).1
      rcases hc with rfl | rfl
      · cases hhead
      · cases hhead

theorem stepLine_row (want : Text) (st : IniState) (line : Text) :
    (stepLine want st line).row = st.row + 1 := by
  unfold stepLine
  split
  · rfl
  · split
    · rfl
    · split
      · rfl
      · split <;> rfl

theorem stepLine_current (want : Text) (st : IniState) (line : Text) :
    (stepLine want st line).current = (sectionHeader line).or st.current := by
  unfold stepLine
  split
  · rename_i h
    rw [sectionHeader_comment h]
    rfl
  · split
    · rename_i name h
      rw [h]
      rfl
    · rename_i h
      rw [h]
      split
      · rfl
      · split <;> rfl

theorem stepLine_out (want : Text) (st : IniState) (line : Text) :
    (stepLine want st line).out =
      match keyLine line with
      | none => st.out
      | some (key, value) =>
        if st.current = some want then insertEntry ⟨key, value, st.row⟩ st.out else st.out := by
  unfold stepLine keyLine
  by_cases hcomment : isComment line = true
  · rw [if_pos hcomment, if_pos (.inl hcomment)]
  · rw [if_neg hcomment]
    cases hheader : sectionHeader line with
    | some name =>
      have hor : isComment line = true ∨ (some name).isSome = true := .inr rfl
      rw [if_pos hor]
    | none =>
      have hnor : ¬ (isComment line = true ∨ (none : Option Text).isSome = true) :=
        not_or.mpr ⟨hcomment, Bool.false_ne_true⟩
      rw [if_neg hnor]
      dsimp only
      cases splitOnce ['='] line with
      | none =>
        dsimp only [Option.map_none]
        split <;> rfl
      | some halves =>
        dsimp only [Option.map_some]
        by_cases hcurrent : st.current = some want
        · rw [if_neg (not_not_intro hcurrent), if_pos hcurrent]
        · rw [if_pos hcurrent, if_neg hcurrent]

theorem readsKey_concat (row : ℕ) (key value : Text) :
    ReadsKey want (front ++ [line]) row key value ↔ ReadsKey want front row key value ∨
      (row = front.length ∧ keyLine line = some (key, value) ∧
        sectionAt sectionHeader front = some want) := by
  constructor
  · rintro ⟨found, hrow, hkey, hsection⟩
    rcases Nat.lt_trichotomy row front.length with hlt | rfl | hgt
    · rw [List.getElem?_append_left hlt] at hrow
      rw [List.take_append_of_le_length (Nat.le_of_lt hlt)] at hsection
      exact .inl ⟨found, hrow, hkey, hsection⟩
    · rw [List.getElem?_concat_length] at hrow
      rw [List.take_left] at hsection
      cases hrow
      exact .inr ⟨rfl, hkey, hsection⟩
    · rw [List.getElem?_eq_none (by rw [List.length_append, List.length_singleton]; omega)] at hrow
      cases hrow
  · rintro (⟨found, hrow, hkey, hsection⟩ | ⟨rfl, hkey, hsection⟩)
    · have hlt := (List.getElem?_eq_some_iff.mp hrow).1
      refine ⟨found, ?_, hkey, ?_⟩
      · rw [List.getElem?_append_left hlt]
        exact hrow
      · rw [List.take_append_of_le_length (Nat.le_of_lt hlt)]
        exact hsection
    · refine ⟨line, List.getElem?_concat_length, hkey, ?_⟩
      rw [List.take_left]
      exact hsection

theorem ReadsKey.lt {row : ℕ} {key value : Text} (h : ReadsKey want front row key value) :
    row < front.length := by
  obtain ⟨found, hrow, _⟩ := h
  exact (List.getElem?_eq_some_iff.mp hrow).1

theorem lastKey_concat_none (h : ∀ key value, keyLine line = some (key, value) →
      sectionAt sectionHeader front ≠ some want) (entry : Entry) :
    LastKey want (front ++ [line]) entry ↔ LastKey want front entry := by
  have hsame : ∀ row key value, ReadsKey want (front ++ [line]) row key value ↔
      ReadsKey want front row key value := by
    intro row key value
    rw [readsKey_concat]
    constructor
    · rintro (hfront | ⟨_, hkey, hsection⟩)
      · exact hfront
      · exact absurd hsection (h key value hkey)
    · exact .inl
  unfold LastKey
  simp only [hsame]

theorem lastKey_concat_some {key value : Text} (hkey : keyLine line = some (key, value))
    (hsection : sectionAt sectionHeader front = some want) (entry : Entry) :
    LastKey want (front ++ [line]) entry ↔
      (LastKey want front entry ∧ entry.key ≠ key) ∨ entry = ⟨key, value, front.length⟩ := by
  constructor
  · rintro ⟨hreads, hlast⟩
    rcases (readsKey_concat _ _ _).mp hreads with hfront | ⟨hrow, hkey', _⟩
    · refine .inl ⟨⟨hfront, fun row v hrow hv => ?_⟩, ?_⟩
      · exact hlast row v hrow ((readsKey_concat _ _ _).mpr (.inl hv))
      · rintro rfl
        exact hlast front.length value hfront.lt
          ((readsKey_concat _ _ _).mpr (.inr ⟨rfl, hkey, hsection⟩))
    · refine .inr ?_
      rw [hkey] at hkey'
      obtain ⟨entryKey, entryValue, row⟩ := entry
      cases hkey'
      cases hrow
      rfl
  · rintro (⟨⟨hreads, hlast⟩, hne⟩ | rfl)
    · refine ⟨(readsKey_concat _ _ _).mpr (.inl hreads), fun row v hrow hv => ?_⟩
      rcases (readsKey_concat _ _ _).mp hv with hfront | ⟨_, hkey', _⟩
      · exact hlast row v hrow hfront
      · rw [hkey] at hkey'
        cases hkey'
        exact hne rfl
    · refine ⟨(readsKey_concat _ _ _).mpr (.inr ⟨rfl, hkey, hsection⟩), fun row v hrow hv => ?_⟩
      have hlt := hv.lt
      rw [List.length_append, List.length_singleton] at hlt
      change front.length < row at hrow
      omega

theorem mem_insertEntry {other : Entry} {out : List Entry} :
    other ∈ insertEntry entry out ↔ (other ∈ out ∧ other.key ≠ entry.key) ∨ other = entry := by
  rw [insertEntry, List.mem_append, List.mem_filter, List.mem_singleton, decide_eq_true_eq]

/-- What the loop has read after some lines. -/
structure ReadLines (want : Text) (front : List Text) (st : IniState) : Prop where
  row : st.row = front.length
  current : st.current = sectionAt sectionHeader front
  out : ∀ entry, entry ∈ st.out ↔ LastKey want front entry

theorem ReadLines.step (h : ReadLines want front st) (line : Text) :
    ReadLines want (front ++ [line]) (stepLine want st line) where
  row := by rw [stepLine_row, h.row, List.length_append, List.length_singleton]
  current := by rw [stepLine_current, h.current, sectionAt_concat]
  out entry := by
    rw [stepLine_out]
    cases hkey : keyLine line with
    | none =>
      rw [lastKey_concat_none (fun key value hsome => by rw [hkey] at hsome; cases hsome)]
      exact h.out entry
    | some halves =>
      obtain ⟨key, value⟩ := halves
      dsimp only
      rw [h.current]
      by_cases hsection : sectionAt sectionHeader front = some want
      · rw [if_pos hsection, mem_insertEntry, h.out, h.row, lastKey_concat_some hkey hsection]
      · rw [if_neg hsection, lastKey_concat_none fun _ _ _ => hsection]
        exact h.out entry

theorem readLines_foldl (want : Text) (front : List Text) :
    ReadLines want front (front.foldl (stepLine want) {}) := by
  induction front using List.reverseRecOn with
  | nil =>
    refine ⟨rfl, rfl, fun entry => iff_of_false List.not_mem_nil ?_⟩
    rintro ⟨⟨_, hrow, _⟩, _⟩
    cases hrow
  | append_singleton front line ih =>
    rw [List.foldl_append]
    exact ih.step line

theorem mem_iniSection {text name : Text} {out : List Entry} (h : iniSection text name = some out)
    (entry : Entry) : entry ∈ out ↔ LastKey (trim name) (lines text) entry := by
  unfold iniSection at h
  dsimp only at h
  split at h
  · cases h
  · cases h
    exact (readLines_foldl (trim name) (lines text)).out entry

theorem iniSection_none {text name : Text} (h : iniSection text name = none) (entry : Entry) :
    ¬ LastKey (trim name) (lines text) entry := by
  unfold iniSection at h
  dsimp only at h
  split at h
  · rename_i hempty
    rw [← (readLines_foldl (trim name) (lines text)).out entry]
    rw [List.isEmpty_iff.mp hempty]
    exact List.not_mem_nil
  · cases h

theorem headerName_isSome {name : Text} (h : sectionHeader line = some name) :
    (headerName line).isSome = true := by
  unfold sectionHeader stripPrefix? at h
  split at h
  · rename_i hprefix
    obtain ⟨rest, rfl⟩ := List.isPrefixOf_iff_prefix.mp hprefix
    change (stripSuffix? [']'] rest).map trim = some name at h
    unfold stripSuffix? at h
    split at h
    · rename_i hsuffix
      obtain ⟨inner, rfl⟩ := List.isSuffixOf_iff_suffix.mp hsuffix
      change (if ']' ∈ inner ++ [']'] then _ else none : Option Text).isSome = true
      rw [if_pos (List.mem_append_right _ List.mem_cons_self)]
      rfl
    · cases h
  · cases h

theorem sectionAt_headerName (front : List Text) :
    sectionAt headerName front = (lastHeader front).bind headerName := by
  induction front using List.reverseRecOn with
  | nil => rfl
  | append_singleton front line ih =>
    rw [sectionAt_concat, lastHeader_concat, ih]
    cases h : headerName line with
    | none => rfl
    | some name => exact h.symm

/-- Nothing but the last header tells what section the source is in, if it is read. -/
theorem sectionAt_last {header : Text} (hlast : lastHeader front = some header)
    (hread : sectionHeader header = headerName header) :
    sectionAt sectionHeader front = headerName header := by
  induction front using List.reverseRecOn with
  | nil => cases hlast
  | append_singleton front line ih =>
    rw [lastHeader_concat] at hlast
    rw [sectionAt_concat]
    split at hlast
    · rename_i hsome
      cases hlast
      rw [hread]
      obtain ⟨name, hname⟩ := Option.isSome_iff_exists.mp hsome
      rw [hname]
      rfl
    · rename_i hnone
      have hother : sectionHeader line = none := by
        cases h : sectionHeader line with
        | none => rfl
        | some name => exact absurd (headerName_isSome h) hnone
      rw [hother]
      exact ih hlast

theorem lastHeader_none (h : lastHeader front = none) : sectionAt sectionHeader front = none := by
  induction front using List.reverseRecOn with
  | nil => rfl
  | append_singleton front line ih =>
    rw [lastHeader_concat] at h
    rw [sectionAt_concat]
    split at h
    · cases h
    · rename_i hnone
      have hother : sectionHeader line = none := by
        cases hsome : sectionHeader line with
        | none => rfl
        | some name => exact absurd (headerName_isSome hsome) hnone
      rw [hother]
      exact ih h

/-- A header that the source misses, or reads by another name, does no harm when it names
the wanted section. -/
def HeaderRead (want header : Text) : Prop :=
  sectionHeader header = headerName header ∨ headerName header = some want

theorem section_iff {row : ℕ} {ls : List Text} {key value : Text}
    (h : ReadsKey want ls row key value) :
    sectionAt headerName (ls.take row) = some want ↔
      ∀ header ∈ lastHeader (ls.take row), HeaderRead want header := by
  obtain ⟨_, _, _, hsection⟩ := h
  rw [sectionAt_headerName]
  cases hlast : lastHeader (ls.take row) with
  | none =>
    rw [lastHeader_none hlast] at hsection
    cases hsection
  | some header =>
    rw [Option.bind_some]
    constructor
    · intro hname other hother
      cases hother
      exact .inr hname
    · intro hall
      rcases hall header rfl with hread | hname
      · rw [← sectionAt_last hlast hread]
        exact hsection
      · exact hname

end Wiremux.IniSections
