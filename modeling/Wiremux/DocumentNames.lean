import Wiremux.RequestParts
import Wiremux.StreamEvents

set_option autoImplicit false

/-!
# Document names of a Converse request

Bedrock allows letters, digits, one space in a row, hyphens, parentheses and square
brackets. Anything else becomes a space.
-/
namespace Wiremux.DocumentNames
open JsonValue Losses RequestParts

def isAsciiAlphanumeric (c : Char) : Bool :=
  ('a' ≤ c && c ≤ 'z') || ('A' ≤ c && c ≤ 'Z') || ('0' ≤ c && c ≤ '9')

def keepsChar (c : Char) : Bool := isAsciiAlphanumeric c || ['-', '(', ')', '[', ']'].contains c

/-- The loop: `out` is written already, `spaced` when it ends in a space of the loop. -/
def cleanChars : List Char → Bool → List Char → List Char
  | out, _, [] => out
  | out, spaced, c :: rest =>
    if keepsChar c then cleanChars (out ++ [c]) false rest
    else if !spaced && !out.isEmpty then cleanChars (out ++ [' ']) true rest
    else cleanChars out spaced rest

/-- At most 200 characters, without white space at the ends. -/
def capped (name : String) : String :=
  if 200 < name.length then trim (String.ofList (name.toList.take 200)) else name

def cleanedName (raw : String) : String :=
  let cleaned := capped (trim (String.ofList (cleanChars [] false raw.toList)))
  if cleaned.isEmpty then "document" else cleaned

def rejectedName : LossReport :=
  [⟨"part.document.name", .degrade, "document name had characters Converse rejects"⟩]

def converseDocumentName (name : Option String) : String × LossReport :=
  match name.filter fun s => !s.isEmpty with
  | none => ("document", [])
  | some original =>
    if (trim original).isEmpty then ("document", rejectedName)
    else
      let cleaned := cleanedName (trim original)
      (cleaned, if cleaned = original then [] else rejectedName)

def allowed (c : Char) : Bool := keepsChar c || c == ' '

structure ValidName (name : String) : Prop where
  nonempty : name ≠ ""
  short : name.length ≤ 200
  chars : ∀ c ∈ name.toList, allowed c = true
  single : ¬ [' ', ' '] <:+: name.toList

theorem validName_document : ValidName "document" := by
  refine ⟨by decide, by decide, List.all_eq_true.mp rfl, ?_⟩
  rintro ⟨front, back, h⟩
  have hmem : ' ' ∈ "document".toList := by
    rw [← h]
    simp
  exact absurd hmem (by decide)

/-- Allowed characters and single spaces only. -/
structure Clean (text : List Char) : Prop where
  chars : ∀ c ∈ text, allowed c = true
  single : ¬ [' ', ' '] <:+: text

theorem Clean.infix {short long : List Char} (h : Clean long) (hwithin : short <:+: long) :
    Clean short where
  chars := fun c hmem => h.chars c (hwithin.subset hmem)
  single := fun hspaces => h.single (hspaces.trans hwithin)

theorem clean_push {out : List Char} {c : Char} (h : Clean out) (hc : allowed c = true)
    (hspace : c = ' ' → out.getLast? ≠ some ' ') : Clean (out ++ [c]) where
  chars := by
    intro d hmem
    rcases List.mem_append.mp hmem with hmem | hmem
    · exact h.chars d hmem
    · obtain rfl := List.mem_singleton.mp hmem
      exact hc
  single := by
    rintro ⟨front, back, heq⟩
    rcases List.eq_nil_or_concat back with rfl | ⟨back, d, rfl⟩
    · rw [List.append_nil] at heq
      have hsplit : front ++ [' '] ++ [' '] = out ++ [c] := by simpa using heq
      obtain ⟨hout, hlast⟩ := List.append_inj' hsplit rfl
      have hc' : c = ' ' := (List.cons.inj hlast).1.symm
      refine hspace hc' ?_
      rw [← hout]
      exact List.getLast?_concat
    · have hsplit : (front ++ [' ', ' '] ++ back) ++ [d] = out ++ [c] := by simpa using heq
      obtain ⟨hout, _⟩ := List.append_inj' hsplit rfl
      exact h.single ⟨front, back, hout⟩

theorem keepsChar_ne_space {c : Char} (h : keepsChar c = true) : c ≠ ' ' := by
  rintro rfl
  exact absurd h (by decide)

theorem cleanChars_clean {out : List Char} {spaced : Bool} (rest : List Char) (h : Clean out)
    (hlast : spaced = false → out.getLast? ≠ some ' ') : Clean (cleanChars out spaced rest) := by
  induction rest generalizing out spaced with
  | nil => exact h
  | cons c rest ih =>
    unfold cleanChars
    split
    · rename_i hkeep
      have hne := keepsChar_ne_space hkeep
      refine ih (clean_push h ?_ fun heq => absurd heq hne) fun _ => ?_
      · rw [allowed, hkeep, Bool.true_or]
      · rw [List.getLast?_concat]
        exact fun heq => hne (Option.some.inj heq)
    · split
      · rename_i hspace
        have hspaced : spaced = false := by
          cases spaced
          · rfl
          · cases hspace
        exact ih (clean_push h rfl fun _ => hlast hspaced) fun hfalse => by cases hfalse
      · exact ih h hlast

theorem clean_nil : Clean [] where
  chars := fun c hmem => by cases hmem
  single := fun hspaces => by cases List.infix_nil.mp hspaces

theorem trim_within (s : String) : (trim s).toList <:+: s.toList := by
  unfold trim
  rw [String.toList_ofList]
  refine List.IsInfix.trans ?_ (List.dropWhile_suffix isWhitespace).isInfix
  rw [← List.reverse_infix, List.reverse_reverse]
  exact (List.dropWhile_suffix isWhitespace).isInfix

theorem capped_within (name : String) : (capped name).toList <:+: name.toList := by
  unfold capped
  split
  · refine (trim_within _).trans ?_
    rw [String.toList_ofList]
    exact (List.take_prefix 200 _).isInfix
  · exact List.infix_refl _

theorem length_capped (name : String) : (capped name).length ≤ 200 := by
  unfold capped
  split
  · have hlength := (trim_within (String.ofList (name.toList.take 200))).length_le
    rw [String.toList_ofList] at hlength
    rw [← String.length_toList]
    exact hlength.trans (List.length_take_le _ _)
  · omega

theorem validName_cleaned (raw : String) : ValidName (cleanedName raw) := by
  unfold cleanedName
  dsimp only
  split
  · exact validName_document
  · rename_i hempty
    have hloop : Clean (cleanChars [] false raw.toList) :=
      cleanChars_clean raw.toList clean_nil fun _ => by simp
    have hwithin := (capped_within (trim (String.ofList (cleanChars [] false raw.toList)))).trans
      (trim_within _)
    rw [String.toList_ofList] at hwithin
    have hclean := hloop.infix hwithin
    refine ⟨fun heq => hempty (String.isEmpty_iff.mpr heq), length_capped _, hclean.chars,
      hclean.single⟩

theorem validName_written (name : Option String) : ValidName (converseDocumentName name).1 := by
  unfold converseDocumentName
  cases name.filter fun s => !s.isEmpty with
  | none => exact validName_document
  | some original =>
    dsimp only
    split
    · exact validName_document
    · dsimp only
      exact validName_cleaned (trim original)

example : (converseDocumentName (some "Q3 report_v2.pdf")).1 = "Q3 report v2 pdf" := by decide

end Wiremux.DocumentNames
