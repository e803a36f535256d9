import Mathlib.Data.Bool.AllAny
import Mathlib.Data.List.TakeWhile
import Wiremux.PercentEncoding
import Wiremux.SplitText

set_option autoImplicit false

/-!
# Form-encoded queries

The query of a URL, read as `application/x-www-form-urlencoded`. Names and values that
are percent-encoded are read back, whatever stands in front of them.
-/
namespace Wiremux.FormQueries
open ChatDecoding (splitOnce)
open Utf8Lossy SseWriting PercentDecoding PercentEncoding SplitText

def plusByte (byte : UInt8) : UInt8 := if byte = 0x2B then 0x20 else byte

def formDecode (text : List Char) : List Char :=
  fromUtf8Lossy (percentDecode ((utf8 text).map plusByte))

/-- A name and a value. -/
abbrev Param := List Char × List Char

def formPair (part : List Char) : Param :=
  match splitOnce ['='] part with
  | some (name, value) => (formDecode name, formDecode value)
  | none => (formDecode part, [])

def partParams (parts : List (List Char)) : List Param := (parts.filter (!·.isEmpty)).map formPair

def formParams (query : List Char) : List Param := partParams (query.splitOn '&')

/-- Tabs and line ends are no part of a URL. -/
def urlText (url : List Char) : List Char := url.filter fun c => !(['\t', '\n', '\r'].contains c)

def urlQuery (url : List Char) : List Char :=
  (((urlText url).takeWhile (· != '#')).dropWhile (· != '?')).drop 1

/-- ASCII bytes are kept, but none that separates, that is decoded or that a URL drops. -/
structure FormSafe (kept : UInt8 → Bool) : Prop extends KeepsPlain kept where
  marks : ∀ c ∈ ['+', '&', '=', '#', '\t', '\n', '\r'], kept (UInt8.ofNat c.toNat) = false

section
variable (kept : UInt8 → Bool)

def pairText (param : Param) : List Char :=
  percentEncode kept param.1 ++ '=' :: percentEncode kept param.2

def queryText (params : List Param) : List Char := ['&'].intercalate (params.map (pairText kept))

end

variable {kept : UInt8 → Bool} {c : Char} {text front back : List Char} {param : Param}
  {params : List Param}

theorem mark_notMem (hkept : FormSafe kept)
    (hc : c ∈ ['+', '&', '=', '#', '\t', '\n', '\r']) : c ∉ percentEncode kept text := by
  intro hmem
  have hmark := hkept.marks c hc
  rcases mem_percentEncode hkept.toKeepsPlain hmem with hk | rfl | hdigit
  · rw [hk.2] at hmark
    cases hmark
  · exact absurd hc (by decide)
  · have hnone : ∀ d ∈ hexDigits, d ∉ ['+', '&', '=', '#', '\t', '\n', '\r'] :=
      List.all_iff_forall_prop.mp (by decide)
    exact hnone c hdigit hc

theorem char_of_byte {byte : UInt8} (hlow : byte.toNat < 0x80) (h : byte ∈ utf8 text) :
    Char.ofNat byte.toNat ∈ text := by
  obtain ⟨c, hc, hbyte⟩ := List.mem_flatMap.mp h
  rw [← mem_utf8EncodeChar_ascii hbyte hlow]
  exact hc

theorem map_plusByte (h : '+' ∉ text) : (utf8 text).map plusByte = utf8 text := by
  have hsame : ∀ byte ∈ utf8 text, plusByte byte = byte := by
    intro byte hbyte
    unfold plusByte
    split
    · rename_i hplus
      subst hplus
      exact absurd (char_of_byte (by decide) hbyte) h
    · rfl
  exact List.map_congr_left hsame |>.trans (List.map_id _)

theorem formDecode_percentEncode (hkept : FormSafe kept) (text : List Char) :
    formDecode (percentEncode kept text) = text := by
  have hread := fromUtf8Lossy_flatMap text []
  rw [List.append_nil, fromUtf8Lossy, List.append_nil] at hread
  rw [formDecode, map_plusByte (mark_notMem hkept (by decide)),
    percentDecode_percentEncode hkept.toKeepsPlain]
  exact hread

theorem formPair_pairText (hkept : FormSafe kept) (param : Param) :
    formPair (pairText kept param) = param := by
  have hsplit : splitOnce ['='] (pairText kept param) =
      some (percentEncode kept param.1, percentEncode kept param.2) :=
    splitOnce_at (mark_notMem hkept (by decide)) _
  rw [formPair, hsplit]
  dsimp only
  rw [formDecode_percentEncode hkept, formDecode_percentEncode hkept]

theorem pairText_plain (hkept : FormSafe kept) (hc : c ∈ ['+', '&', '#', '\t', '\n', '\r']) :
    c ∉ pairText kept param := by
  have hmark : c ∈ ['+', '&', '=', '#', '\t', '\n', '\r'] ∧ c ≠ '=' := by
    revert hc
    simp only [List.mem_cons, List.not_mem_nil, or_false]
    rintro (rfl | rfl | rfl | rfl | rfl | rfl) <;> decide
  intro hmem
  rcases List.mem_append.mp hmem with hmem | hmem
  · exact mark_notMem hkept hmark.1 hmem
  · rcases List.mem_cons.mp hmem with rfl | hmem
    · exact hmark.2 rfl
    · exact mark_notMem hkept hmark.1 hmem

theorem partParams_pairs (hkept : FormSafe kept) (params : List Param) :
    partParams (params.map (pairText kept)) = params := by
  have hall : ∀ part ∈ params.map (pairText kept), (!part.isEmpty) = true := by
    intro part hpart
    obtain ⟨param, -, rfl⟩ := List.mem_map.mp hpart
    rw [Bool.not_eq_true', pairText, List.isEmpty_eq_false_iff]
    exact List.append_ne_nil_of_right_ne_nil _ (List.cons_ne_nil _ _)
  rw [partParams, List.filter_eq_self.mpr hall, List.map_map]
  exact (List.map_congr_left fun param _ => formPair_pairText hkept param).trans (List.map_id _)

theorem splitOn_queryText (hkept : FormSafe kept) (h : params ≠ []) :
    (queryText kept params).splitOn '&' = params.map (pairText kept) := by
  refine List.splitOn_intercalate '&' ?_ (by simpa using h)
  intro part hpart
  obtain ⟨param, -, rfl⟩ := List.mem_map.mp hpart
  exact pairText_plain hkept (by decide)

theorem formParams_queryText (hkept : FormSafe kept) (h : params ≠ []) :
    formParams (queryText kept params) = params := by
  rw [formParams, splitOn_queryText hkept h, partParams_pairs hkept]

theorem queryText_cons (param : Param) (h : params ≠ []) : queryText kept (param :: params) =
    pairText kept param ++ '&' :: queryText kept params := by
  obtain ⟨second, rest, rfl⟩ := List.exists_cons_of_ne_nil h
  rfl

theorem queryText_flatMap (param : Param) (params : List Param) :
    queryText kept (param :: params) =
      pairText kept param ++ params.flatMap fun param => '&' :: pairText kept param := by
  induction params generalizing param with
  | nil => simp [queryText]
  | cons next rest ih =>
    rw [queryText_cons param (List.cons_ne_nil next rest), ih]
    rfl

theorem splitOn_append_plain (h : c ∉ back) (front : List Char) :
    (front ++ back).splitOn c =
      (front.splitOn c).dropLast ++ [((front.splitOn c).getLast?.getD []) ++ back] := by
  induction front with
  | nil =>
    rw [List.nil_append, List.splitOn_eq_singleton h, List.splitOn_nil]
    rfl
  | cons x front ih =>
    have hne := List.splitOn_ne_nil c front
    obtain ⟨first, rest, hparts⟩ := List.exists_cons_of_ne_nil hne
    rw [List.cons_append, List.splitOn_cons_eq_if_modifyHead, List.splitOn_cons_eq_if_modifyHead, ih,
      hparts]
    split
    · cases rest <;> rfl
    · cases rest <;> rfl

theorem partParams_append (front back : List (List Char)) :
    partParams (front ++ back) = partParams front ++ partParams back := by
  rw [partParams, List.filter_append, List.map_append]
  rfl

/-- The last part of the first query takes the first pair of the second one. -/
theorem formParams_behind (hkept : FormSafe kept) (own : List Char) (h : params ≠ []) :
    formParams (own ++ '?' :: queryText kept (param :: params)) =
      partParams (own.splitOn '&').dropLast ++
        formPair ((own.splitOn '&').getLast?.getD [] ++ '?' :: pairText kept param) :: params := by
  have hplain : '&' ∉ '?' :: pairText kept param := by
    intro hmem
    rcases List.mem_cons.mp hmem with hmem | hmem
    · cases hmem
    · exact pairText_plain hkept (by decide) hmem
  have htext : own ++ '?' :: queryText kept (param :: params) =
      (own ++ '?' :: pairText kept param) ++ '&' :: queryText kept params := by
    rw [queryText_cons param h, List.append_assoc]
    rfl
  have hglued : partParams [(own.splitOn '&').getLast?.getD [] ++ '?' :: pairText kept param] =
      [formPair ((own.splitOn '&').getLast?.getD [] ++ '?' :: pairText kept param)] := by
    rw [partParams, List.filter_cons_of_pos]
    · rfl
    · rw [Bool.not_eq_true', List.isEmpty_eq_false_iff]
      exact List.append_ne_nil_of_right_ne_nil _ (List.cons_ne_nil _ _)
  rw [formParams, htext, List.splitOn_append_cons_self, splitOn_append_plain hplain,
    splitOn_queryText hkept h, partParams_append, partParams_append, hglued, partParams_pairs hkept,
    List.append_assoc]
  rfl

/-- A text that a URL keeps as it is, without a fragment. -/
def UrlPlain (text : List Char) : Prop := ∀ c ∈ ['#', '\t', '\n', '\r'], c ∉ text

theorem pairText_urlPlain (hkept : FormSafe kept) (param : Param) :
    UrlPlain (pairText kept param) := by
  intro c hc
  refine pairText_plain hkept ?_
  revert hc
  simp only [List.mem_cons, List.not_mem_nil, or_false]
  tauto

theorem queryText_urlPlain (hkept : FormSafe kept) (params : List Param) :
    UrlPlain (queryText kept params) := by
  intro c hc
  induction params with
  | nil => exact List.not_mem_nil
  | cons param rest ih =>
    by_cases hrest : rest = []
    · subst hrest
      have hone : queryText kept [param] = pairText kept param := by
        simp [queryText]
      rw [hone]
      exact pairText_urlPlain hkept param c hc
    · rw [queryText_cons param hrest]
      intro hmem
      rcases List.mem_append.mp hmem with hmem | hmem
      · exact pairText_urlPlain hkept param c hc hmem
      · rcases List.mem_cons.mp hmem with rfl | hmem
        · exact absurd hc (by decide)
        · exact ih hmem

theorem urlText_behind (h : UrlPlain text) (url : List Char) :
    urlText (url ++ '?' :: text) = urlText url ++ '?' :: text := by
  have hkeep : urlText text = text := by
    refine List.filter_eq_self.mpr fun c hc => ?_
    rw [Bool.not_eq_true', ← Bool.not_eq_true, List.contains_iff_mem]
    exact fun hmark => h c (List.mem_cons_of_mem _ hmark) hc
  rw [urlText, List.filter_append, List.filter_cons_of_pos (by decide)]
  exact congrArg (fun text => urlText url ++ '?' :: text) hkeep

theorem bne_of_notMem (h : c ∉ text) : ∀ x ∈ text, (x != c) = true := by
  intro x hx
  rw [bne_iff_ne]
  rintro rfl
  exact h hx

theorem takeWhile_absent (h : c ∉ text) : text.takeWhile (· != c) = text :=
  List.takeWhile_eq_self_iff.mpr (bne_of_notMem h)

theorem takeWhile_first (h : c ∉ front) (back : List Char) :
    (front ++ c :: back).takeWhile (· != c) = front := by
  rw [List.takeWhile_append_of_pos (bne_of_notMem h), List.takeWhile_cons_of_neg (by simp),
    List.append_nil]

theorem dropWhile_first (h : c ∉ front) (back : List Char) :
    (front ++ c :: back).dropWhile (· != c) = c :: back := by
  rw [List.dropWhile_append_of_pos (bne_of_notMem h), List.dropWhile_cons_of_neg (by simp)]

theorem urlQuery_fragment (h : UrlPlain text) {url : List Char} (hfragment : '#' ∈ urlText url) :
    urlQuery (url ++ '?' :: text) = urlQuery url := by
  obtain ⟨before, after, hurl, hbefore⟩ := List.eq_append_cons_of_mem hfragment
  rw [urlQuery, urlQuery, urlText_behind h, hurl, List.append_assoc, List.cons_append,
    takeWhile_first hbefore, takeWhile_first hbefore]

theorem not_fragment (h : UrlPlain text) {url : List Char} (hfragment : '#' ∉ urlText url) :
    (urlText (url ++ '?' :: text)).takeWhile (· != '#') = urlText url ++ '?' :: text := by
  rw [urlText_behind h]
  refine takeWhile_absent fun hmem => ?_
  rcases List.mem_append.mp hmem with hmem | hmem
  · exact hfragment hmem
  · rcases List.mem_cons.mp hmem with hmem | hmem
    · cases hmem
    · exact h '#' (by decide) hmem

theorem urlQuery_first (h : UrlPlain text) {url : List Char} (hfragment : '#' ∉ urlText url)
    (hquery : '?' ∉ urlText url) : urlQuery (url ++ '?' :: text) = text := by
  rw [urlQuery, not_fragment h hfragment, dropWhile_first hquery]
  rfl

theorem urlQuery_second (h : UrlPlain text) {url : List Char} (hfragment : '#' ∉ urlText url)
    (hquery : '?' ∈ urlText url) :
    urlQuery (url ++ '?' :: text) = urlQuery url ++ '?' :: text := by
  obtain ⟨before, after, hurl, hbefore⟩ := List.eq_append_cons_of_mem hquery
  rw [urlQuery, urlQuery, not_fragment h hfragment, takeWhile_absent hfragment, hurl,
    List.append_assoc, List.cons_append, dropWhile_first hbefore, dropWhile_first hbefore]
  rfl

theorem formDecode_around (hc : c ∈ ['?', '=']) (front back : List Char) :
    formDecode (front ++ c :: back) = formDecode front ++ c :: formDecode back := by
  have hmark : c.toNat < 0x80 ∧ plusByte (UInt8.ofNat c.toNat) = UInt8.ofNat c.toNat ∧
      UInt8.ofNat c.toNat ≠ 0x25 ∧ hexNibble (UInt8.ofNat c.toNat) = none := by
    revert hc
    simp only [List.mem_cons, List.not_mem_nil, or_false]
    rintro (rfl | rfl) <;> decide
  obtain ⟨hlow, hplus, hpercent, hdigit⟩ := hmark
  have hnat : (UInt8.ofNat c.toNat).toNat = c.toNat := toNat_ofNat_byte (by omega)
  rw [formDecode, utf8_append, utf8_cons_ascii hlow, List.map_append, List.map_cons, hplus,
    percentDecode_around hpercent hdigit, fromUtf8Lossy_append (by rw [hnat]; exact hlow),
    fromUtf8Lossy_ascii (by rw [hnat]; exact hlow), hnat, Char.ofNat_toNat]
  rfl

theorem formPair_glued_value (hkept : FormSafe kept) {last name value : List Char}
    (h : splitOnce ['='] last = some (name, value)) (param : Param) :
    formPair (last ++ '?' :: pairText kept param) =
      (formDecode name, formDecode value ++ '?' :: (param.1 ++ '=' :: param.2)) := by
  rw [formPair, splitOnce_append h]
  dsimp only
  rw [formDecode_around (by decide), pairText, formDecode_around (by decide),
    formDecode_percentEncode hkept, formDecode_percentEncode hkept]

theorem formPair_glued_name (hkept : FormSafe kept) {last : List Char}
    (h : splitOnce ['='] last = none) (param : Param) :
    '?' ∈ (formPair (last ++ '?' :: pairText kept param)).1 := by
  have hequals : '=' ∉ last := by
    intro hmem
    obtain ⟨name, value, rfl, hname⟩ := List.eq_append_cons_of_mem hmem
    have hat : splitOnce ['='] (name ++ '=' :: value) = some (name, value) :=
      splitOnce_at hname value
    rw [h] at hat
    cases hat
  have hplain : '=' ∉ last ++ '?' :: percentEncode kept param.1 := by
    intro hmem
    rcases List.mem_append.mp hmem with hmem | hmem
    · exact hequals hmem
    · rcases List.mem_cons.mp hmem with hmem | hmem
      · cases hmem
      · exact mark_notMem hkept (by decide) hmem
  have hsplit : splitOnce ['='] (last ++ '?' :: pairText kept param) =
      some (last ++ '?' :: percentEncode kept param.1, percentEncode kept param.2) := by
    have hat : splitOnce ['='] ((last ++ '?' :: percentEncode kept param.1) ++
        (['='] ++ percentEncode kept param.2)) =
          some (last ++ '?' :: percentEncode kept param.1, percentEncode kept param.2) :=
      splitOnce_at hplain _
    rw [List.append_assoc] at hat
    exact hat
  rw [formPair, hsplit]
  dsimp only
  rw [formDecode_around (by decide)]
  exact List.mem_append_right _ List.mem_cons_self

end Wiremux.FormQueries
