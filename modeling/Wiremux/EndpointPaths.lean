import Mathlib.Data.List.DropRight
import Wiremux.EndpointHosts
import Wiremux.ModelPaths

set_option autoImplicit false

/-!
# The texts around a method

What trimming, the test for an absolute URL and `with_alt_sse` make of a path depends on
its ends.
-/
namespace Wiremux.EndpointPaths
open StreamEvents SplitText UpstreamUrls ModelPaths EndpointHosts
open ChatDecoding (splitOnce)
open JsonValue (isWhitespace asciiLowerChar)

variable {text front back head tail first second suffix : List Char}

def trimEnd (text : List Char) : List Char := text.rdropWhile isWhitespace

theorem trim_eq (text : List Char) : trim text = trimEnd (text.dropWhile isWhitespace) := rfl

/-- Both ends of a text are no blanks. -/
structure Bounded (text : List Char) : Prop where
  first : ∃ c ∈ text.head?, isWhitespace c = false
  last : ∃ c ∈ text.getLast?, isWhitespace c = false

theorem Bounded.ne_nil {text : List Char} (h : Bounded text) : text ≠ [] := by
  obtain ⟨c, hc, _⟩ := h.first
  rintro rfl
  cases hc

theorem trimEnd_behind {c : Char} (hc : isWhitespace c = false) (front back : List Char) :
    trimEnd (front ++ (c :: back)) = front ++ (c :: trimEnd back) := by
  induction back using List.reverseRecOn with
  | nil =>
    change trimEnd (front ++ [c]) = front ++ [c]
    rw [trimEnd, List.rdropWhile_concat_neg]
    rw [hc]
    decide
  | append_singleton back d ih =>
    rw [← List.cons_append, ← List.append_assoc]
    unfold trimEnd at ih ⊢
    cases hd : isWhitespace d with
    | true =>
      rw [List.rdropWhile_concat_pos _ _ _ hd, List.rdropWhile_concat_pos _ _ _ hd, ih]
    | false =>
      rw [List.rdropWhile_concat_neg _ _ _ (by rw [hd]; decide),
        List.rdropWhile_concat_neg _ _ _ (by rw [hd]; decide), List.append_assoc]
      rfl

theorem trim_around (h : Bounded text) (front back : List Char) :
    trim (front ++ (text ++ back)) = front.dropWhile isWhitespace ++ (text ++ trimEnd back) := by
  obtain ⟨c, hc, hblank⟩ := h.first
  obtain ⟨d, hd, hlast⟩ := h.last
  obtain ⟨init, rfl⟩ : ∃ init, text = init ++ [d] := by
    obtain ⟨init, hinit⟩ := List.getLast?_eq_some_iff.mp hd
    exact ⟨init, hinit⟩
  have hstart : (init ++ [d] ++ back).dropWhile isWhitespace = init ++ [d] ++ back := by
    refine dropWhile_head fun other hother => ?_
    rw [List.head?_append, Option.mem_def.mp hc] at hother
    cases hother
    exact hblank
  have hdrop : (front ++ (init ++ [d] ++ back)).dropWhile isWhitespace =
      front.dropWhile isWhitespace ++ (init ++ [d] ++ back) := by
    rw [List.dropWhile_append]
    split
    · rename_i hempty
      rw [List.isEmpty_iff.mp hempty, hstart]
      rfl
    · rfl
  have htail := trimEnd_behind hlast (front.dropWhile isWhitespace ++ init) back
  rw [trim_eq, hdrop]
  simp only [List.append_assoc, List.cons_append, List.nil_append] at htail ⊢
  exact htail

theorem trimEnd_starts (text : List Char) : trimEnd text <+: text := List.rdropWhile_prefix _ _

def httpMarks : List (List Char) := ["http://".toList, "https://".toList]

theorem asciiLowerChar_mark {c d : Char} (hd : ¬ (97 ≤ d.toNat ∧ d.toNat ≤ 122))
    (h : asciiLowerChar c = d) : c = d := by
  unfold asciiLowerChar at h
  split at h
  · rename_i hupper
    have ha : 'A'.toNat = 65 := rfl
    have hz : 'Z'.toNat = 90 := rfl
    have hnat : (Char.ofNat (c.toNat + 32)).toNat = c.toNat + 32 := by
      rw [Char.ofNat, dif_pos (Or.inl (by omega))]
      rfl
    rw [h] at hnat
    exact absurd ⟨by omega, by omega⟩ hd
  · exact h

theorem map_lower_mark {text mark : List Char} (hmark : ∀ c ∈ mark, ¬ (97 ≤ c.toNat ∧ c.toNat ≤ 122))
    (h : text.map asciiLowerChar = mark) : text = mark := by
  induction text generalizing mark with
  | nil => exact h
  | cons c rest ih =>
    cases mark with
    | nil => cases h
    | cons d more =>
      obtain ⟨hc, hrest⟩ := List.cons.inj h
      rw [asciiLowerChar_mark (hmark d List.mem_cons_self) hc,
        ih (fun other hother => hmark other (List.mem_cons_of_mem _ hother)) hrest]

theorem isAbsoluteHttpUrl_iff (path : List Char) : isAbsoluteHttpUrl path = true ↔
    ∃ mark ∈ httpMarks, mark <+: path.map asciiLowerChar := by
  have hcolon : ∀ {scheme : List Char}, scheme.map asciiLowerChar = "http".toList ∨
      scheme.map asciiLowerChar = "https".toList → ':' ∉ scheme := by
    intro scheme h hmem
    have hlower : ':' ∈ scheme.map asciiLowerChar := List.mem_map.mpr ⟨':', hmem, by decide⟩
    rcases h with h | h <;> rw [h] at hlower <;> exact absurd hlower (by decide)
  have hfound : ∀ scheme : List Char, scheme ∈ ["http".toList, "https".toList] →
      scheme ++ "://".toList <+: path.map asciiLowerChar → isAbsoluteHttpUrl path = true := by
    intro scheme hscheme hprefix
    obtain ⟨rest, hrest⟩ := hprefix
    obtain ⟨head, tail, rfl, hhead, _⟩ := List.map_eq_append_iff.mp hrest.symm
    obtain ⟨lead, mark, rfl, hlead, hmark⟩ := List.map_eq_append_iff.mp hhead
    have hlower : lead.map asciiLowerChar = "http".toList ∨ lead.map asciiLowerChar = "https".toList := by
      simpa only [List.mem_cons, List.not_mem_nil, or_false, ← hlead] using hscheme
    rw [map_lower_mark (List.all_iff_forall_prop.mp (by decide)) hmark, List.append_assoc,
      isAbsoluteHttpUrl]
    have hsplit : splitOnce "://".toList (lead ++ ("://".toList ++ tail)) = some (lead, tail) :=
      splitOnce_at (hcolon hlower) tail
    rw [hsplit]
    simpa using hlower
  constructor
  · intro h
    unfold isAbsoluteHttpUrl at h
    split at h
    · cases h
    · rename_i scheme rest hsplit
      rw [splitOnce_eq hsplit, List.map_append, List.map_append]
      have hmark : "://".toList.map asciiLowerChar = "://".toList := by decide
      rw [Bool.or_eq_true, beq_iff_eq, beq_iff_eq] at h
      rw [hmark]
      rcases h with h | h
      · refine ⟨"http://".toList, List.mem_cons_self, ?_⟩
        rw [h, ← List.append_assoc]
        exact List.prefix_append _ _
      · refine ⟨"https://".toList, List.mem_cons_of_mem _ List.mem_cons_self, ?_⟩
        rw [h, ← List.append_assoc]
        exact List.prefix_append _ _
  · rintro ⟨mark, hmark, hprefix⟩
    simp only [httpMarks, List.mem_cons, List.not_mem_nil, or_false] at hmark
    rcases hmark with rfl | rfl
    · exact hfound "http".toList List.mem_cons_self hprefix
    · exact hfound "https".toList (List.mem_cons_of_mem _ List.mem_cons_self) hprefix

theorem isAbsoluteHttpUrl_slash (rest : List Char) : isAbsoluteHttpUrl ('/' :: rest) = false := by
  rw [Bool.eq_false_iff, ne_eq, isAbsoluteHttpUrl_iff]
  rintro ⟨mark, hmark, hprefix⟩
  simp only [httpMarks, List.mem_cons, List.not_mem_nil, or_false] at hmark
  rcases hmark with rfl | rfl
  · exact absurd (List.cons_prefix_cons.mp hprefix).1 (by decide)
  · exact absurd (List.cons_prefix_cons.mp hprefix).1 (by decide)

theorem prefix_append_iff (front back : List Char) : text <+: front ++ back ↔
    text <+: front ∨ front <+: text ∧ text.drop front.length <+: back := by
  constructor
  · intro h
    rcases List.prefix_or_prefix_of_prefix h (List.prefix_append front back) with hshort | hlong
    · exact .inl hshort
    · obtain ⟨rest, rfl⟩ := hlong
      rw [List.drop_left]
      exact .inr ⟨List.prefix_append _ _, (List.prefix_append_right_inj front).mp h⟩
  · rintro (h | ⟨hlong, hrest⟩)
    · exact h.trans (List.prefix_append _ _)
    · obtain ⟨rest, rfl⟩ := hlong
      rw [List.drop_left] at hrest
      exact (List.prefix_append_right_inj front).mpr hrest

structure Twins (first second : List Char) : Prop where
  lengths : 8 ≤ first.length ∧ 8 ≤ second.length
  marks : ∀ mark ∈ httpMarks, ∀ n < 9, (mark.drop n).isPrefixOf (first.map asciiLowerChar) =
    (mark.drop n).isPrefixOf (second.map asciiLowerChar)

theorem isAbsoluteHttpUrl_twins (h : Twins first second) (lead back more : List Char) :
    isAbsoluteHttpUrl (lead ++ (first ++ back)) = isAbsoluteHttpUrl (lead ++ (second ++ more)) := by
  rw [Bool.eq_iff_iff, isAbsoluteHttpUrl_iff, isAbsoluteHttpUrl_iff]
  refine exists_congr fun mark => and_congr_right fun hmark => ?_
  have hlength : mark.length ≤ 8 := by
    revert mark
    decide
  simp only [List.map_append]
  rw [prefix_append_iff (lead.map asciiLowerChar) (first.map asciiLowerChar ++ _),
    prefix_append_iff (lead.map asciiLowerChar) (second.map asciiLowerChar ++ _)]
  refine or_congr_right (and_congr_right fun hlead => ?_)
  have hshort : ∀ {ending : List Char}, 8 ≤ ending.length →
      (mark.drop (lead.map asciiLowerChar).length).length ≤ (ending.map asciiLowerChar).length := by
    intro ending hending
    simp only [List.length_drop, List.length_map]
    omega
  rw [← List.isPrefixOf_iff_prefix, ← List.isPrefixOf_iff_prefix,
    isPrefixOf_append (hshort h.lengths.1), isPrefixOf_append (hshort h.lengths.2),
    h.marks mark hmark _ (by have := hlead.length_le; omega)]

/-- A text without the first character of a pattern is kept in front of what is replaced. -/
theorem replace_behind {c : Char} {pattern front : List Char} (h : c ∉ front) (replacement rest : List Char) :
    ∃ more, replace (c :: pattern) replacement (front ++ rest) = front ++ more := by
  unfold replace
  cases (front ++ rest).length with
  | zero => exact ⟨rest, rfl⟩
  | succ count =>
    rw [replacen, splitOnce_skip h]
    cases splitOnce (c :: pattern) rest with
    | none => exact ⟨rest, rfl⟩
    | some halves => exact ⟨_, List.append_assoc _ _ _⟩

theorem blank_of_lower {c d : Char} (hd : isWhitespace d = false) (h : asciiLowerChar c = d) :
    isWhitespace c = false := by
  unfold asciiLowerChar at h
  split at h
  · rename_i hupper
    have ha : 'A'.toNat = 65 := rfl
    have hz : 'Z'.toNat = 90 := rfl
    unfold isWhitespace
    simp only [Bool.or_eq_false_iff, Bool.and_eq_false_iff, decide_eq_false_iff_not, beq_eq_false_iff_ne]
    omega
  · rw [h]
    exact hd

theorem httpMarks_ends : ∀ mark ∈ httpMarks,
    '\x7b' ∉ mark ∧ mark.head? = some 'h' ∧ mark.getLast? = some '/' := by
  decide

theorem isAbsoluteHttpUrl_filled {template : List Char} (replacement : List Char)
    (h : isAbsoluteHttpUrl (trim template) = true) :
    isAbsoluteHttpUrl (trim (replace modelPlace replacement template)) = true := by
  obtain ⟨mark, hmark, hprefix⟩ := (isAbsoluteHttpUrl_iff _).mp h
  have hdrop : mark <+: (template.dropWhile isWhitespace).map asciiLowerChar :=
    hprefix.trans ((trimEnd_starts _).map asciiLowerChar)
  obtain ⟨rest, hrest⟩ := hdrop
  obtain ⟨lead, back, hback, hlead, _⟩ := List.map_eq_append_iff.mp hrest.symm
  obtain ⟨hbrace, hfirst, hlast⟩ := httpMarks_ends mark hmark
  have hbounded : Bounded lead := by
    rw [← hlead, List.head?_map] at hfirst
    rw [← hlead, List.getLast?_map] at hlast
    obtain ⟨c, hc, hlower⟩ := Option.map_eq_some_iff.mp hfirst
    obtain ⟨d, hd, hlower'⟩ := Option.map_eq_some_iff.mp hlast
    exact ⟨⟨c, hc, blank_of_lower (by decide) hlower⟩, ⟨d, hd, blank_of_lower (by decide) hlower'⟩⟩
  have hplain : '\x7b' ∉ template.takeWhile isWhitespace ++ lead := by
    rw [List.mem_append, not_or]
    constructor
    · intro hmem
      exact absurd (List.mem_takeWhile_imp hmem) (by decide)
    · intro hmem
      exact hbrace (hlead ▸ List.mem_map.mpr ⟨'\x7b', hmem, by decide⟩)
  have htext : template = template.takeWhile isWhitespace ++ lead ++ back := by
    rw [List.append_assoc, ← hback, List.takeWhile_append_dropWhile]
  obtain ⟨more, hmore⟩ := @replace_behind _ "model\x7d".toList _ hplain replacement back
  rw [← htext, List.append_assoc] at hmore
  have hblanks : (template.takeWhile isWhitespace).dropWhile isWhitespace = [] :=
    List.dropWhile_eq_nil_iff.mpr fun c hc => List.mem_takeWhile_imp hc
  change isAbsoluteHttpUrl (trim (replace ('\x7b' :: "model\x7d".toList) replacement template)) = true
  rw [hmore, trim_around hbounded, hblanks, List.nil_append, isAbsoluteHttpUrl_iff]
  refine ⟨mark, hmark, ?_⟩
  rw [List.map_append, hlead]
  exact List.prefix_append _ _

def altSse : List Char := "alt=sse".toList

def queryOf (suffix : List Char) : List Char := suffix.takeWhile (· != '#')

def fragmentOf (suffix : List Char) : List Char := suffix.dropWhile (· != '#')

def queryParams (query : List Char) : List (List Char) := ampersandParts (query.drop 1)

def sseQuery (query : List Char) : List Char :=
  if query.isEmpty then "?alt=sse".toList
  else if (queryParams query).contains altSse then query
  else query ++ '&' :: altSse

def withSse (suffix : List Char) : List Char := sseQuery (queryOf suffix) ++ fragmentOf suffix

def codeQuery (query : List Char) : List Char :=
  if query.isEmpty then "?alt=sse".toList
  else if (queryParts query).contains altSse then query
  else query ++ '&' :: altSse

theorem queryOf_fragmentOf (suffix : List Char) : queryOf suffix ++ fragmentOf suffix = suffix :=
  List.takeWhile_append_dropWhile

theorem fragmentOf_cons (h : fragmentOf suffix ≠ []) :
    ∃ more, fragmentOf suffix = '#' :: more := by
  cases hfragment : fragmentOf suffix with
  | nil => exact absurd hfragment h
  | cons c more =>
    have hhead := List.head?_dropWhile_not (· != '#') suffix
    rw [show suffix.dropWhile (· != '#') = c :: more from hfragment] at hhead
    have hc : c = '#' := by simpa using hhead
    exact ⟨more, by rw [hc]⟩

theorem withAltSse_eq (suffix : List Char) :
    withAltSse suffix = codeQuery (queryOf suffix) ++ fragmentOf suffix := by
  unfold withAltSse
  split
  · rename_i hempty
    rw [List.isEmpty_iff.mp hempty]
    rfl
  · rename_i hne
    have hsplit := splitOnce_char '#' suffix
    change _ = if fragmentOf suffix = [] then none
      else some (queryOf suffix, (fragmentOf suffix).drop 1) at hsplit
    by_cases hfragment : fragmentOf suffix = []
    · have hquery := queryOf_fragmentOf suffix
      rw [hfragment, List.append_nil] at hquery
      rw [if_pos hfragment] at hsplit
      rw [hsplit, hfragment, hquery, List.append_nil]
      rfl
    · obtain ⟨more, hmore⟩ := fragmentOf_cons hfragment
      rw [if_neg hfragment, hmore] at hsplit
      rw [hsplit, hmore]
      rfl

theorem ampersandParts_cons (text : List Char) : ∃ part parts, ampersandParts text = part :: parts := by
  cases text with
  | nil => exact ⟨_, _, rfl⟩
  | cons c rest =>
    rw [ampersandParts]
    split
    · exact ⟨_, _, rfl⟩
    · cases ampersandParts rest with
      | nil => exact ⟨_, _, rfl⟩
      | cons part parts => exact ⟨_, _, rfl⟩

theorem ampersandParts_append (front back : List Char) :
    ampersandParts (front ++ '&' :: back) = ampersandParts front ++ ampersandParts back := by
  induction front with
  | nil => rfl
  | cons c rest ih =>
    rw [List.cons_append, ampersandParts, ampersandParts]
    obtain ⟨part, parts, hrest⟩ := ampersandParts_cons rest
    split
    · rw [ih]
      rfl
    · rw [ih, hrest]
      rfl

theorem mem_queryParts (text : List Char) : ∀ part : List Char, '?' ∉ part →
    ((ampersandParts text).head? = some part → (queryParts text).head? = some part) ∧
      (part ∈ (ampersandParts text).tail → part ∈ (queryParts text).tail) := by
  induction text with
  | nil => exact fun part _ => ⟨fun h => h, fun h => h⟩
  | cons c rest ih =>
    intro part hpart
    obtain ⟨first, others, hamp⟩ := ampersandParts_cons rest
    rw [ampersandParts, queryParts, hamp]
    rw [hamp] at ih
    by_cases hand : c = '&'
    · subst hand
      rw [if_pos (by decide), if_pos (by decide)]
      refine ⟨fun h => h, fun h => ?_⟩
      change part ∈ queryParts rest
      rcases List.mem_cons.mp h with rfl | h
      · exact List.mem_of_mem_head? ((ih part hpart).1 rfl)
      · exact List.mem_of_mem_tail ((ih part hpart).2 h)
    · rw [if_neg (by simpa using hand)]
      by_cases hmark : c = '?'
      · subst hmark
        rw [if_pos (by decide)]
        constructor
        · intro h
          cases h
          exact absurd List.mem_cons_self hpart
        · exact fun h => List.mem_of_mem_tail ((ih part hpart).2 h)
      · rw [if_neg (by simp [hand, hmark])]
        constructor
        · intro h
          cases h
          have hfirst := (ih first fun h => hpart (List.mem_cons_of_mem _ h)).1 rfl
          cases hparts : queryParts rest with
          | nil =>
            rw [hparts] at hfirst
            cases hfirst
          | cons other more =>
            rw [hparts] at hfirst
            cases hfirst
            rfl
        · intro h
          have htail := (ih part hpart).2 h
          cases hparts : queryParts rest with
          | nil =>
            rw [hparts] at htail
            cases htail
          | cons other more =>
            rw [hparts] at htail
            exact htail

theorem sse_part {query : List Char} (hstart : ∀ c ∈ query.head?, c = '?')
    (h : altSse ∈ queryParams query) : altSse ∈ queryParts query := by
  cases query with
  | nil => exact absurd h (by decide)
  | cons c rest =>
    have hc := hstart c rfl
    subst hc
    change altSse ∈ ampersandParts rest at h
    obtain ⟨first, others, hamp⟩ := ampersandParts_cons rest
    have hparts := mem_queryParts rest altSse (by decide)
    rw [hamp] at h hparts
    have hmem : altSse ∈ queryParts rest := by
      rcases List.mem_cons.mp h with heq | h
      · exact List.mem_of_mem_head? (hparts.1 (congrArg some heq.symm))
      · exact List.mem_of_mem_tail (hparts.2 h)
    rw [queryParts, if_pos (by decide)]
    exact List.mem_cons_of_mem _ hmem

/-- The code adds `alt=sse` to this query and fragment as it should. -/
structure SseFits (suffix : List Char) : Prop where
  /-- What is taken for `alt=sse` is a parameter, and the only one. -/
  once : (queryParts (queryOf suffix)).contains altSse = true →
    (queryParams (queryOf (trimEnd suffix))).count altSse = 1
  /-- Nothing is put behind a blank. -/
  bare : (queryParts (queryOf suffix)).contains altSse = false → fragmentOf suffix = [] →
    trimEnd suffix = suffix

theorem queryOf_plain (suffix : List Char) : '#' ∉ queryOf suffix := by
  intro h
  have hne := List.mem_takeWhile_imp h
  exact absurd hne (by decide)

theorem queryOf_append {query rest : List Char} (hquery : '#' ∉ query)
    (hrest : ∀ c ∈ rest.head?, c = '#') : queryOf (query ++ rest) = query ∧
      fragmentOf (query ++ rest) = rest := by
  have hall : ∀ c ∈ query, (c != '#') = true := fun c hc => bne_iff_ne.mpr fun h => hquery (h ▸ hc)
  unfold queryOf fragmentOf
  rw [List.takeWhile_append_of_pos hall, List.dropWhile_append_of_pos hall]
  cases rest with
  | nil => exact ⟨List.append_nil _, rfl⟩
  | cons c more =>
    have hc := hrest c rfl
    subst hc
    rw [List.takeWhile_cons_of_neg (by decide), List.dropWhile_cons_of_neg (by decide), List.append_nil]
    exact ⟨rfl, rfl⟩

theorem trimmed_parts (suffix : List Char) :
    (fragmentOf suffix ≠ [] ∧ ∃ more, fragmentOf suffix = '#' :: more ∧
      trimEnd suffix = queryOf suffix ++ '#' :: trimEnd more ∧
      queryOf (trimEnd suffix) = queryOf suffix ∧ fragmentOf (trimEnd suffix) = '#' :: trimEnd more) ∨
    (fragmentOf suffix = [] ∧ queryOf suffix = suffix ∧ queryOf (trimEnd suffix) = trimEnd suffix ∧
      fragmentOf (trimEnd suffix) = []) := by
  by_cases hfragment : fragmentOf suffix = []
  · right
    have hquery := queryOf_fragmentOf suffix
    rw [hfragment, List.append_nil] at hquery
    have hplain : '#' ∉ trimEnd suffix := by
      intro h
      rw [← hquery] at h
      exact queryOf_plain suffix ((trimEnd_starts _).subset h)
    have hparts := @queryOf_append _ [] hplain fun c hc => by cases hc
    rw [List.append_nil] at hparts
    exact ⟨hfragment, hquery, hparts.1, hparts.2⟩
  · left
    obtain ⟨more, hmore⟩ := fragmentOf_cons hfragment
    have htrim : trimEnd suffix = queryOf suffix ++ '#' :: trimEnd more := by
      rw [← trimEnd_behind (by decide), ← hmore, queryOf_fragmentOf]
    have hparts := @queryOf_append _ ('#' :: trimEnd more) (queryOf_plain suffix) fun c hc => by
      cases hc
      rfl
    rw [← htrim] at hparts
    exact ⟨hfragment, more, hmore, htrim, hparts.1, hparts.2⟩

def writtenQuery (query trimmed : List Char) : List Char :=
  if query.isEmpty then "?alt=sse".toList
  else if (queryParts query).contains altSse then trimmed
  else query ++ '&' :: altSse

theorem count_added (query : List Char) (hquery : query ≠ []) :
    (queryParams (query ++ '&' :: altSse)).count altSse = (queryParams query).count altSse + 1 := by
  cases query with
  | nil => exact absurd rfl hquery
  | cons c rest =>
    change (ampersandParts (rest ++ '&' :: altSse)).count altSse = _
    rw [ampersandParts_append, List.count_append]
    rfl

section
variable {query trimmed : List Char} (hne : query ≠ [] → trimmed ≠ [])
include hne

theorem writtenQuery_fits (hstart : ∀ c ∈ query.head?, c = '?') (htrimmed : query = [] → trimmed = [])
    (honce : (queryParts query).contains altSse = true → (queryParams trimmed).count altSse = 1)
    (hbare : (queryParts query).contains altSse = false → trimmed = query) :
    writtenQuery query trimmed = sseQuery trimmed ∧
      (queryParams (sseQuery trimmed)).count altSse = 1 := by
  unfold writtenQuery sseQuery
  by_cases hempty : query = []
  · rw [hempty, htrimmed hempty]
    exact ⟨rfl, by decide⟩
  · have hnot : query.isEmpty = false := List.isEmpty_eq_false_iff.mpr hempty
    have hnot' : trimmed.isEmpty = false := List.isEmpty_eq_false_iff.mpr (hne hempty)
    rw [hnot, hnot', if_neg Bool.false_ne_true, if_neg Bool.false_ne_true]
    cases hparts : (queryParts query).contains altSse with
    | true =>
      have hcount := honce hparts
      have hmem : (queryParams trimmed).contains altSse = true := by
        rw [List.contains_iff_mem]
        exact List.count_pos_iff.mp (by omega)
      rw [if_pos rfl, hmem, if_pos rfl]
      exact ⟨rfl, hcount⟩
    | false =>
      have hsame := hbare hparts
      have hmem : (queryParams trimmed).contains altSse = false := by
        rw [Bool.eq_false_iff, ne_eq, List.contains_iff_mem, hsame]
        intro h
        rw [Bool.eq_false_iff, ne_eq, List.contains_iff_mem] at hparts
        exact hparts (sse_part hstart h)
      have hnone : (queryParams trimmed).count altSse = 0 := by
        rw [List.count_eq_zero]
        rw [Bool.eq_false_iff, ne_eq, List.contains_iff_mem] at hmem
        exact hmem
      rw [if_neg Bool.false_ne_true, hmem, if_neg Bool.false_ne_true, count_added trimmed (hne hempty), hnone,
        hsame]
      exact ⟨rfl, rfl⟩

theorem writtenQuery_unfit (hweight : trimmed ≠ query → weight trimmed < weight query)
    (hsame : weight (writtenQuery query trimmed) = weight (sseQuery trimmed))
    (hcount : (queryParams (sseQuery trimmed)).count altSse = 1) :
    ((queryParts query).contains altSse = true → (queryParams trimmed).count altSse = 1) ∧
      ((queryParts query).contains altSse = false → trimmed = query) := by
  have hsse : weight ('&' :: altSse) = 6 := by decide
  unfold writtenQuery at hsame
  unfold sseQuery at hsame hcount
  by_cases hempty : query = []
  · rw [hempty]
    refine ⟨fun h => absurd h (by decide), fun _ => ?_⟩
    by_contra hdiffer
    have hless := hweight (by rw [hempty]; exact hdiffer)
    rw [hempty] at hless
    exact absurd hless (Nat.not_lt_zero _)
  · have hnot : query.isEmpty = false := List.isEmpty_eq_false_iff.mpr hempty
    have hnot' : trimmed.isEmpty = false := List.isEmpty_eq_false_iff.mpr (hne hempty)
    rw [hnot, hnot', if_neg Bool.false_ne_true, if_neg Bool.false_ne_true] at hsame
    rw [hnot', if_neg Bool.false_ne_true] at hcount
    cases hparts : (queryParts query).contains altSse with
    | true =>
      rw [hparts, if_pos rfl] at hsame
      refine ⟨fun _ => ?_, fun h => by cases h⟩
      split at hsame
      · rename_i hmem
        rw [if_pos hmem] at hcount
        exact hcount
      · rw [weight_append, hsse] at hsame
        omega
    | false =>
      rw [hparts, if_neg Bool.false_ne_true, weight_append, hsse] at hsame
      refine ⟨fun h => (by cases h), fun _ => ?_⟩
      by_contra hdiffer
      have hless := hweight hdiffer
      split at hsame
      · omega
      · rw [weight_append, hsse] at hsame
        omega

end

theorem blank_weight {c : Char} (h : isWhitespace c = true) :
    (!"global-".toList.contains c) = true := by
  rw [Bool.not_eq_true', Bool.eq_false_iff, ne_eq, List.contains_iff_mem]
  intro hmem
  have hnone : ∀ d ∈ "global-".toList, isWhitespace d = false := List.all_iff_forall_prop.mp (by decide)
  rw [hnone c hmem] at h
  cases h

theorem weight_trimEnd {text : List Char} (h : trimEnd text ≠ text) : weight (trimEnd text) < weight text := by
  induction text using List.reverseRecOn with
  | nil => exact absurd rfl h
  | append_singleton front c _ =>
    cases hc : isWhitespace c with
    | true =>
      have htrim : trimEnd (front ++ [c]) = trimEnd front := List.rdropWhile_concat_pos _ _ _ hc
      obtain ⟨blanks, hblanks⟩ := trimEnd_starts front
      have hone : weight [c] = 1 := by
        rw [weight, List.countP_singleton, blank_weight hc, if_pos rfl]
      rw [htrim, weight_append, hone]
      have hfront := congrArg weight hblanks
      rw [weight_append] at hfront
      omega
    | false =>
      exact absurd (List.rdropWhile_concat_neg _ _ _ (by rw [hc]; decide)) h

theorem trimEnd_sse (query : List Char) : trimEnd (query ++ '&' :: altSse) = query ++ '&' :: altSse := by
  have htext : '&' :: altSse = "&alt=ss".toList ++ ['e'] := rfl
  rw [htext, ← List.append_assoc]
  exact trimEnd_behind (by decide) _ []

theorem sseQuery_plain {query : List Char} (h : '#' ∉ query) : '#' ∉ sseQuery query := by
  unfold sseQuery
  split
  · decide
  split
  · exact h
  · rw [List.mem_append, not_or]
    exact ⟨h, by decide⟩

/-- The query of a suffix, before and after it is trimmed. -/
structure SseShape (suffix trimmed fragment : List Char) : Prop where
  code : trimEnd (withAltSse suffix) = writtenQuery (queryOf suffix) trimmed ++ fragment
  spec : withSse (trimEnd suffix) = sseQuery trimmed ++ fragment
  text : trimEnd suffix = trimmed ++ fragment
  query : queryOf (trimEnd suffix) = trimmed
  added : queryOf (withSse (trimEnd suffix)) = sseQuery trimmed
  kept : fragmentOf suffix ≠ [] → trimmed = queryOf suffix
  bare : fragmentOf suffix = [] → queryOf suffix = suffix ∧ trimmed = trimEnd suffix

theorem sse_shape (suffix : List Char) : ∃ trimmed fragment, SseShape suffix trimmed fragment := by
  rcases trimmed_parts suffix with ⟨hne, more, hmore, htrim, hquery, hfragment⟩ |
    ⟨hnone, hsuffix, hquery, hfragment⟩
  · refine ⟨queryOf suffix, '#' :: trimEnd more, ?_, ?_, htrim, hquery, ?_, fun _ => rfl, fun h => absurd h hne⟩
    · rw [withAltSse_eq, hmore, trimEnd_behind (by decide)]
      rfl
    · rw [withSse, hquery, hfragment]
    · rw [withSse, hquery, hfragment]
      exact (queryOf_append (sseQuery_plain (queryOf_plain suffix)) fun c hc => by
        cases hc
        rfl).1
  · refine ⟨trimEnd suffix, [], ?_, ?_, (List.append_nil _).symm, hquery, ?_, fun h => absurd hnone h, fun _ => ⟨hsuffix, rfl⟩⟩
    · rw [withAltSse_eq, hnone, hsuffix, List.append_nil, List.append_nil]
      unfold codeQuery writtenQuery
      split
      · decide
      split
      · rfl
      · exact trimEnd_sse suffix
    · rw [withSse, hquery, hfragment]
    · rw [withSse, hquery, hfragment]
      have hplain : '#' ∉ trimEnd suffix := by
        rw [← hquery]
        exact queryOf_plain _
      exact (queryOf_append (sseQuery_plain hplain) fun c hc => by cases hc).1

theorem query_start (hstart : ∀ c ∈ suffix.head?, endsPath c = true) :
    ∀ c ∈ (queryOf suffix).head?, c = '?' := by
  intro c hc
  cases suffix with
  | nil => cases hc
  | cons d rest =>
    have hd := hstart d rfl
    rw [endsPath, Bool.or_eq_true, beq_iff_eq, beq_iff_eq] at hd
    rcases hd with rfl | rfl
    · cases hc
      rfl
    · cases hc

section
variable {trimmed fragment : List Char}

theorem SseShape.trimmed_ne (shape : SseShape suffix trimmed fragment)
    (hstart : ∀ c ∈ suffix.head?, endsPath c = true) (h : queryOf suffix ≠ []) : trimmed ≠ [] := by
  by_cases hfragment : fragmentOf suffix = []
  · obtain ⟨hquery, htrimmed⟩ := shape.bare hfragment
    rw [hquery] at h
    cases suffix with
    | nil => exact absurd rfl h
    | cons d rest =>
      have hd := query_start hstart
      rw [hquery] at hd
      have htrim := trimEnd_behind (c := d) (by rw [hd d rfl]; decide) [] rest
      rw [htrimmed]
      change trimEnd ([] ++ d :: rest) ≠ []
      rw [htrim]
      exact List.cons_ne_nil _ _
  · rw [shape.kept hfragment]
    exact h

theorem SseShape.trimmed_nil (shape : SseShape suffix trimmed fragment) (h : queryOf suffix = []) :
    trimmed = [] := by
  by_cases hfragment : fragmentOf suffix = []
  · obtain ⟨hquery, htrimmed⟩ := shape.bare hfragment
    rw [htrimmed, ← hquery, h]
    rfl
  · rw [shape.kept hfragment, h]

theorem SseShape.weight_lt (shape : SseShape suffix trimmed fragment) (h : trimmed ≠ queryOf suffix) :
    weight trimmed < weight (queryOf suffix) := by
  have hfragment : fragmentOf suffix = [] := by
    by_contra hne
    exact h (shape.kept hne)
  obtain ⟨hquery, htrimmed⟩ := shape.bare hfragment
  rw [hquery, htrimmed] at h ⊢
  exact weight_trimEnd h

end

theorem weight_withAltSse (suffix : List Char) :
    weight (trimEnd suffix) ≤ weight (trimEnd (withAltSse suffix)) := by
  obtain ⟨trimmed, fragment, shape⟩ := sse_shape suffix
  rw [shape.code, shape.text, weight_append, weight_append]
  refine Nat.add_le_add_right ?_ _
  unfold writtenQuery
  split
  · rename_i hempty
    rw [shape.trimmed_nil (List.isEmpty_iff.mp hempty)]
    exact Nat.zero_le _
  split
  · exact Nat.le_refl _
  · rw [weight_append]
    by_cases hsame : trimmed = queryOf suffix
    · rw [hsame]
      exact Nat.le_add_right _ _
    · exact Nat.le_trans (Nat.le_of_lt (shape.weight_lt hsame)) (Nat.le_add_right _ _)

theorem trimEnd_start (hstart : ∀ c ∈ suffix.head?, endsPath c = true) :
    ∀ c ∈ (trimEnd suffix).head?, endsPath c = true := by
  intro c hc
  refine hstart c ?_
  obtain ⟨blanks, hblanks⟩ := trimEnd_starts suffix
  rw [← hblanks, List.head?_append, Option.mem_def.mp hc]
  rfl

theorem sse_fits (hstart : ∀ c ∈ suffix.head?, endsPath c = true) (h : SseFits suffix) :
    trimEnd (withAltSse suffix) = withSse (trimEnd suffix) ∧
      (queryParams (queryOf (withSse (trimEnd suffix)))).count altSse = 1 := by
  obtain ⟨trimmed, fragment, shape⟩ := sse_shape suffix
  have honce := h.once
  rw [shape.query] at honce
  have hbare : (queryParts (queryOf suffix)).contains altSse = false → trimmed = queryOf suffix := by
    intro hparts
    by_cases hfragment : fragmentOf suffix = []
    · obtain ⟨hquery, htrimmed⟩ := shape.bare hfragment
      rw [htrimmed, hquery]
      exact h.bare hparts hfragment
    · exact shape.kept hfragment
  obtain ⟨hsame, hcount⟩ := writtenQuery_fits (shape.trimmed_ne hstart) (query_start hstart)
    shape.trimmed_nil honce hbare
  rw [shape.added]
  refine ⟨?_, hcount⟩
  rw [shape.code, shape.spec, hsame]

/-- A suffix of the right weight with `alt=sse` once is written in no other way. -/
theorem sse_unfit (hstart : ∀ c ∈ suffix.head?, endsPath c = true)
    (hsame : weight (trimEnd (withAltSse suffix)) = weight (withSse (trimEnd suffix)))
    (hcount : (queryParams (queryOf (withSse (trimEnd suffix)))).count altSse = 1) : SseFits suffix := by
  obtain ⟨trimmed, fragment, shape⟩ := sse_shape suffix
  rw [shape.code, shape.spec, weight_append, weight_append, Nat.add_right_cancel_iff] at hsame
  rw [shape.added] at hcount
  obtain ⟨honce, hbare⟩ := writtenQuery_unfit (shape.trimmed_ne hstart)
    shape.weight_lt hsame hcount
  constructor
  · rw [shape.query]
    exact honce
  · intro hparts hfragment
    obtain ⟨hquery, htrimmed⟩ := shape.bare hfragment
    rw [← htrimmed, hbare hparts, hquery]

end Wiremux.EndpointPaths
