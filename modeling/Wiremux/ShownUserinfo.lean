import Wiremux.EmbeddedUrls

set_option autoImplicit false

/-!
# Userinfo that a text shows

A scheme, `://` and an `@` before the authority ends. The search is monotone:
a text from which hosts without `@` and masked tokens were added or taken shows
no more than the text with its URLs cut down.
-/
namespace Wiremux.ShownUserinfo
open EmbeddedUrls UrlOrigin

variable {ends : Char → Bool}

def ShowsUserinfo (ends : Char → Bool) (text : List Char) : Prop :=
  ∃ before scheme user after, text = before ++ (scheme ++ (schemeEnd ++ (user ++ '@' :: after))) ∧
    IsScheme scheme ∧ ∀ c ∈ user, ends c = false

def reachesAt (ends : Char → Bool) : List Char → Bool
  | [] => false
  | c :: rest => c == '@' || (!ends c && reachesAt ends rest)

def continuesUrl (ends : Char → Bool) : List Char → Bool
  | [] => false
  | c :: rest => (isSchemeChar c && continuesUrl ends rest) ||
      (schemeEnd.isPrefixOf (c :: rest) && reachesAt ends (rest.drop 2))

def findsUserinfo (ends : Char → Bool) : List Char → Bool
  | [] => false
  | c :: rest => (isAsciiAlphabetic c && continuesUrl ends rest) || findsUserinfo ends rest

theorem reachesAt_iff (text : List Char) : reachesAt ends text = true ↔
    ∃ user after, text = user ++ '@' :: after ∧ ∀ c ∈ user, ends c = false := by
  induction text with
  | nil => simp [reachesAt]
  | cons c rest ih =>
    rw [reachesAt, Bool.or_eq_true, Bool.and_eq_true, Bool.not_eq_true', beq_iff_eq, ih]
    constructor
    · rintro (rfl | ⟨hc, user, after, rfl, huser⟩)
      · exact ⟨[], rest, rfl, fun _ hmem => by cases hmem⟩
      · exact ⟨c :: user, after, rfl, List.forall_mem_cons.mpr ⟨hc, huser⟩⟩
    · rintro ⟨user, after, htext, huser⟩
      cases user with
      | nil => exact Or.inl (List.cons.inj htext).1
      | cons x user =>
        obtain ⟨rfl, rfl⟩ := List.cons.inj htext
        obtain ⟨hc, huser⟩ := List.forall_mem_cons.mp huser
        exact Or.inr ⟨hc, user, after, rfl, huser⟩

theorem isPrefixOf_schemeEnd (text : List Char) :
    schemeEnd.isPrefixOf text = true ↔ ∃ more, text = schemeEnd ++ more := by
  rw [List.isPrefixOf_iff_prefix]
  constructor
  · rintro ⟨more, rfl⟩
    exact ⟨more, rfl⟩
  · rintro ⟨more, rfl⟩
    exact ⟨more, rfl⟩

theorem continuesUrl_iff (text : List Char) : continuesUrl ends text = true ↔
    ∃ scheme more, text = scheme ++ (schemeEnd ++ more) ∧ (∀ c ∈ scheme, isSchemeChar c = true) ∧
      reachesAt ends more = true := by
  induction text with
  | nil =>
    constructor
    · intro h
      cases h
    · rintro ⟨scheme, more, htext, _⟩
      cases scheme <;> cases htext
  | cons c rest ih =>
    rw [continuesUrl, Bool.or_eq_true, Bool.and_eq_true, Bool.and_eq_true, ih, isPrefixOf_schemeEnd]
    constructor
    · rintro (⟨hc, scheme, more, rfl, hscheme, hmore⟩ | ⟨⟨more, htext⟩, hmore⟩)
      · exact ⟨c :: scheme, more, rfl, List.forall_mem_cons.mpr ⟨hc, hscheme⟩, hmore⟩
      · obtain ⟨_, rfl⟩ := List.cons.inj htext
        exact ⟨[], more, htext, fun _ hmem => (by cases hmem), hmore⟩
    · rintro ⟨scheme, more, htext, hscheme, hmore⟩
      cases scheme with
      | nil =>
        obtain ⟨_, rfl⟩ := List.cons.inj htext
        exact Or.inr ⟨⟨more, htext⟩, hmore⟩
      | cons x scheme =>
        obtain ⟨rfl, rfl⟩ := List.cons.inj htext
        obtain ⟨hc, hscheme⟩ := List.forall_mem_cons.mp hscheme
        exact Or.inl ⟨hc, scheme, more, rfl, hscheme, hmore⟩

theorem isScheme_cons (c : Char) (more : List Char) :
    IsScheme (c :: more) ↔ isAsciiAlphabetic c = true ∧ ∀ x ∈ more, isSchemeChar x = true := by
  constructor
  · intro h
    exact ⟨h.leads, fun x hmem => h.chars x (List.mem_cons_of_mem _ hmem)⟩
  · rintro ⟨hc, hmore⟩
    refine ⟨hc, List.forall_mem_cons.mpr ⟨?_, hmore⟩⟩
    simp only [isAsciiAlphabetic, Bool.or_eq_true, Bool.and_eq_true] at hc
    simp only [isSchemeChar, DocumentNames.isAsciiAlphanumeric, Bool.or_eq_true, Bool.and_eq_true]
    exact Or.inl (Or.inl hc)

theorem findsUserinfo_iff (text : List Char) :
    findsUserinfo ends text = true ↔ ShowsUserinfo ends text := by
  have hhere : ∀ c rest, (isAsciiAlphabetic c = true ∧ continuesUrl ends rest = true) ↔
      ∃ scheme user after, c :: rest = scheme ++ (schemeEnd ++ (user ++ '@' :: after)) ∧
        IsScheme scheme ∧ ∀ x ∈ user, ends x = false := by
    intro c rest
    rw [continuesUrl_iff]
    constructor
    · rintro ⟨hc, scheme, more, rfl, hscheme, hmore⟩
      obtain ⟨user, after, rfl, huser⟩ := (reachesAt_iff more).mp hmore
      exact ⟨c :: scheme, user, after, rfl, (isScheme_cons c scheme).mpr ⟨hc, hscheme⟩, huser⟩
    · rintro ⟨scheme, user, after, htext, hscheme, huser⟩
      cases scheme with
      | nil => cases hscheme.leads
      | cons x scheme =>
        obtain ⟨rfl, rfl⟩ := List.cons.inj htext
        obtain ⟨hc, hchars⟩ := (isScheme_cons c scheme).mp hscheme
        exact ⟨hc, scheme, _, rfl, hchars, (reachesAt_iff _).mpr ⟨user, after, rfl, huser⟩⟩
  induction text with
  | nil =>
    constructor
    · intro h
      cases h
    · rintro ⟨before, scheme, user, after, htext, hscheme, _⟩
      cases before with
      | cons => cases htext
      | nil =>
        cases scheme with
        | nil => cases hscheme.leads
        | cons => cases htext
  | cons c rest ih =>
    rw [findsUserinfo, Bool.or_eq_true, Bool.and_eq_true]
    refine (or_congr (hhere c rest) ih).trans ?_
    constructor
    · rintro (⟨scheme, user, after, htext, hscheme, huser⟩ |
        ⟨before, scheme, user, after, rfl, hscheme, huser⟩)
      · exact ⟨[], scheme, user, after, htext, hscheme, huser⟩
      · exact ⟨c :: before, scheme, user, after, rfl, hscheme, huser⟩
    · rintro ⟨before, scheme, user, after, htext, hscheme, huser⟩
      cases before with
      | nil => exact Or.inl ⟨scheme, user, after, htext, hscheme, huser⟩
      | cons x before =>
        obtain ⟨rfl, rfl⟩ := List.cons.inj htext
        exact Or.inr ⟨before, scheme, user, after, rfl, hscheme, huser⟩

instance (text : List Char) : Decidable (ShowsUserinfo ends text) :=
  decidable_of_iff _ (findsUserinfo_iff text)

variable {text rest more front : List Char}

theorem reachesAt_append (hfront : ∀ c ∈ front, ends c = false) (h : reachesAt ends rest = true) :
    reachesAt ends (front ++ rest) = true := by
  induction front with
  | nil => exact h
  | cons c front ih =>
    obtain ⟨hc, hfront⟩ := List.forall_mem_cons.mp hfront
    simp [reachesAt, hc, ih hfront]

theorem reachesAt_of_append (hfront : '@' ∉ front) (h : reachesAt ends (front ++ rest) = true) :
    reachesAt ends rest = true := by
  induction front with
  | nil => exact h
  | cons c front ih =>
    obtain ⟨hc, hfront⟩ := not_or.mp (mt List.mem_cons.mpr hfront)
    rw [List.cons_append, reachesAt, Bool.or_eq_true, beq_iff_eq, Bool.and_eq_true] at h
    rcases h with rfl | ⟨_, h⟩
    · exact absurd rfl hc
    · exact ih hfront h

theorem findsUserinfo_append (front : List Char) (h : findsUserinfo ends rest = true) :
    findsUserinfo ends (front ++ rest) = true := by
  induction front with
  | nil => exact h
  | cons c front ih => simp [findsUserinfo, ih]

theorem findsUserinfo_url {scheme : List Char} (hscheme : IsScheme scheme)
    (h : reachesAt ends rest = true) : findsUserinfo ends (scheme ++ (schemeEnd ++ rest)) = true := by
  obtain ⟨user, after, rfl, huser⟩ := (reachesAt_iff rest).mp h
  exact (findsUserinfo_iff _).mpr ⟨[], scheme, user, after, rfl, hscheme, huser⟩

section
variable (hends : ∀ c, ends c = true → endsUrl c = true)
include hends

theorem ends_scheme {scheme : List Char} (h : ∀ c ∈ scheme, isSchemeChar c = true) :
    ∀ c ∈ scheme, ends c = false := by
  intro c hmem
  by_contra hc
  have hstop := endsUrl_not_scheme (hends c (by simpa using hc))
  rw [h c hmem] at hstop
  cases hstop

theorem ends_schemeEnd : ∀ c ∈ schemeEnd, ends c = false := by
  intro c hmem
  by_contra hc
  have hstop := hends c (by simpa using hc)
  simp only [schemeEnd, List.mem_cons, List.not_mem_nil, or_false] at hmem
  rcases hmem with rfl | rfl | rfl <;> exact absurd hstop (by decide)

theorem reachesAt_of_continues (h : continuesUrl ends text = true) : reachesAt ends text = true := by
  obtain ⟨scheme, more, rfl, hscheme, hmore⟩ := (continuesUrl_iff text).mp h
  exact reachesAt_append (ends_scheme hends hscheme)
    (reachesAt_append (ends_schemeEnd hends) hmore)

theorem findsUserinfo_of_append (hfront : '@' ∉ front)
    (h : findsUserinfo ends (front ++ rest) = true) :
    findsUserinfo ends rest = true ∨ reachesAt ends rest = true := by
  induction front with
  | nil => exact Or.inl h
  | cons c front ih =>
    have hmore : '@' ∉ front := fun hmem => hfront (List.mem_cons_of_mem _ hmem)
    rw [List.cons_append, findsUserinfo, Bool.or_eq_true, Bool.and_eq_true] at h
    rcases h with ⟨_, h⟩ | h
    · exact Or.inr (reachesAt_of_append hmore (reachesAt_of_continues hends h))
    · exact ih hmore h

end

def redactedMark : List Char := ['[', 'r', 'e', 'd', 'a', 'c', 't', 'e', 'd', ']']

/-- The left text shows no more userinfo than the right one. -/
inductive ShowsLess (ends : Char → Bool) : List Char → List Char → Prop
  | cut (text : List Char) : ShowsLess ends [] text
  | keep (c : Char) {text text' : List Char} (h : ShowsLess ends text text') :
      ShowsLess ends (c :: text) (c :: text')
  | host {scheme host text text' : List Char} (hscheme : IsScheme scheme) (hhost : '@' ∉ host)
      (h : ShowsLess ends text text') :
      ShowsLess ends (scheme ++ (schemeEnd ++ (host ++ text))) (scheme ++ (schemeEnd ++ text'))
  | mask {token text text' : List Char} (htoken : ∀ c ∈ token, ends c = false)
      (h : ShowsLess ends text text') : ShowsLess ends (redactedMark ++ text) (token ++ text')

variable {less : List Char}

theorem ShowsLess.append (front : List Char) (h : ShowsLess ends less text) :
    ShowsLess ends (front ++ less) (front ++ text) := by
  induction front with
  | nil => exact h
  | cons c front ih => exact .keep c ih

theorem ShowsLess.slash {source : List Char} (h : ShowsLess ends source text)
    (hsource : source = '/' :: less) : ∃ text', text = '/' :: text' ∧ ShowsLess ends less text' := by
  cases h with
  | cut => cases hsource
  | keep c h =>
    obtain ⟨rfl, rfl⟩ := List.cons.inj hsource
    exact ⟨_, rfl, h⟩
  | @host scheme _ _ _ hscheme _ _ =>
    cases scheme with
    | nil => cases hscheme.leads
    | cons c more =>
      obtain ⟨rfl, _⟩ := List.cons.inj hsource
      exact absurd ((isScheme_cons '/' more).mp hscheme).1 (by decide)
  | mask => cases (List.cons.inj hsource).1

theorem at_notMem_scheme {scheme : List Char} (h : IsScheme scheme) : '@' ∉ scheme :=
  fun hmem => absurd (h.chars '@' hmem) (by decide)

theorem at_notMem_url {scheme host : List Char} (hscheme : IsScheme scheme) (hhost : '@' ∉ host) :
    '@' ∉ scheme ++ (schemeEnd ++ host) := by
  intro hmem
  rcases List.mem_append.mp hmem with hmem | hmem
  · exact at_notMem_scheme hscheme hmem
  · rcases List.mem_append.mp hmem with hmem | hmem
    · exact absurd hmem (by decide)
    · exact hhost hmem

section
variable (hends : ∀ c, ends c = true → endsUrl c = true)
include hends

theorem ShowsLess.reaches (h : ShowsLess ends less text) (hless : reachesAt ends less = true) :
    reachesAt ends text = true := by
  induction h with
  | cut => cases hless
  | keep c _ ih =>
    rw [reachesAt, Bool.or_eq_true, Bool.and_eq_true] at hless ⊢
    exact hless.imp_right (And.imp_right ih)
  | @host scheme host less text hscheme hhost _ ih =>
    rw [← List.append_assoc schemeEnd, ← List.append_assoc] at hless
    exact reachesAt_append (ends_scheme hends hscheme.chars) (reachesAt_append (ends_schemeEnd hends)
      (ih (reachesAt_of_append (at_notMem_url hscheme hhost) hless)))
  | mask htoken _ ih => exact reachesAt_append htoken (ih (reachesAt_of_append (by decide) hless))

theorem ShowsLess.continues (h : ShowsLess ends less text) (hless : continuesUrl ends less = true) :
    continuesUrl ends text = true := by
  induction h with
  | cut => cases hless
  | @keep c less text h ih =>
    rw [continuesUrl, Bool.or_eq_true, Bool.and_eq_true, Bool.and_eq_true] at hless ⊢
    refine hless.imp (And.imp_right ih) ?_
    rintro ⟨hhere, hreach⟩
    obtain ⟨more, hmore⟩ := (isPrefixOf_schemeEnd _).mp hhere
    obtain ⟨rfl, hslashes⟩ := List.cons.inj hmore
    obtain ⟨first, rfl, hfirst⟩ := h.slash hslashes
    obtain ⟨behind, rfl, hbehind⟩ := hfirst.slash rfl
    rw [hslashes] at hreach
    exact ⟨rfl, hbehind.reaches hends hreach⟩
  | @host scheme host less text hscheme hhost h _ =>
    have hall := reachesAt_of_continues hends hless
    rw [← List.append_assoc schemeEnd, ← List.append_assoc] at hall
    exact (continuesUrl_iff _).mpr ⟨scheme, text, rfl, hscheme.chars,
      h.reaches hends (reachesAt_of_append (at_notMem_url hscheme hhost) hall)⟩
  | mask => simp [redactedMark, continuesUrl, isSchemeChar, DocumentNames.isAsciiAlphanumeric, schemeEnd] at hless

theorem ShowsLess.finds (h : ShowsLess ends less text) (hless : findsUserinfo ends less = true) :
    findsUserinfo ends text = true := by
  induction h with
  | cut => cases hless
  | keep c h ih =>
    rw [findsUserinfo, Bool.or_eq_true, Bool.and_eq_true] at hless ⊢
    exact hless.imp (And.imp_right (h.continues hends)) ih
  | @host scheme host less text hscheme hhost h ih =>
    rw [← List.append_assoc schemeEnd, ← List.append_assoc] at hless
    rcases findsUserinfo_of_append hends (at_notMem_url hscheme hhost) hless with hless | hless
    · rw [← List.append_assoc]
      exact findsUserinfo_append _ (ih hless)
    · exact findsUserinfo_url hscheme (h.reaches hends hless)
  | @mask token less text _ _ ih =>
    refine findsUserinfo_append token (ih ?_)
    simpa [redactedMark, findsUserinfo, continuesUrl, isAsciiAlphabetic, isSchemeChar,
      DocumentNames.isAsciiAlphanumeric, schemeEnd] using hless

end

end Wiremux.ShownUserinfo
