import Wiremux.SanitizedErrors

set_option autoImplicit false

/-!
# No userinfo is shown

Every URL that the scan finds loses its userinfo, whatever it is. An `@` behind
a `scheme://` that the scan misses, or that the end of a URL hides from it until
control characters go, is still there.
-/
namespace Wiremux.UserinfoHidden
open ChatDecoding (splitOnce)
open SseWriting PercentDecoding SplitText UrlOrigin EmbeddedUrls ShownUserinfo SanitizedErrors

variable {ends : Char → Bool} {scheme span rest head tail : List Char}

def cutDown (url : List Char) : List Char :=
  match splitOnce schemeEnd url with
  | some (scheme, _) => scheme ++ schemeEnd
  | none => url

/-- With every URL that is found cut down, an `@` stands behind a `scheme://`
once control characters are gone. -/
def Exposed (ends : Char → Bool) (text : String) : Prop :=
  ShowsUserinfo ends (withoutControls (mapUrls cutDown [] text.toList))

theorem splitOnce_scheme (h : IsScheme scheme) (span : List Char) :
    splitOnce schemeEnd (scheme ++ (schemeEnd ++ span)) = some (scheme, span) :=
  splitOnce_at (fun hmem => absurd (h.chars ':' hmem) (by decide)) span

theorem cutDown_url (h : IsScheme scheme) (span : List Char) :
    cutDown (scheme ++ (schemeEnd ++ span)) = scheme ++ schemeEnd := by
  rw [cutDown, splitOnce_scheme h]

theorem redactUrlOrigin_url (h : IsScheme scheme) (span : List Char) :
    redactUrlOrigin (scheme ++ (schemeEnd ++ span)) =
      scheme ++ (schemeEnd ++ hostAfterUserinfo (authorityOf span)) := by
  rw [redactUrlOrigin, splitOnce_scheme h]

theorem showsLess_origins (text : List Char) :
    ShowsLess ends (redactEmbeddedUrls text) (mapUrls cutDown [] text) := by
  unfold redactEmbeddedUrls
  induction hlength : text.length using Nat.strong_induction_on generalizing text with
  | _ length ih =>
    subst hlength
    cases hsplit : splitOnce schemeEnd text with
    | none =>
      rw [mapUrls_none hsplit, mapUrls_none hsplit]
      exact showsLess_refl text
    | some halves =>
      obtain ⟨head, tail⟩ := halves
      cases hscheme : schemeOf head with
      | none =>
        rw [mapUrls_skipped hsplit hscheme, mapUrls_skipped hsplit hscheme]
        have hrest := ih _ (length_tail_lt (List.cons_ne_nil _ _) hsplit) tail rfl
        exact (hrest.append schemeEnd).append head
      | some scheme =>
        have hlead := (schemeOf_some hscheme).1
        have hrest := ih _ (length_dropWhile_lt hsplit) _ rfl
        rw [mapUrls_url hsplit hscheme, mapUrls_url hsplit hscheme, redactUrlOrigin_url hlead,
          cutDown_url hlead]
        simp only [List.append_assoc]
        exact (ShowsLess.host hlead (at_notMem_host _) hrest).append _

theorem showsLess_withoutControls {less text : List Char} (h : ShowsLess ends less text) :
    ShowsLess ends (withoutControls less) (withoutControls text) := by
  have hkeep : ∀ l : List Char, (∀ c ∈ l, isControl c = false) → withoutControls l = l :=
    fun l hl => List.filter_eq_self.mpr fun c hmem => by simp [hl c hmem]
  induction h with
  | cut => exact .cut _
  | keep c _ ih =>
    unfold withoutControls at ih ⊢
    rw [List.filter_cons, List.filter_cons]
    split
    · exact .keep c ih
    · exact ih
  | @host scheme host less text hscheme hhost _ ih =>
    have hplain : withoutControls scheme = scheme := by
      refine hkeep scheme fun c hmem => ?_
      have hrange := isSchemeChar_range (hscheme.chars c hmem)
      simp only [isControl, Bool.or_eq_false_iff, decide_eq_false_iff_not, Bool.and_eq_false_iff]
      omega
    unfold withoutControls at ih hplain ⊢
    rw [List.filter_append, List.filter_append, List.filter_append, List.filter_append,
      List.filter_append, hplain]
    exact .host hscheme (fun hmem => hhost (List.mem_of_mem_filter hmem)) ih
  | mask htoken _ ih =>
    unfold withoutControls at ih ⊢
    rw [List.filter_append, List.filter_append]
    exact .mask (fun c hmem => htoken c (List.mem_of_mem_filter hmem)) ih

theorem showsLess_take (n : ℕ) (text : List Char) : ShowsLess ends (text.take n) text := by
  have hcut : ShowsLess ends (text.take n ++ []) (text.take n ++ text.drop n) :=
    (ShowsLess.cut (text.drop n)).append (text.take n)
  rwa [List.append_nil, List.take_append_drop] at hcut

theorem exposed_of_shown (hends : Outside ends) (text : String)
    (h : ShowsUserinfo ends (sanitizeOauthErrorText text).toList) : Exposed ends text := by
  rw [Exposed, ← findsUserinfo_iff]
  rw [← findsUserinfo_iff, sanitizeOauthErrorText, String.toList_ofList] at h
  have hsummary : findsUserinfo ends (redactSecretLooking (withoutControls
      (redactEmbeddedUrls text.toList))) = true := by
    split at h
    · exact (showsLess_take maxChars _).finds hends h
    · exact h
  exact (showsLess_withoutControls (showsLess_origins text.toList)).finds hends
    (findsUserinfo_redactSecretLooking hends hsummary)

variable {text : List Char}

/-- A `://` that no scheme leads, and an `@` behind it before the next delimiter. -/
def Stray (text : List Char) : Prop :=
  ∃ front user after, text = front ++ (schemeEnd ++ (user ++ '@' :: after)) ∧ schemeOf front = none ∧
    ∀ c ∈ user, endsUrl c = false

theorem Stray.append {front rest : List Char} (hsettled : Settled front rest) (h : Stray rest) :
    Stray (front ++ rest) := by
  obtain ⟨before, user, after, htext, hscheme, huser⟩ := h
  refine ⟨front ++ before, user, after, by rw [htext, List.append_assoc], ?_, huser⟩
  rw [schemeOf, hsettled before _ htext]
  exact hscheme

theorem splitOnce_first (sep : List Char) (hsep : sep ≠ []) (front rest : List Char) :
    ∃ head tail, splitOnce sep (front ++ (sep ++ rest)) = some (head, tail) ∧
      head.length ≤ front.length := by
  induction front with
  | nil =>
    obtain ⟨c, more, rfl⟩ := List.exists_cons_of_ne_nil hsep
    refine ⟨[], (c :: more ++ rest).drop (c :: more).length, ?_, Nat.le_refl _⟩
    rw [List.nil_append, List.cons_append, splitOnce_cons, ← List.cons_append,
      if_pos (List.isPrefixOf_iff_prefix.mpr (List.prefix_append _ _))]
  | cons c front ih =>
    obtain ⟨head, tail, hsplit, hlength⟩ := ih
    rw [List.cons_append, splitOnce_cons]
    split
    · exact ⟨[], _, rfl, Nat.zero_le _⟩
    · exact ⟨c :: head, tail, by rw [hsplit]; rfl, Nat.succ_le_succ hlength⟩

theorem schemeEnd_behind {front : List Char} (hsplit : splitOnce schemeEnd text = some (head, tail))
    (h : text = front ++ (schemeEnd ++ rest)) : front = head ∧ rest = tail ∨
      ∃ mid, front = head ++ (schemeEnd ++ mid) ∧ tail = mid ++ (schemeEnd ++ rest) := by
  obtain ⟨head', tail', hsplit', hlength⟩ := splitOnce_first schemeEnd (List.cons_ne_nil _ _) front rest
  rw [← h, hsplit] at hsplit'
  obtain ⟨rfl, rfl⟩ := Prod.mk.inj (Option.some.inj hsplit')
  have hboth := (splitOnce_eq hsplit).symm.trans h
  rcases List.append_eq_append_iff.mp hboth with ⟨more, rfl, hmore⟩ | ⟨more, rfl, hmore⟩
  · match more, hmore with
    | [], hmore => exact .inl ⟨List.append_nil _, (List.append_cancel_left hmore).symm⟩
    | [_], hmore => exact absurd (List.cons.inj (List.cons.inj hmore).2).1 (by decide)
    | [_, _], hmore => exact absurd (List.cons.inj (List.cons.inj (List.cons.inj hmore).2).2).1 (by decide)
    | x :: y :: z :: mid, hmore =>
      obtain ⟨hx, hmore⟩ := List.cons.inj hmore
      obtain ⟨hy, hmore⟩ := List.cons.inj hmore
      obtain ⟨hz, hmore⟩ := List.cons.inj hmore
      exact .inr ⟨mid, by rw [← hx, ← hy, ← hz]; rfl, hmore⟩
  · have hnil : more = [] := by
      rw [List.length_append] at hlength
      exact List.length_eq_zero_iff.mp (by omega)
    subst hnil
    exact .inl ⟨(List.append_nil _).symm, List.append_cancel_left hmore⟩

theorem shows_behind {more : List Char} (hsplit : splitOnce schemeEnd text = some (head, tail))
    (h : ShowsUserinfo endsUrl (head ++ (schemeEnd ++ more))) :
    reachesAt endsUrl more = true ∨ ShowsUserinfo endsUrl more := by
  obtain ⟨before, scheme, user, after, htext, hscheme, huser⟩ := h
  have hfirst : splitOnce schemeEnd (head ++ (schemeEnd ++ more)) = some (head, more) := by
    rw [← List.append_assoc]
    exact splitOnce_append (splitOnce_front hsplit) more
  rw [← List.append_assoc before] at htext
  rcases schemeEnd_behind hfirst htext with ⟨_, hmore⟩ | ⟨mid, hfront, hmore⟩
  · exact .inl ((reachesAt_iff more).mpr ⟨user, after, hmore.symm, huser⟩)
  · refine .inr ?_
    rw [← List.append_assoc] at hfront
    rcases List.append_eq_append_iff.mp hfront with ⟨lead, hlead, hscheme'⟩ | ⟨between, hbefore, hmid⟩
    · rcases List.eq_nil_or_concat lead with rfl | ⟨init, c, rfl⟩
      · exact ⟨[], scheme, user, after, by rw [hmore, ← List.nil_append mid, ← hscheme']; rfl, hscheme, huser⟩
      · have hlast := congrArg List.getLast? hlead
        rw [List.concat_eq_append, ← List.append_assoc, List.getLast?_concat, List.getLast?_append] at hlast
        obtain rfl : '/' = c := Option.some.inj hlast
        have hslash := hscheme.chars '/' (by rw [hscheme']; simp)
        exact absurd hslash (by decide)
    · exact ⟨between, scheme, user, after, by rw [hmore, hmid, List.append_assoc], hscheme, huser⟩

theorem mapUrls_cutDown (hsplit : splitOnce schemeEnd text = some (head, tail)) :
    mapUrls cutDown [] text = head ++ (schemeEnd ++ mapUrls cutDown []
      (if (schemeOf head).isSome then tail.dropWhile fun c => !endsUrl c else tail)) := by
  cases hscheme : schemeOf head with
  | none => exact mapUrls_skipped hsplit hscheme cutDown
  | some scheme =>
    obtain ⟨hlead, hhead, _⟩ := schemeOf_some hscheme
    rw [mapUrls_url hsplit hscheme, cutDown_url hlead, List.append_assoc, ← List.append_assoc, ← hhead]
    rfl

theorem endsUrl_dropWhile (text : List Char) :
    ∀ c ∈ (text.dropWhile fun c => !endsUrl c).head?, endsUrl c = true := by
  intro c hc
  have hneg := List.head?_dropWhile_not (fun c => !endsUrl c) text
  rw [Option.mem_def.mp hc] at hneg
  simpa using hneg

/-- A text that starts with a delimiter still does once its URLs are cut down. -/
theorem delimited_cutDown (h : ∀ c ∈ text.head?, endsUrl c = true) :
    reachesAt endsUrl (mapUrls cutDown [] text) = false := by
  have hdelimited : ∀ c more, endsUrl c = true → reachesAt endsUrl (c :: more) = false := by
    intro c more hc
    rw [reachesAt, hc, Bool.not_true, Bool.false_and, Bool.or_false, beq_eq_false_iff_ne]
    rintro rfl
    exact absurd hc (by decide)
  cases text with
  | nil => rw [mapUrls_none rfl]; rfl
  | cons c more =>
    have hc := h c rfl
    cases hsplit : splitOnce schemeEnd (c :: more) with
    | none =>
      rw [mapUrls_none hsplit]
      exact hdelimited c more hc
    | some halves =>
      obtain ⟨head, tail⟩ := halves
      rw [mapUrls_cutDown hsplit]
      have htext := splitOnce_eq hsplit
      cases head with
      | nil =>
        obtain ⟨rfl, _⟩ := List.cons.inj htext
        exact absurd hc (by decide)
      | cons d head =>
        obtain ⟨rfl, _⟩ := List.cons.inj htext
        exact hdelimited c _ hc

theorem reachesAt_append_iff (front : List Char) : reachesAt ends (front ++ rest) = true ↔
    reachesAt ends front = true ∨ (∀ c ∈ front, ends c = false) ∧ reachesAt ends rest = true := by
  induction front with
  | nil => simp [reachesAt]
  | cons c front ih =>
    simp only [List.cons_append, reachesAt, Bool.or_eq_true, Bool.and_eq_true, ih, List.forall_mem_cons]
    by_cases hc : ends c = true
    · simp [hc]
    · simp [hc, or_assoc]

theorem reachesAt_cutDown (h : reachesAt endsUrl (mapUrls cutDown [] text) = true) :
    reachesAt endsUrl text = true := by
  induction hlength : text.length using Nat.strong_induction_on generalizing text with
  | _ length ih =>
    subst hlength
    cases hsplit : splitOnce schemeEnd text with
    | none => rwa [mapUrls_none hsplit] at h
    | some halves =>
      obtain ⟨head, tail⟩ := halves
      rw [mapUrls_cutDown hsplit, reachesAt_append_iff, reachesAt_append_iff] at h
      rw [splitOnce_eq hsplit, reachesAt_append_iff, reachesAt_append_iff]
      refine h.imp_right (And.imp_right (Or.imp_right (And.imp_right fun h => ?_)))
      split at h
      · rw [delimited_cutDown (endsUrl_dropWhile tail)] at h
        cases h
      · exact ih _ (length_tail_lt (List.cons_ne_nil _ _) hsplit) h rfl

theorem hidden_of_led (h : ¬ Stray text) : ¬ ShowsUserinfo endsUrl (mapUrls cutDown [] text) := by
  induction hlength : text.length using Nat.strong_induction_on generalizing text with
  | _ length ih =>
    subst hlength
    intro hshows
    cases hsplit : splitOnce schemeEnd text with
    | none =>
      rw [mapUrls_none hsplit] at hshows
      obtain ⟨before, scheme, user, after, htext, _⟩ := hshows
      obtain ⟨head, tail, hfound, _⟩ := splitOnce_first schemeEnd (List.cons_ne_nil _ _)
        (before ++ scheme) (user ++ '@' :: after)
      rw [List.append_assoc, ← htext, hsplit] at hfound
      cases hfound
    | some halves =>
      obtain ⟨head, tail⟩ := halves
      have htext := splitOnce_eq hsplit
      rw [mapUrls_cutDown hsplit] at hshows
      cases hscheme : schemeOf head with
      | none =>
        rw [hscheme] at hshows
        rcases shows_behind hsplit hshows with hreach | hinner
        · obtain ⟨user, after, rfl, huser⟩ := (reachesAt_iff _).mp (reachesAt_cutDown hreach)
          exact h ⟨head, user, after, htext, hscheme, huser⟩
        · refine ih _ (length_tail_lt (List.cons_ne_nil _ _) hsplit) (fun hstray => h ?_) rfl hinner
          rw [htext, ← List.append_assoc]
          exact hstray.append (settled_schemeEnd head tail)
      | some scheme =>
        rw [hscheme] at hshows
        rcases shows_behind hsplit hshows with hreach | hinner
        · rw [Option.isSome_some, if_pos rfl, delimited_cutDown (endsUrl_dropWhile tail)] at hreach
          cases hreach
        · refine ih _ (length_dropWhile_lt hsplit) (fun hstray => h ?_) rfl hinner
          have hall : tail = (tail.takeWhile fun c => !endsUrl c) ++ tail.dropWhile fun c => !endsUrl c :=
            List.takeWhile_append_dropWhile.symm
          rw [htext, hall, ← List.append_assoc schemeEnd, ← List.append_assoc]
          exact hstray.append (settled_dropWhile _ tail)

theorem sublist_cutDown (text : List Char) : (mapUrls cutDown [] text).Sublist text := by
  induction hlength : text.length using Nat.strong_induction_on generalizing text with
  | _ length ih =>
    subst hlength
    cases hsplit : splitOnce schemeEnd text with
    | none => rw [mapUrls_none hsplit]
    | some halves =>
      obtain ⟨head, tail⟩ := halves
      have htext := splitOnce_eq hsplit
      rw [mapUrls_cutDown hsplit]
      conv => rhs; rw [htext]
      refine ((List.Sublist.refl schemeEnd).append ?_).append_left head
      split
      · exact (ih _ (length_dropWhile_lt hsplit) _ rfl).trans (List.dropWhile_suffix _).sublist
      · exact ih _ (length_tail_lt (List.cons_ne_nil _ _) hsplit) _ rfl

theorem not_exposed_of_led {text : String} (hcontrols : ∀ c ∈ text.toList, isControl c = false)
    (hstray : ¬ Stray text.toList) : ¬ Exposed endsUrl text := by
  have hkept : withoutControls (mapUrls cutDown [] text.toList) = mapUrls cutDown [] text.toList :=
    List.filter_eq_self.mpr fun c hmem => by
      rw [hcontrols c ((sublist_cutDown text.toList).subset hmem), Bool.not_false]
  rw [Exposed, hkept]
  exact hidden_of_led hstray

variable {front back span' : List Char}

/-- A URL of a text: no scheme character in front of the scheme, no delimiter up to the end. -/
structure UrlBetween (front scheme span back : List Char) : Prop where
  lead : IsScheme scheme
  starts : ∀ c ∈ front.getLast?, isSchemeChar c = false
  undelimited : ∀ c ∈ span, endsUrl c = false
  delimited : ∀ c ∈ back.head?, endsUrl c = true

def withUrl (front scheme span back : List Char) : List Char :=
  front ++ (scheme ++ (schemeEnd ++ (span ++ back)))

/-- Both authorities decode to a userinfo, an `@` and the same host. -/
def SameHost (span span' : List Char) : Prop :=
  ∃ host userinfo userinfo' : List UInt8, 0x40 ∉ host ∧
    percentDecodeUntilStable (utf8 (authorityOf span)) = userinfo ++ 0x40 :: host ∧
    percentDecodeUntilStable (utf8 (authorityOf span')) = userinfo' ++ 0x40 :: host

theorem SameHost.host (h : SameHost span span') :
    hostAfterUserinfo (authorityOf span) = hostAfterUserinfo (authorityOf span') := by
  obtain ⟨host, userinfo, userinfo', hat, hspan, hspan'⟩ := h
  rw [hostAfterUserinfo, hostAfterUserinfo, hspan, hspan', behindLastAt_append hat,
    behindLastAt_append hat]

theorem authorityOf_at {user : List Char} (huser : ∀ c ∈ user, endsHost c = false)
    (rest : List Char) : authorityOf (user ++ '@' :: rest) = user ++ '@' :: authorityOf rest := by
  have hall : ∀ c ∈ user, (!endsHost c) = true := fun c hmem => by simp [huser c hmem]
  unfold authorityOf
  rw [List.takeWhile_append_of_pos hall]
  rfl

theorem utf8_at (user rest : List Char) : utf8 (user ++ '@' :: rest) = utf8 user ++ 0x40 :: utf8 rest := by
  have hat : String.utf8EncodeChar '@' = [0x40] := rfl
  rw [utf8, List.flatMap_append, List.flatMap_cons, hat]
  rfl

/-- What stands in front of an `@` is userinfo, also where a later one is percent encoded. -/
theorem sameHost_raw {user user' : List Char} (huser : ∀ c ∈ user, endsHost c = false)
    (huser' : ∀ c ∈ user', endsHost c = false) (rest : List Char) :
    SameHost (user ++ '@' :: rest) (user' ++ '@' :: rest) := by
  obtain ⟨tail, htail⟩ : ∃ tail, tail = 0x40 :: percentDecodeUntilStable (utf8 (authorityOf rest)) :=
    ⟨_, rfl⟩
  have hdecoded : ∀ user : List Char, (∀ c ∈ user, endsHost c = false) →
      percentDecodeUntilStable (utf8 (authorityOf (user ++ '@' :: rest))) =
        percentDecodeUntilStable (utf8 user) ++ tail := by
    intro user huser
    rw [authorityOf_at huser, utf8_at, untilStable_around (by decide) (by decide), htail]
  have hat : (0x40 : UInt8) ∈ tail.reverse := by
    rw [htail]
    exact List.mem_reverse.mpr List.mem_cons_self
  obtain ⟨host, front, hsplit, hhost⟩ := List.eq_append_cons_of_mem hat
  have hlast : tail = front.reverse ++ 0x40 :: host.reverse := by
    rw [← List.reverse_reverse tail, hsplit]
    simp
  refine ⟨host.reverse, percentDecodeUntilStable (utf8 user) ++ front.reverse,
    percentDecodeUntilStable (utf8 user') ++ front.reverse, mt List.mem_reverse.mp hhost, ?_, ?_⟩
  · rw [hdecoded user huser, hlast, List.append_assoc]
  · rw [hdecoded user' huser', hlast, List.append_assoc]

theorem splitOnce_url (hfront : splitOnce schemeEnd front = none) (h : IsScheme scheme)
    (rest : List Char) :
    splitOnce schemeEnd (front ++ (scheme ++ (schemeEnd ++ rest))) = some (front ++ scheme, rest) := by
  induction front with
  | nil => exact splitOnce_scheme h rest
  | cons c front ih =>
    have hno : ¬ schemeEnd.isPrefixOf (c :: front) = true := by
      intro hhere
      rw [splitOnce_cons, if_pos hhere] at hfront
      cases hfront
    rw [splitOnce_cons, if_neg hno, Option.map_eq_none_iff] at hfront
    rw [List.cons_append, splitOnce_cons, if_neg, ih hfront]
    · rfl
    · intro hhere
      obtain ⟨more, hmore⟩ := (isPrefixOf_schemeEnd _).mp hhere
      obtain ⟨rfl, hslashes⟩ := List.cons.inj hmore
      cases scheme with
      | nil => cases h.leads
      | cons x scheme =>
        have hx := ((isScheme_cons x scheme).mp h).1
        match front, hslashes with
        | [], hslashes =>
          rw [(List.cons.inj hslashes).1] at hx
          exact absurd hx (by decide)
        | [_], hslashes =>
          rw [(List.cons.inj (List.cons.inj hslashes).2).1] at hx
          exact absurd hx (by decide)
        | _ :: _ :: front, hslashes =>
          obtain ⟨rfl, hslash⟩ := List.cons.inj hslashes
          obtain ⟨rfl, _⟩ := List.cons.inj hslash
          exact hno rfl

theorem rtakeWhile_scheme (hfront : ∀ c ∈ front.getLast?, isSchemeChar c = false)
    (h : IsScheme scheme) : (front ++ scheme).rtakeWhile isSchemeChar = scheme := by
  rcases List.eq_nil_or_concat front with rfl | ⟨init, c, rfl⟩
  · exact List.rtakeWhile_eq_self_iff.mpr h.chars
  · have hc := hfront c (by simp)
    rw [List.concat_eq_append, List.append_assoc, List.singleton_append, rtakeWhile_append_neg hc]
    exact List.rtakeWhile_eq_self_iff.mpr h.chars

theorem schemeOf_url (hfront : ∀ c ∈ front.getLast?, isSchemeChar c = false)
    (h : IsScheme scheme) : schemeOf (front ++ scheme) = some scheme := by
  rw [schemeOf, rtakeWhile_scheme hfront h]
  exact if_pos h.leads

theorem starts_suffix {short long : List Char} (hsuffix : short <:+ long)
    (h : ∀ c ∈ long.getLast?, isSchemeChar c = false) :
    ∀ c ∈ short.getLast?, isSchemeChar c = false := by
  obtain ⟨skipped, rfl⟩ := hsuffix
  intro c hc
  refine h c ?_
  rw [List.getLast?_append, Option.mem_def.mp hc]
  rfl

theorem authorityOf_slash (front rest rest' : List Char) :
    authorityOf (front ++ '/' :: rest) = authorityOf (front ++ '/' :: rest') := by
  induction front with
  | nil => rfl
  | cons c front ih =>
    unfold authorityOf at ih ⊢
    rw [List.cons_append, List.cons_append, List.takeWhile_cons, List.takeWhile_cons, ih]

theorem authorityOf_inner (front scheme span span' : List Char) :
    authorityOf (front ++ (scheme ++ (schemeEnd ++ span))) =
      authorityOf (front ++ (scheme ++ (schemeEnd ++ span'))) := by
  have hsame := authorityOf_slash (front ++ (scheme ++ [':'])) ('/' :: span) ('/' :: span')
  simpa [schemeEnd] using hsame

theorem endsUrl_schemeEnd : ∀ c ∈ schemeEnd, endsUrl c = false := by
  have hall : (schemeEnd.all fun c => !endsUrl c) = true := rfl
  intro c hmem
  simpa using List.all_eq_true.mp hall c hmem

theorem span_of_url (hspan : ∀ c ∈ span, endsUrl c = false)
    (hback : ∀ c ∈ back.head?, endsUrl c = true) :
    ((span ++ back).takeWhile fun c => !endsUrl c) = span ∧
      ((span ++ back).dropWhile fun c => !endsUrl c) = back := by
  have hall : ∀ c ∈ span, (!endsUrl c) = true := fun c hmem => by simp [hspan c hmem]
  have hstop : (back.takeWhile fun c => !endsUrl c) = [] ∧
      (back.dropWhile fun c => !endsUrl c) = back := by
    cases back with
    | nil => exact ⟨rfl, rfl⟩
    | cons c more => simp [hback c rfl]
  rw [List.takeWhile_append_of_pos hall, List.dropWhile_append_of_pos hall, hstop.1, hstop.2,
    List.append_nil]
  exact ⟨rfl, rfl⟩

theorem inner_undelimited (hfront : ∀ c ∈ front, endsUrl c = false) (h : IsScheme scheme)
    (hspan : ∀ c ∈ span, endsUrl c = false) :
    ∀ c ∈ front ++ (scheme ++ (schemeEnd ++ span)), endsUrl c = false := by
  intro c hmem
  simp only [List.mem_append] at hmem
  rcases hmem with hmem | hmem | hmem | hmem
  · exact hfront c hmem
  · exact ends_scheme (fun _ hc => hc) h.chars c hmem
  · exact endsUrl_schemeEnd c hmem
  · exact hspan c hmem

theorem span_of_front {c : Char} (hc : c ∈ front) (hends : endsUrl c = true) (more : List Char) :
    ((front ++ more).takeWhile fun c => !endsUrl c) = (front.takeWhile fun c => !endsUrl c) ∧
      ((front ++ more).dropWhile fun c => !endsUrl c) = (front.dropWhile fun c => !endsUrl c) ++ more := by
  obtain ⟨taken, htaken⟩ : ∃ taken, taken = front.takeWhile fun c => !endsUrl c := ⟨_, rfl⟩
  obtain ⟨left, hleft⟩ : ∃ left, left = front.dropWhile fun c => !endsUrl c := ⟨_, rfl⟩
  have hfront : front = taken ++ left := by rw [htaken, hleft, List.takeWhile_append_dropWhile]
  have hspan : ∀ x ∈ taken, endsUrl x = false := by
    intro x hmem
    rw [htaken] at hmem
    simpa using List.mem_takeWhile_imp hmem
  have hne : left ≠ [] := by
    rintro rfl
    rw [hfront, List.append_nil] at hc
    rw [hspan c hc] at hends
    cases hends
  have hhead : ∀ x ∈ (left ++ more).head?, endsUrl x = true := by
    intro x hx
    have hneg := List.head?_dropWhile_not (fun c => !endsUrl c) front
    rw [List.head?_append_of_ne_nil _ hne, Option.mem_def] at hx
    rw [← hleft, hx] at hneg
    simpa using hneg
  rw [← htaken, ← hleft, hfront, List.append_assoc]
  exact span_of_url hspan hhead

theorem redactEmbeddedUrls_blind (h : UrlBetween front scheme span back)
    (hspan' : ∀ c ∈ span', endsUrl c = false) (hsame : SameHost span span') :
    redactEmbeddedUrls (withUrl front scheme span back) =
      redactEmbeddedUrls (withUrl front scheme span' back) := by
  unfold redactEmbeddedUrls withUrl
  induction hlength : front.length using Nat.strong_induction_on generalizing front with
  | _ length ih =>
    subst hlength
    cases hsplit : splitOnce schemeEnd front with
    | none =>
      have hscheme := schemeOf_url h.starts h.lead
      rw [mapUrls_url (splitOnce_url hsplit h.lead _) hscheme,
        mapUrls_url (splitOnce_url hsplit h.lead _) hscheme, (span_of_url h.undelimited h.delimited).1,
        (span_of_url h.undelimited h.delimited).2, (span_of_url hspan' h.delimited).1,
        (span_of_url hspan' h.delimited).2, redactUrlOrigin_url h.lead, redactUrlOrigin_url h.lead,
        hsame.host]
    | some halves =>
      obtain ⟨head, tail⟩ := halves
      have hshort := length_tail_lt (List.cons_ne_nil _ _) hsplit
      have hsuffix : tail <:+ front := by
        rw [splitOnce_eq hsplit]
        exact (List.suffix_append _ _).trans (List.suffix_append _ _)
      have hwhole := splitOnce_append hsplit (scheme ++ (schemeEnd ++ (span ++ back)))
      have hwhole' := splitOnce_append hsplit (scheme ++ (schemeEnd ++ (span' ++ back)))
      cases hscheme : schemeOf head with
      | none =>
        rw [mapUrls_skipped hwhole hscheme, mapUrls_skipped hwhole' hscheme,
          ih _ hshort { h with starts := starts_suffix hsuffix h.starts } rfl]
      | some other =>
        have hother := (schemeOf_some hscheme).1
        rw [mapUrls_url hwhole hscheme, mapUrls_url hwhole' hscheme, redactUrlOrigin_url hother,
          redactUrlOrigin_url hother]
        by_cases hall : ∀ c ∈ tail, endsUrl c = false
        · -- The URL stands in the path of an earlier one.
          have hinner := span_of_url (inner_undelimited hall h.lead h.undelimited) h.delimited
          have hinner' := span_of_url (inner_undelimited hall h.lead hspan') h.delimited
          simp only [List.append_assoc] at hinner hinner'
          rw [hinner.1, hinner.2, hinner'.1, hinner'.2, authorityOf_inner tail scheme span span']
        · push Not at hall
          obtain ⟨c, hc, hends⟩ := hall
          have hends : endsUrl c = true := by simpa using hends
          have hleft : (tail.dropWhile fun c => !endsUrl c) <:+ front :=
            (List.dropWhile_suffix _).trans hsuffix
          have hrest := ih _ (length_dropWhile_lt hsplit)
            { h with starts := starts_suffix hleft h.starts } rfl
          rw [(span_of_front hc hends _).1, (span_of_front hc hends _).2,
            (span_of_front hc hends _).1, (span_of_front hc hends _).2, hrest]

/-- No URL with a userinfo is printed, and another userinfo before the same host changes nothing. -/
structure Hides (ends : Char → Bool) (text : String) : Prop where
  hidden : ¬ ShowsUserinfo (fun c => ends c || endsHost c) (sanitizeOauthErrorText text).toList
  blind : ∀ front scheme span span' back, text.toList = withUrl front scheme span back →
    UrlBetween front scheme span back → (∀ c ∈ span', endsUrl c = false) → SameHost span span' →
    sanitizeOauthErrorText (String.ofList (withUrl front scheme span' back)) =
      sanitizeOauthErrorText text

theorem cutDown_reported :
    mapUrls cutDown [] "denied:\nhttp://u:p@h/t".toList = "denied:\nhttp://".toList := by
  have hsplit : splitOnce schemeEnd "denied:\nhttp://u:p@h/t".toList =
      some ("denied:\nhttp".toList, "u:p@h/t".toList) := rfl
  have hscheme : schemeOf "denied:\nhttp".toList = some "http".toList := rfl
  rw [mapUrls_url hsplit hscheme, mapUrls_none rfl]
  rfl

theorem sanitize_split_separator :
    sanitizeOauthErrorText "http:\x00//u:p@h" = "http://u:p@h" := by
  have hurls : redactEmbeddedUrls "http:\x00//u:p@h".toList = "http:\x00//u:p@h".toList :=
    mapUrls_none rfl _ _
  have hsecrets : redactSecretLooking "http://u:p@h".toList = "http://u:p@h".toList := by
    simp only [redactSecretLooking, redactPrefix, redactJwt]
    iterate 10 rw [redactRuns_none (s := "http://u:p@h".toList) rfl]
  have hcontrols : withoutControls "http:\x00//u:p@h".toList = "http://u:p@h".toList := rfl
  rw [sanitizeOauthErrorText, hurls, hcontrols, hsecrets]
  rfl

end Wiremux.UserinfoHidden
