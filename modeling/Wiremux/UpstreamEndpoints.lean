import Wiremux.EndpointPaths

set_option autoImplicit false

/-!
# The endpoint of a model

The URL of a model is that of the chat path with its places filled. Its host, its method
and `alt=sse` are the template's own.
-/
namespace Wiremux.UpstreamEndpoints
open StreamEvents SplitText UpstreamUrls EndpointHosts EndpointPaths
open ChatDecoding (splitOnce)
open JsonValue (isWhitespace asciiLowerChar)

def slashed (path : List Char) : List Char := if ['/'].isPrefixOf path then path else '/' :: path

/-- The URL of a path, before its host is replaced. -/
def joined (base path : List Char) : List Char :=
  if isAbsoluteHttpUrl path then path else trimEndSlashes base ++ slashed path

def pathOnly (url : List Char) : List Char := (splitPathSuffix url).1

def suffixOf (url : List Char) : List Char := (splitPathSuffix url).2

/-- The scheme and the authority of a URL. -/
def authority (url : List Char) : List Char :=
  match splitOnce "://".toList (pathOnly url) with
  | none => []
  | some (scheme, rest) => scheme ++ ("://".toList ++ rest.takeWhile (· != '/'))

def urlPath (url : List Char) : List Char := (pathOnly url).drop (authority url).length

def streamMethods : Option Wire → Option (List Char × List Char)
  | some .gemini => some (":generateContent".toList, ":streamGenerateContent".toList)
  | some .messages => some (":rawPredict".toList, ":streamRawPredict".toList)
  | some .converse => some ("/converse".toList, "/converse-stream".toList)
  | _ => none

def streamedSuffix (wire : Option Wire) (suffix : List Char) : List Char :=
  if wire = some .gemini then withSse suffix else suffix

/-- The path of the URL ends in the unary method. -/
def HasMethod (wire : Option Wire) (url : List Char) : Prop :=
  ∃ unary streaming, streamMethods wire = some (unary, streaming) ∧ unary <:+ urlPath url

def streamedUrl (wire : Option Wire) (url : List Char) : List Char :=
  match streamMethods wire with
  | none => url
  | some (unary, streaming) =>
    match stripSuffix? unary (urlPath url) with
    | none => url
    | some lead => authority url ++ (lead ++ (streaming ++ streamedSuffix wire (suffixOf url)))

def Rewrites (wire : Option Wire) (path : List Char) : Prop :=
  ∃ unary streaming, streamMethods wire = some (unary, streaming) ∧ unary <:+ pathOnly path

variable {wire : Option Wire} {url path base unary streaming lead suffix : List Char}

theorem stripSuffix?_eq_some {pattern text rest : List Char} :
    stripSuffix? pattern text = some rest ↔ text = rest ++ pattern := by
  constructor
  · intro h
    unfold stripSuffix? at h
    split at h
    · rename_i hsuffix
      cases h
      obtain ⟨front, rfl⟩ := List.isSuffixOf_iff_suffix.mp hsuffix
      rw [List.length_append, Nat.add_sub_cancel, List.take_left]
    · cases h
  · rintro rfl
    exact stripSuffix?_append rest pattern

theorem pathOnly_suffixOf (url : List Char) : pathOnly url ++ suffixOf url = url :=
  List.takeWhile_append_dropWhile

theorem pathOnly_plain (url : List Char) : ∀ c ∈ pathOnly url, endsPath c = false := by
  intro c hc
  have h := List.mem_takeWhile_imp hc
  rw [Bool.not_eq_true'] at h
  exact h

theorem suffixOf_start (url : List Char) : ∀ c ∈ (suffixOf url).head?, endsPath c = true := by
  intro c hc
  have hhead := List.head?_dropWhile_not (!endsPath ·) url
  rw [show (url.dropWhile (!endsPath ·)).head? = some c from hc] at hhead
  simpa using hhead

theorem authority_urlPath (url : List Char) : authority url ++ urlPath url = pathOnly url := by
  have hprefix : authority url <+: pathOnly url := by
    unfold authority
    split
    · exact List.nil_prefix
    · rename_i scheme rest hsplit
      rw [splitOnce_eq hsplit]
      refine (List.prefix_append_right_inj scheme).mpr ((List.prefix_append_right_inj _).mpr ?_)
      exact List.takeWhile_prefix _
  exact (List.prefix_iff_eq_append.mp hprefix)

theorem joinBase_eq (base path : List Char) :
    joinBase base path = rewriteVertexGlobalHost (joined base path) := by
  unfold joinBase joined
  split <;> rfl

/-- What is needed of a method and its streaming form. -/
structure MethodPair (unary streaming : List Char) : Prop where
  plain : (∀ c ∈ unary, endsPath c = false) ∧ ∀ c ∈ streaming, endsPath c = false
  bounded : Bounded unary ∧ Bounded streaming
  twins : Twins unary streaming
  weight_lt : weight unary < weight streaming
  slash : ['/'].isPrefixOf unary = ['/'].isPrefixOf streaming

theorem streamMethods_pair (h : streamMethods wire = some (unary, streaming)) :
    MethodPair unary streaming := by
  unfold streamMethods at h
  split at h
  · cases h
    exact ⟨⟨List.all_iff_forall_prop.mp (by decide), List.all_iff_forall_prop.mp (by decide)⟩,
      ⟨⟨⟨':', rfl, by decide⟩, ⟨'t', rfl, by decide⟩⟩, ⟨⟨':', rfl, by decide⟩, ⟨'t', rfl, by decide⟩⟩⟩,
      ⟨by decide, by decide⟩, by decide, by decide⟩
  · cases h
    exact ⟨⟨List.all_iff_forall_prop.mp (by decide), List.all_iff_forall_prop.mp (by decide)⟩,
      ⟨⟨⟨':', rfl, by decide⟩, ⟨'t', rfl, by decide⟩⟩, ⟨⟨':', rfl, by decide⟩, ⟨'t', rfl, by decide⟩⟩⟩,
      ⟨by decide, by decide⟩, by decide, by decide⟩
  · cases h
    exact ⟨⟨List.all_iff_forall_prop.mp (by decide), List.all_iff_forall_prop.mp (by decide)⟩,
      ⟨⟨⟨'/', rfl, by decide⟩, ⟨'e', rfl, by decide⟩⟩, ⟨⟨'/', rfl, by decide⟩, ⟨'m', rfl, by decide⟩⟩⟩,
      ⟨by decide, by decide⟩, by decide, by decide⟩
  · cases h

theorem rewriteStreamMethod_false (wire : Option Wire) (path : List Char) :
    rewriteStreamMethod wire path false = path := by
  unfold rewriteStreamMethod
  exact pathOnly_suffixOf path

def codeSuffix (wire : Option Wire) (suffix : List Char) : List Char :=
  if wire = some .gemini then withAltSse suffix else suffix

theorem rewriteStreamMethod_ends (hmethods : streamMethods wire = some (unary, streaming))
    (hlead : pathOnly path = lead ++ unary) : rewriteStreamMethod wire path true =
      lead ++ (streaming ++ codeSuffix wire (suffixOf path)) := by
  have hsplit : splitPathSuffix path = (lead ++ unary, suffixOf path) := by
    rw [← hlead]
    rfl
  have hstrip := stripSuffix?_append lead unary
  have hends : unary.isSuffixOf (lead ++ unary) = true :=
    List.isSuffixOf_iff_suffix.mpr (List.suffix_append lead unary)
  unfold rewriteStreamMethod codeSuffix
  rw [hsplit]
  dsimp only
  rw [if_neg Bool.false_ne_true.symm]
  unfold streamMethods at hmethods
  split at hmethods
  · cases hmethods
    rw [hstrip, if_pos rfl]
  · cases hmethods
    rw [hstrip]
    cases stripSuffix? ":generateContent".toList (lead ++ ":rawPredict".toList) <;> rfl
  · cases hmethods
    dsimp only
    rw [if_pos hends, if_neg (by decide), List.append_assoc]
    rfl
  · cases hmethods

theorem rewriteStreamMethod_of_not (h : ¬ Rewrites wire path) :
    rewriteStreamMethod wire path true = path := by
  have hnone : ∀ unary streaming, streamMethods wire = some (unary, streaming) →
      stripSuffix? unary (pathOnly path) = none ∧ unary.isSuffixOf (pathOnly path) = false := by
    intro unary streaming hmethods
    have hnot : unary.isSuffixOf (pathOnly path) = false := by
      rw [Bool.eq_false_iff, ne_eq, List.isSuffixOf_iff_suffix]
      exact fun hsuffix => h ⟨unary, streaming, hmethods, hsuffix⟩
    exact ⟨by rw [stripSuffix?, hnot]; rfl, hnot⟩
  have hwhole := pathOnly_suffixOf path
  have hsplit : splitPathSuffix path = (pathOnly path, suffixOf path) := rfl
  unfold rewriteStreamMethod
  rw [hsplit]
  dsimp only
  rw [if_neg Bool.false_ne_true.symm]
  cases wire with
  | none => exact hwhole
  | some wire =>
    cases wire with
    | chatCompletions => exact hwhole
    | responses => exact hwhole
    | messages =>
      rw [(hnone _ _ rfl).1]
      cases stripSuffix? ":generateContent".toList (pathOnly path) <;> exact hwhole
    | gemini =>
      rw [(hnone _ _ rfl).1]
      exact hwhole
    | converse =>
      dsimp only
      rw [(hnone _ _ rfl).2, if_neg Bool.false_ne_true]
      exact hwhole

/-- What stands in front of the method, with a slash at the start. -/
def slashLead (lead method : List Char) : List Char :=
  if ['/'].isPrefixOf (lead ++ method) then lead else '/' :: lead

theorem slashed_around {method : List Char} (hmethod : method ≠ []) (lead back : List Char) :
    slashed (lead ++ (method ++ back)) = slashLead lead method ++ (method ++ back) := by
  have hlength : ['/'].length ≤ (lead ++ method).length := by
    have hpos := List.length_pos_of_ne_nil hmethod
    simp only [List.length_append, List.length_cons, List.length_nil]
    omega
  unfold slashed slashLead
  rw [← List.append_assoc, isPrefixOf_append hlength]
  split
  · exact List.append_assoc _ _ _
  · exact congrArg ('/' :: ·) (List.append_assoc _ _ _)

theorem MethodPair.slashLead_eq (pair : MethodPair unary streaming) (lead : List Char) :
    slashLead lead streaming = slashLead lead unary := by
  have hsame : ['/'].isPrefixOf (lead ++ streaming) = ['/'].isPrefixOf (lead ++ unary) := by
    cases lead with
    | nil => exact pair.slash.symm
    | cons c rest =>
      have hlength : ['/'].length ≤ (c :: rest).length := by
        simp only [List.length_cons, List.length_nil]
        omega
      rw [isPrefixOf_append hlength, isPrefixOf_append hlength]
  unfold slashLead
  rw [hsame]

/-- The URL of a unary path and of its streaming form have the same front. -/
theorem MethodPair.joined_front (pair : MethodPair unary streaming) (base lead back more : List Char) :
    ∃ front, joined base (lead ++ (unary ++ back)) = front ++ (unary ++ back) ∧
      joined base (lead ++ (streaming ++ more)) = front ++ (streaming ++ more) ∧
      (isAbsoluteHttpUrl (lead ++ (unary ++ back)) = true → front = lead) ∧
      (isAbsoluteHttpUrl (lead ++ (unary ++ back)) = false →
        front = trimEndSlashes base ++ slashLead lead unary) := by
  have habsolute := isAbsoluteHttpUrl_twins pair.twins lead back more
  unfold joined
  rw [← habsolute]
  cases isAbsoluteHttpUrl (lead ++ (unary ++ back)) with
  | true =>
    rw [if_pos rfl, if_pos rfl]
    exact ⟨lead, rfl, rfl, fun _ => rfl, fun h => by cases h⟩
  | false =>
    rw [if_neg Bool.false_ne_true, if_neg Bool.false_ne_true,
      slashed_around pair.bounded.1.ne_nil, slashed_around pair.bounded.2.ne_nil, pair.slashLead_eq]
    exact ⟨_, (List.append_assoc _ _ _).symm, (List.append_assoc _ _ _).symm, fun h => (by cases h),
      fun _ => rfl⟩

theorem trimmed_forms (hmethods : streamMethods wire = some (unary, streaming))
    (hlead : pathOnly path = lead ++ unary) :
    trim path = lead.dropWhile isWhitespace ++ (unary ++ trimEnd (suffixOf path)) ∧
      trim (rewriteStreamMethod wire path true) = lead.dropWhile isWhitespace ++
        (streaming ++ trimEnd (codeSuffix wire (suffixOf path))) := by
  have pair := streamMethods_pair hmethods
  constructor
  · have hpath := pathOnly_suffixOf path
    rw [hlead, List.append_assoc] at hpath
    rw [← trim_around pair.bounded.1, hpath]
  · rw [rewriteStreamMethod_ends hmethods hlead, trim_around pair.bounded.2]

theorem weight_withSse (suffix : List Char) : weight suffix ≤ weight (withSse suffix) := by
  have hparts := congrArg weight (queryOf_fragmentOf suffix)
  rw [weight_append] at hparts
  rw [withSse, weight_append, ← hparts]
  refine Nat.add_le_add_right ?_ _
  unfold sseQuery
  split
  · rename_i hempty
    rw [List.isEmpty_iff.mp hempty]
    exact Nat.zero_le _
  split
  · exact Nat.le_refl _
  · rw [weight_append]
    exact Nat.le_add_right _ _

theorem weight_streamedSuffix (wire : Option Wire) (suffix : List Char) :
    weight suffix ≤ weight (streamedSuffix wire suffix) := by
  unfold streamedSuffix
  split
  · exact weight_withSse suffix
  · exact Nat.le_refl _

theorem streamedUrl_ends (hmethods : streamMethods wire = some (unary, streaming))
    (hmethod : HasMethod wire url) : ∃ front, pathOnly url = front ++ unary ∧
      streamedUrl wire url = front ++ (streaming ++ streamedSuffix wire (suffixOf url)) := by
  obtain ⟨unary', streaming', hmethods', lead, hlead⟩ := hmethod
  rw [hmethods] at hmethods'
  cases hmethods'
  refine ⟨authority url ++ lead, ?_, ?_⟩
  · rw [← authority_urlPath, ← hlead, List.append_assoc]
  · unfold streamedUrl
    rw [hmethods]
    dsimp only
    rw [stripSuffix?_eq_some.mpr hlead.symm, List.append_assoc]

theorem streamedUrl_of_not (h : ¬ HasMethod wire url) : streamedUrl wire url = url := by
  unfold streamedUrl
  split
  · rfl
  · rename_i unary streaming hmethods
    split
    · rfl
    · rename_i lead hstrip
      exact absurd ⟨unary, streaming, hmethods, lead, (stripSuffix?_eq_some.mp hstrip).symm⟩ h

theorem weight_streamedUrl (h : HasMethod wire url) : weight url < weight (streamedUrl wire url) := by
  obtain ⟨unary, streaming, hmethods, hends⟩ := h
  obtain ⟨front, hfront, hstreamed⟩ := streamedUrl_ends hmethods ⟨unary, streaming, hmethods, hends⟩
  have hurl := congrArg weight (pathOnly_suffixOf url)
  have hpair := (streamMethods_pair hmethods).weight_lt
  have hsuffix := weight_streamedSuffix wire (suffixOf url)
  rw [hfront] at hurl
  rw [hstreamed]
  simp only [weight_append] at hurl ⊢
  omega

theorem load_append_le {front : List Char} (h : ∀ c ∈ front, endsPath c = false) (back : List Char) :
    weight front ≤ load (front ++ back) := by
  have hall : ∀ c ∈ front, (!endsPath c) = true := fun c hc => by rw [h c hc]; rfl
  rw [load, List.takeWhile_append_of_pos hall, weight_append]
  exact Nat.le_add_right _ _

theorem load_streamedUrl (h : HasMethod wire url) : load url < load (streamedUrl wire url) := by
  obtain ⟨unary, streaming, hmethods, hends⟩ := h
  obtain ⟨front, hfront, hstreamed⟩ := streamedUrl_ends hmethods ⟨unary, streaming, hmethods, hends⟩
  have pair := streamMethods_pair hmethods
  have hplain : ∀ c ∈ front ++ streaming, endsPath c = false := by
    intro c hc
    rcases List.mem_append.mp hc with hc | hc
    · exact pathOnly_plain url c (hfront ▸ List.mem_append_left _ hc)
    · exact pair.plain.2 c hc
  have hload : load url = weight (pathOnly url) := rfl
  have hle := load_append_le hplain (streamedSuffix wire (suffixOf url))
  rw [hload, hfront, hstreamed, ← List.append_assoc]
  have hpair := pair.weight_lt
  rw [weight_append] at hle ⊢
  omega

theorem load_hidden {front : List Char} (h : ∃ c ∈ front, endsPath c = true) (back more : List Char) :
    load (front ++ back) = load (front ++ more) := by
  have htake : ∀ rest : List Char, (front ++ rest).takeWhile (!endsPath ·) =
      front.takeWhile (!endsPath ·) := by
    intro rest
    obtain ⟨c, hc, hends⟩ := h
    rw [List.takeWhile_append, if_neg]
    intro hlength
    have hself := (List.takeWhile_prefix (!endsPath ·)).eq_of_length hlength
    rw [← hself] at hc
    have hplain := List.mem_takeWhile_imp hc
    rw [hends] at hplain
    cases hplain
  unfold load
  rw [htake, htake]

section
variable (wire : Option Wire) (base path : List Char)

def unaryUrl : List Char := joined base (trim path)

/-- The streaming rewrite fits the URL of this path. -/
structure RewriteFits : Prop where
  rewrite : Rewrites wire path ↔ HasMethod wire (unaryUrl base path)
  bareBase : HasMethod wire (unaryUrl base path) → isAbsoluteHttpUrl (trim path) = false →
    ∀ c ∈ trimEndSlashes base, endsPath c = false
  sse : HasMethod wire (unaryUrl base path) → wire = some .gemini → SseFits (suffixOf path)

/-- `alt=sse` stands once in the streaming form of a Gemini URL. -/
def SseOnce (url : List Char) : Prop := HasMethod wire url → wire = some .gemini →
  (queryParams (queryOf (withSse (suffixOf url)))).count altSse = 1

/-- The text that is replaced stands nowhere but as the host. -/
def HostAlone (url : List Char) : Prop :=
  contains globalMark url = true → (globalParts url).isSome = true

/-- The URL that the code builds for the stream, before its host is replaced. -/
def codeStream : List Char := joined base (trim (rewriteStreamMethod wire path true))

end

theorem codeStream_of_not (h : ¬ Rewrites wire path) : codeStream wire base path = unaryUrl base path := by
  rw [codeStream, rewriteStreamMethod_of_not h]
  rfl

theorem rewritten_forms (hmethods : streamMethods wire = some (unary, streaming))
    (hlead : pathOnly path = lead ++ unary) (base : List Char) :
    ∃ front, unaryUrl base path = front ++ (unary ++ trimEnd (suffixOf path)) ∧
      codeStream wire base path = front ++ (streaming ++ trimEnd (codeSuffix wire (suffixOf path))) ∧
      ((isAbsoluteHttpUrl (trim path) = false → ∀ c ∈ trimEndSlashes base, endsPath c = false) ↔
        ∀ c ∈ front, endsPath c = false) := by
  have pair := streamMethods_pair hmethods
  obtain ⟨hunary, hstreaming⟩ := trimmed_forms hmethods hlead
  obtain ⟨front, hfirst, hsecond, habsolute, hrelative⟩ := pair.joined_front base
    (lead.dropWhile isWhitespace) (trimEnd (suffixOf path)) (trimEnd (codeSuffix wire (suffixOf path)))
  rw [← hunary] at hfirst habsolute hrelative
  rw [← hstreaming] at hsecond
  refine ⟨front, hfirst, hsecond, ?_⟩
  have hplain : ∀ c ∈ lead.dropWhile isWhitespace, endsPath c = false := by
    intro c hc
    exact pathOnly_plain path c (hlead ▸ List.mem_append_left _ ((List.dropWhile_suffix _).subset hc))
  cases hcase : isAbsoluteHttpUrl (trim path) with
  | true =>
    rw [habsolute hcase]
    exact iff_of_true (fun h => by cases h) hplain
  | false =>
    have hslash : ∀ c ∈ slashLead (lead.dropWhile isWhitespace) unary, endsPath c = false := by
      unfold slashLead
      split
      · exact hplain
      · intro c hc
        rcases List.mem_cons.mp hc with rfl | hc
        · decide
        · exact hplain c hc
    rw [hrelative hcase, List.forall_mem_append]
    exact ⟨fun h => ⟨h rfl, hslash⟩, fun h _ => h.1⟩

theorem weight_codeSuffix (wire : Option Wire) (suffix : List Char) :
    weight (trimEnd suffix) ≤ weight (trimEnd (codeSuffix wire suffix)) := by
  unfold codeSuffix
  split
  · exact weight_withAltSse suffix
  · exact Nat.le_refl _

theorem weight_codeStream (h : Rewrites wire path) (base : List Char) :
    weight (unaryUrl base path) < weight (codeStream wire base path) := by
  obtain ⟨unary, streaming, hmethods, lead, hlead⟩ := h
  obtain ⟨front, hunary, hstream, _⟩ := rewritten_forms hmethods hlead.symm base
  have hpair := (streamMethods_pair hmethods).weight_lt
  have hsuffix := weight_codeSuffix wire (suffixOf path)
  rw [hunary, hstream]
  simp only [weight_append]
  omega

theorem load_codeStream (h : Rewrites wire path)
    (hbase : ¬ (isAbsoluteHttpUrl (trim path) = false → ∀ c ∈ trimEndSlashes base, endsPath c = false)) :
    load (codeStream wire base path) = load (unaryUrl base path) := by
  obtain ⟨unary, streaming, hmethods, lead, hlead⟩ := h
  obtain ⟨front, hunary, hstream, hplain⟩ := rewritten_forms hmethods hlead.symm base
  rw [hplain] at hbase
  rw [hunary, hstream]
  refine load_hidden ?_ _ _
  by_contra hnone
  refine hbase fun c hc => ?_
  rw [← Bool.not_eq_true]
  exact fun hends => hnone ⟨c, hc, hends⟩

/-- Both URLs, where the base URL has no query and the path ends in the method. -/
theorem streamed_forms (hmethods : streamMethods wire = some (unary, streaming))
    (hlead : pathOnly path = lead ++ unary) (hmethod : HasMethod wire (unaryUrl base path))
    (hbase : isAbsoluteHttpUrl (trim path) = false → ∀ c ∈ trimEndSlashes base, endsPath c = false) :
    ∃ front, codeStream wire base path =
        front ++ (streaming ++ trimEnd (codeSuffix wire (suffixOf path))) ∧
      streamedUrl wire (unaryUrl base path) =
        front ++ (streaming ++ streamedSuffix wire (trimEnd (suffixOf path))) ∧
      suffixOf (unaryUrl base path) = trimEnd (suffixOf path) := by
  have pair := streamMethods_pair hmethods
  obtain ⟨front, hunary, hstream, hplain⟩ := rewritten_forms hmethods hlead base
  have hfront := hplain.mp hbase
  have hsplit : splitPathSuffix (unaryUrl base path) = (front ++ unary, trimEnd (suffixOf path)) := by
    rw [hunary, ← List.append_assoc]
    refine splitPathSuffix_append ?_ (trimEnd_start (suffixOf_start path))
    intro c hc
    rcases List.mem_append.mp hc with hc | hc
    · exact hfront c hc
    · exact pair.plain.1 c hc
  have hsuffix : suffixOf (unaryUrl base path) = trimEnd (suffixOf path) := congrArg Prod.snd hsplit
  obtain ⟨other, hother, hstreamed⟩ := streamedUrl_ends hmethods hmethod
  have hsame : other = front := by
    have hpath : pathOnly (unaryUrl base path) = front ++ unary := congrArg Prod.fst hsplit
    rw [hother] at hpath
    exact List.append_cancel_right hpath
  rw [hsame, hsuffix] at hstreamed
  exact ⟨front, hstream, hstreamed, hsuffix⟩

theorem codeStream_fits (h : RewriteFits wire base path) :
    codeStream wire base path = streamedUrl wire (unaryUrl base path) ∧
      SseOnce wire (unaryUrl base path) := by
  by_cases hmethod : HasMethod wire (unaryUrl base path)
  · obtain ⟨unary, streaming, hmethods, lead, hlead⟩ := h.rewrite.mpr hmethod
    obtain ⟨front, hcode, hstreamed, hsuffix⟩ :=
      streamed_forms hmethods hlead.symm hmethod (h.bareBase hmethod)
    rw [hcode, hstreamed]
    unfold SseOnce
    rw [hsuffix]
    by_cases hgemini : wire = some .gemini
    · obtain ⟨hsame, hcount⟩ := sse_fits (suffixOf_start path) (h.sse hmethod hgemini)
      rw [codeSuffix, streamedSuffix, if_pos hgemini, if_pos hgemini, hsame]
      exact ⟨rfl, fun _ _ => hcount⟩
    · rw [codeSuffix, streamedSuffix, if_neg hgemini, if_neg hgemini]
      exact ⟨rfl, fun _ h => absurd h hgemini⟩
  · rw [codeStream_of_not (mt h.rewrite.mp hmethod), streamedUrl_of_not hmethod]
    exact ⟨rfl, fun h => absurd h hmethod⟩

theorem streaming_iff (wire : Option Wire) (base path : List Char) :
    (rewriteVertexGlobalHost (codeStream wire base path) =
        hostFixed (streamedUrl wire (unaryUrl base path)) ∧ SseOnce wire (unaryUrl base path)) ↔
      RewriteFits wire base path ∧ HostAlone (streamedUrl wire (unaryUrl base path)) := by
  constructor
  · rintro ⟨hstream, honce⟩
    have hweight : weight (codeStream wire base path) =
        weight (streamedUrl wire (unaryUrl base path)) := by
      rw [← (kept_rewrite _).1, hstream, (kept_hostFixed _).1]
    have hload : load (codeStream wire base path) = load (streamedUrl wire (unaryUrl base path)) := by
      rw [← (kept_rewrite _).2, hstream, (kept_hostFixed _).2]
    have hrewrite : Rewrites wire path ↔ HasMethod wire (unaryUrl base path) := by
      constructor
      · intro h
        by_contra hnot
        have hless := weight_codeStream h base
        rw [hweight, streamedUrl_of_not hnot] at hless
        exact absurd hless (Nat.lt_irrefl _)
      · intro h
        by_contra hnot
        have hless := weight_streamedUrl h
        rw [← hweight, codeStream_of_not hnot] at hless
        exact absurd hless (Nat.lt_irrefl _)
    have hbase : HasMethod wire (unaryUrl base path) → isAbsoluteHttpUrl (trim path) = false →
        ∀ c ∈ trimEndSlashes base, endsPath c = false := by
      intro h
      by_contra hnot
      have hless := load_streamedUrl h
      rw [← hload, load_codeStream (hrewrite.mpr h) hnot] at hless
      exact absurd hless (Nat.lt_irrefl _)
    have hsse : HasMethod wire (unaryUrl base path) → wire = some .gemini → SseFits (suffixOf path) := by
      intro h hgemini
      obtain ⟨unary, streaming, hmethods, lead, hlead⟩ := hrewrite.mpr h
      obtain ⟨front, hcode, hstreamed, hsuffix⟩ := streamed_forms hmethods hlead.symm h (hbase h)
      have hcount := honce h hgemini
      rw [hsuffix] at hcount
      rw [hcode, hstreamed, codeSuffix, streamedSuffix, if_pos hgemini, if_pos hgemini] at hweight
      simp only [weight_append] at hweight
      exact sse_unfit (suffixOf_start path) (by omega) hcount
    have hfits : RewriteFits wire base path := ⟨hrewrite, hbase, hsse⟩
    rw [(codeStream_fits hfits).1] at hstream
    exact ⟨hfits, (rewriteVertexGlobalHost_iff _).mp hstream⟩
  · rintro ⟨hfits, hhost⟩
    obtain ⟨hsame, honce⟩ := codeStream_fits hfits
    rw [hsame]
    exact ⟨(rewriteVertexGlobalHost_iff _).mpr hhost, honce⟩

/-- The URL of a template with its places filled. Whether the base URL is used is for the
template to say. -/
def filledUrl (base template path : List Char) : List Char :=
  if isAbsoluteHttpUrl (trim template) then trim path else trimEndSlashes base ++ slashed (trim path)

theorem unaryUrl_eq {template : List Char}
    (htemplate : isAbsoluteHttpUrl (trim template) = true → isAbsoluteHttpUrl (trim path) = true)
    (hpath : isAbsoluteHttpUrl (trim path) = true → isAbsoluteHttpUrl (trim template) = true) :
    unaryUrl base path = filledUrl base template path := by
  have hboth : isAbsoluteHttpUrl (trim path) = isAbsoluteHttpUrl (trim template) :=
    Bool.eq_iff_iff.mpr ⟨hpath, htemplate⟩
  rw [unaryUrl, joined, filledUrl, hboth]

/-- The unary URL is the right one exactly when the model makes no path absolute and no
other text is taken for the global host. -/
theorem unary_iff {template : List Char}
    (htemplate : isAbsoluteHttpUrl (trim template) = true → isAbsoluteHttpUrl (trim path) = true) :
    rewriteVertexGlobalHost (unaryUrl base path) = hostFixed (filledUrl base template path) ↔
      (isAbsoluteHttpUrl (trim path) = true → isAbsoluteHttpUrl (trim template) = true) ∧
        HostAlone (filledUrl base template path) := by
  by_cases habsolute : isAbsoluteHttpUrl (trim path) = true → isAbsoluteHttpUrl (trim template) = true
  · have hsame : unaryUrl base path = filledUrl base template path := by
      have hboth : isAbsoluteHttpUrl (trim path) = isAbsoluteHttpUrl (trim template) :=
        Bool.eq_iff_iff.mpr ⟨habsolute, htemplate⟩
      rw [unaryUrl, joined, filledUrl, hboth]
    rw [hsame, rewriteVertexGlobalHost_iff]
    exact ⟨fun h => ⟨habsolute, h⟩, And.right⟩
  · refine iff_of_false ?_ fun h => habsolute h.1
    rw [Classical.not_imp] at habsolute
    intro heq
    have hweight := congrArg weight heq
    rw [(kept_rewrite _).1, (kept_hostFixed _).1, unaryUrl, joined, if_pos habsolute.1, filledUrl,
      if_neg habsolute.2, slashed, if_neg, weight_append] at hweight
    · have hslash : weight ('/' :: trim path) = 1 + weight (trim path) := by
        change weight (['/'] ++ trim path) = _
        rw [weight_append]
        rfl
      omega
    · intro hslash
      obtain ⟨rest, hrest⟩ := List.isPrefixOf_iff_prefix.mp hslash
      have hnot := isAbsoluteHttpUrl_slash rest
      rw [show '/' :: rest = trim path from hrest, habsolute.1] at hnot
      cases hnot

/-- The chat path of a profile, its places not filled. -/
def template (profile : Profile) : List Char :=
  (profile.chatPath <|> profile.wire.map defaultChatPath).getD ['/']

/-- The places of a template, filled with the model. -/
def filled (model : Option (List Char)) (template : List Char) : List Char :=
  match model.filter fun model => !model.isEmpty with
  | some model => replace modelPlace (encodeModelSegment model) template
  | none => template

/-- The profile and the model are accepted, with this base URL. -/
structure Accepted (profile : Profile) (model : Option (List Char)) (base : List Char) : Prop where
  base : profile.baseUrl = some base
  dots : model ≠ some ['.'] ∧ model ≠ some ['.', '.']
  places : contains modelPlace (filled model (template profile)) = false

theorem filledPath_eq (profile : Profile) (model : Option (List Char)) : filledPath profile model =
    if model = some ['.'] ∨ model = some ['.', '.'] then
      .error "model is a dot segment and would change the upstream path"
    else .ok (filled model (template profile)) := by
  unfold filledPath filled
  cases model with
  | none => rfl
  | some model =>
    cases model with
    | nil => rfl
    | cons c rest =>
      have hfilter : (some (c :: rest)).filter (fun model : List Char => !model.isEmpty) =
          some (c :: rest) := rfl
      rw [hfilter]
      simp only [Option.some.injEq]
      rfl

theorem upstreamUrlForModel_ok {profile : Profile} {model : Option (List Char)} (stream : Bool)
    (url : List Char) : upstreamUrlForModel profile model stream = .ok url ↔
      ∃ base, Accepted profile model base ∧ url = joinBase base
        (trim (rewriteStreamMethod profile.wire (filled model (template profile)) stream)) := by
  unfold upstreamUrlForModel upstreamPath
  rw [filledPath_eq]
  cases hbase : profile.baseUrl with
  | none =>
    refine iff_of_false (fun h => by cases h) ?_
    rintro ⟨base, haccepted, _⟩
    rw [haccepted.base] at hbase
    cases hbase
  | some base =>
    by_cases hdots : model = some ['.'] ∨ model = some ['.', '.']
    · rw [if_pos hdots]
      refine iff_of_false (fun h => by cases h) ?_
      rintro ⟨other, haccepted, _⟩
      rcases hdots with h | h
      · exact haccepted.dots.1 h
      · exact haccepted.dots.2 h
    · rw [if_neg hdots]
      dsimp only
      cases hplaces : contains modelPlace (filled model (template profile)) with
      | true =>
        refine iff_of_false (fun h => by cases h) ?_
        rintro ⟨other, haccepted, _⟩
        rw [haccepted.places] at hplaces
        cases hplaces
      | false =>
        rw [if_neg Bool.false_ne_true]
        constructor
        · intro h
          cases h
          exact ⟨base, ⟨hbase, not_or.mp hdots, hplaces⟩, rfl⟩
        · rintro ⟨other, haccepted, rfl⟩
          have hsame := haccepted.base
          rw [hbase] at hsame
          cases hsame
          rfl

section
variable (profile : Profile) (model : Option (List Char)) (base : List Char)

/-- The URL of the template itself, with its places. -/
def templateUrl : List Char := joined base (trim (template profile))

/-- The URL of the template, its places filled. -/
def modelUrl : List Char := filledUrl base (template profile) (filled model (template profile))

/-- A model fills the places of the template and changes nothing else: the host is
replaced when it is the global one, and the stream has the streaming method. -/
structure EndpointKept (unary streaming : List Char) : Prop where
  unary : unary = hostFixed (modelUrl profile model base)
  authority : authority (modelUrl profile model base) = authority (templateUrl profile base)
  streaming : streaming = hostFixed (streamedUrl profile.wire (modelUrl profile model base))
  /-- A method of the URL stands in the template, and in no place. -/
  method : HasMethod profile.wire (modelUrl profile model base) →
    HasMethod profile.wire (templateUrl profile base)
  sse : SseOnce profile.wire (modelUrl profile model base)
  /-- What fills a place stands for the model. -/
  places : ∀ name, model = some name →
    PercentDecoding.percentDecode (SseWriting.utf8 (encodeModelSegment name)) = SseWriting.utf8 name
  /-- The path has the segments, the query and the fragment of the template. -/
  separators : ∀ c ∈ ['/', '?', '#'],
    (filled model (template profile)).count c = (template profile).count c

/-- The model and the template keep apart. -/
structure PlainEndpoint : Prop where
  /-- The model does not make the path absolute. -/
  absolute : isAbsoluteHttpUrl (trim (filled model (template profile))) = true →
    isAbsoluteHttpUrl (trim (template profile)) = true
  /-- No place stands in the authority. -/
  authority : authority (modelUrl profile model base) = authority (templateUrl profile base)
  host : HostAlone (modelUrl profile model base) ∧
    HostAlone (streamedUrl profile.wire (modelUrl profile model base))
  /-- No place is a part of the method. -/
  place : HasMethod profile.wire (modelUrl profile model base) →
    HasMethod profile.wire (templateUrl profile base)
  rewrite : RewriteFits profile.wire base (filled model (template profile))

end

theorem template_absolute (profile : Profile) (model : Option (List Char))
    (h : isAbsoluteHttpUrl (trim (template profile)) = true) :
    isAbsoluteHttpUrl (trim (filled model (template profile))) = true := by
  unfold filled
  split
  · exact isAbsoluteHttpUrl_filled _ h
  · exact h

theorem count_replacen {c : Char} {pattern replacement : List Char} (hpattern : c ∉ pattern)
    (hreplacement : c ∉ replacement) (places : ℕ) (text : List Char) :
    (replacen pattern replacement places text).count c = text.count c := by
  induction places generalizing text with
  | zero => rfl
  | succ places ih =>
    rw [replacen]
    cases hsplit : splitOnce pattern text with
    | none => rfl
    | some halves =>
      rw [splitOnce_eq hsplit]
      simp only [List.count_append, ih, List.count_eq_zero.mpr hpattern,
        List.count_eq_zero.mpr hreplacement]

theorem count_filled (model : Option (List Char)) (template : List Char) :
    ∀ c ∈ ['/', '?', '#'], (filled model template).count c = template.count c := by
  have hnone : ∀ d ∈ ['/', '?', '#'], ¬ SegmentChar d ∧ d ∉ modelPlace :=
    List.all_iff_forall_prop.mp (by decide)
  intro c hc
  unfold filled
  split
  · exact count_replacen (hnone c hc).2 (mt segmentChar_of_mem (hnone c hc).1) _ _
  · rfl

/-- The URLs that the code gives are the right ones exactly when the model and the
template keep apart. -/
theorem urls_kept_iff (profile : Profile) (model : Option (List Char)) (base : List Char) :
    EndpointKept profile model base
      (joinBase base (trim (rewriteStreamMethod profile.wire (filled model (template profile)) false)))
      (joinBase base (trim (rewriteStreamMethod profile.wire (filled model (template profile)) true))) ↔
    PlainEndpoint profile model base := by
  have hunary := @unary_iff (filled model (template profile)) base (template profile)
    (template_absolute profile model)
  have hstream := streaming_iff profile.wire base (filled model (template profile))
  have hsame := @unaryUrl_eq (filled model (template profile)) base (template profile)
    (template_absolute profile model)
  rw [rewriteStreamMethod_false, joinBase_eq, joinBase_eq]
  constructor
  · intro h
    obtain ⟨habsolute, hhost⟩ := hunary.mp h.unary
    rw [hsame habsolute] at hstream
    obtain ⟨hfits, hstreamHost⟩ := hstream.mp ⟨h.streaming, h.sse⟩
    exact ⟨habsolute, h.authority, ⟨hhost, hstreamHost⟩, h.method, hfits⟩
  · intro h
    rw [hsame h.absolute] at hstream
    obtain ⟨hstreaming, honce⟩ := hstream.mpr ⟨h.rewrite, h.host.2⟩
    exact ⟨hunary.mpr ⟨h.absolute, h.host.1⟩, h.authority, hstreaming, h.place, honce,
      fun name _ => PercentEncoding.percentDecode_percentEncode segmentByte_keepsPlain name,
      count_filled model (template profile)⟩

/-- For every profile and model: the endpoint is the template's exactly when the two keep
apart. -/
theorem endpoint_kept_iff (profile : Profile) (model : Option (List Char)) :
    (∀ base unary streaming, profile.baseUrl = some base →
      upstreamUrlForModel profile model false = .ok unary →
      upstreamUrlForModel profile model true = .ok streaming →
      EndpointKept profile model base unary streaming) ↔
    ∀ base, Accepted profile model base → PlainEndpoint profile model base := by
  constructor
  · intro h base haccepted
    exact (urls_kept_iff profile model base).mp (h base _ _ haccepted.base
      ((upstreamUrlForModel_ok false _).mpr ⟨base, haccepted, rfl⟩)
      ((upstreamUrlForModel_ok true _).mpr ⟨base, haccepted, rfl⟩))
  · intro h base unary streaming hbase hunary hstreaming
    obtain ⟨first, hfirst, rfl⟩ := (upstreamUrlForModel_ok false _).mp hunary
    obtain ⟨second, hsecond, rfl⟩ := (upstreamUrlForModel_ok true _).mp hstreaming
    have hsame := hfirst.base
    have hsame' := hsecond.base
    rw [hbase] at hsame hsame'
    cases hsame
    cases hsame'
    exact (urls_kept_iff profile model base).mpr (h base hfirst)

/-- A Gemini path with a blank behind the method. -/
def blankBehind : Profile where
  baseUrl := some "https://h".toList
  chatPath := some "/v1beta/models/{model}:generateContent ".toList
  wire := some .gemini

theorem blank_not_streamed : ¬ ∀ base unary streaming, blankBehind.baseUrl = some base →
    upstreamUrlForModel blankBehind (some "m".toList) false = .ok unary →
    upstreamUrlForModel blankBehind (some "m".toList) true = .ok streaming →
    EndpointKept blankBehind (some "m".toList) base unary streaming := by
  intro h
  have hkept := h "https://h".toList "https://h/v1beta/models/m:generateContent".toList
    "https://h/v1beta/models/m:generateContent".toList rfl (by decide +kernel) (by decide +kernel)
  have hstreaming := hkept.streaming
  revert hstreaming
  decide +kernel

end Wiremux.UpstreamEndpoints
