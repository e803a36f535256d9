import Wiremux.UpstreamUrls

set_option autoImplicit false

/-!
# The model of a path

A proxy takes the model of a request from its path, for the wires whose paths carry
it. Its client has built that path with the same templates.
-/
namespace Wiremux.ModelPaths
open StreamEvents SseWriting SplitText PercentEncoding UpstreamUrls
open ChatDecoding (splitOnce)

def secondPart (sep text : List Char) : Option (List Char) :=
  (splitOnce sep text).map fun halves =>
    match splitOnce sep halves.2 with
    | some (part, _) => part
    | none => halves.2

def beforeQuestion (text : List Char) : List Char := text.takeWhile (· != '?')

def nonEmpty (model : List Char) : Option (List Char) := if model.isEmpty then none else some model

def modelFromDestPath (source : Wire) (path : List Char) : Option (List Char) :=
  match source with
  | .gemini => do
    let rest ← secondPart "/models/".toList path
    let model := (stripSuffix? ":streamGenerateContent".toList rest <|>
      stripSuffix? ":generateContent".toList rest).getD rest
    nonEmpty (beforeQuestion model)
  | .converse => do
    let rest ← stripPrefix? "/model/".toList path
    let model ← stripSuffix? "/converse-stream".toList rest <|> stripSuffix? "/converse".toList rest
    nonEmpty model
  | .messages => do
    let rest ← secondPart "/models/".toList path
    let model := (stripSuffix? ":streamRawPredict".toList rest <|>
      stripSuffix? ":rawPredict".toList rest).getD rest
    nonEmpty (beforeQuestion model)
  | .chatCompletions => do
    let rest ← stripPrefix? "/openai/deployments/".toList path
    let model ← stripSuffix? "/chat/completions".toList rest
    let model := beforeQuestion model
    if model.contains '/' then none else nonEmpty model
  | .responses => none

def ampersandParts : List Char → List (List Char)
  | [] => [[]]
  | c :: rest =>
    if c == '&' then [] :: ampersandParts rest
    else
      match ampersandParts rest with
      | [] => [[c]]
      | part :: parts => (c :: part) :: parts

def destStreamFromRequest (source : Wire) (path query : List Char) : Bool :=
  match source with
  | .converse => "/converse-stream".toList.isSuffixOf path
  | .gemini => ":streamGenerateContent".toList.isSuffixOf path ||
      (ampersandParts query).any fun part =>
        part == "alt=sse".toList || "alt=sse".toList.isPrefixOf part
  | .messages => ":streamRawPredict".toList.isSuffixOf path
  | _ => false

/-- The project and the location of a Vertex path, each a segment of its own. -/
structure VertexPlace where
  project : List Char
  location : List Char
  plain : ∀ c ∈ project ++ location, c ∉ ['/', '?', '#', '\x7b']

/-- The chat paths that carry the model: the defaults of two wires, and the Vertex and
Azure ones of the presets. -/
inductive ModelRoute
  | gemini
  | converse
  | vertexGemini (place : VertexPlace)
  | vertexMessages (place : VertexPlace)
  | azureChat

namespace ModelRoute

def wire : ModelRoute → Wire
  | gemini | vertexGemini _ => .gemini
  | converse => .converse
  | vertexMessages _ => .messages
  | azureChat => .chatCompletions

def vertexLead (place : VertexPlace) (publisher : List Char) : List Char :=
  "/v1/projects/".toList ++ (place.project ++ ("/locations/".toList ++ (place.location ++
    ("/publishers/".toList ++ (publisher ++ "/models/".toList)))))

def lead : ModelRoute → List Char
  | gemini => "/v1beta/models/".toList
  | converse => "/model/".toList
  | vertexGemini place => vertexLead place "google".toList
  | vertexMessages place => vertexLead place "anthropic".toList
  | azureChat => "/openai/deployments/".toList

def method : ModelRoute → List Char
  | gemini | vertexGemini _ => ":generateContent".toList
  | converse => "/converse".toList
  | vertexMessages _ => ":rawPredict".toList
  | azureChat => "/chat/completions".toList

def query : ModelRoute → List Char
  | azureChat => "?api-version=2024-10-21".toList
  | _ => []

def template (route : ModelRoute) : List Char :=
  route.lead ++ (modelPlace ++ (route.method ++ route.query))

/-- The method of a request, after the rewriting of a streaming one. -/
def sentMethod (route : ModelRoute) (stream : Bool) : List Char :=
  if stream then
    match route with
    | gemini | vertexGemini _ => ":streamGenerateContent".toList
    | converse => "/converse-stream".toList
    | vertexMessages _ => ":streamRawPredict".toList
    | azureChat => "/chat/completions".toList
  else route.method

def sentQuery (route : ModelRoute) (stream : Bool) : List Char :=
  match route with
  | gemini | vertexGemini _ => if stream then "?alt=sse".toList else []
  | _ => route.query

/-- The wires with a streaming form of the path. -/
def streams : ModelRoute → Bool
  | azureChat => false
  | _ => true

end ModelRoute

/-- The profile of a route, on any base URL. -/
def routeProfile (route : ModelRoute) (base : List Char) : Profile where
  baseUrl := some base
  chatPath :=
    match route with
    | .gemini | .converse => none
    | route => some route.template
  wire := some route.wire

def modelPath (route : ModelRoute) (model : List Char) (stream : Bool) : List Char :=
  route.lead ++ (encodeModelSegment model ++ route.sentMethod stream)

/-- What an earlier segment `models` of a Vertex path puts in the place of the model. -/
def earlierModels (place : VertexPlace) (publisher : List Char) : Option (List Char) :=
  if place.project = "models".toList then
    if place.location = "models".toList then some "locations".toList
    else some ("locations/".toList ++ (place.location ++ ("/publishers/".toList ++ publisher)))
  else if place.location = "models".toList then some ("publishers/".toList ++ publisher)
  else none

def misread : ModelRoute → Option (List Char)
  | .vertexGemini place => earlierModels place "google".toList
  | .vertexMessages place => earlierModels place "anthropic".toList
  | _ => none

variable {model text : List Char} {stream : Bool}

theorem method_plain (route : ModelRoute) (stream : Bool) :
    ∀ c ∈ route.sentMethod stream, c ∉ ['?', '#', '\x7b'] := by
  apply (List.all_iff_forall_prop (p := fun c => c ∉ ['?', '#', '\x7b'])).mp
  cases route with
  | gemini => cases stream <;> decide
  | converse => cases stream <;> decide
  | vertexGemini place => cases stream <;> rfl
  | vertexMessages place => cases stream <;> rfl
  | azureChat => cases stream <;> decide

theorem query_plain (route : ModelRoute) (stream : Bool) :
    (∀ c ∈ (route.sentQuery stream).head?, endsPath c = true) ∧ '\x7b' ∉ route.sentQuery stream := by
  have hcases : route.sentQuery stream = [] ∨ route.sentQuery stream = "?alt=sse".toList ∨
      route.sentQuery stream = "?api-version=2024-10-21".toList := by
    cases route with
    | gemini => cases stream <;> decide
    | converse => exact .inl rfl
    | vertexGemini place =>
      cases stream with
      | false => exact .inl rfl
      | true => exact .inr (.inl rfl)
    | vertexMessages place => exact .inl rfl
    | azureChat => exact .inr (.inr rfl)
  rcases hcases with h | h | h
  · rw [h]
    exact ⟨fun c hc => (by cases hc), by decide⟩
  · rw [h]
    refine ⟨fun c hc => ?_, by decide⟩
    cases hc
    rfl
  · rw [h]
    refine ⟨fun c hc => ?_, by decide⟩
    cases hc
    rfl

theorem sentQuery_false (route : ModelRoute) : route.sentQuery false = route.query := by
  cases route <;> rfl

theorem sent_ends (route : ModelRoute) (stream : Bool) :
    ((route.sentMethod stream ++ route.sentQuery stream).getLast?.map JsonValue.isWhitespace) =
      some false := by
  cases route with
  | gemini => cases stream <;> rfl
  | converse => cases stream <;> rfl
  | vertexGemini place => cases stream <;> rfl
  | vertexMessages place => cases stream <;> rfl
  | azureChat => cases stream <;> rfl

theorem vertexLead_plain (place : VertexPlace) {publisher : List Char}
    (h : ∀ c ∈ publisher, c ∉ ['?', '#', '\x7b']) :
    ∀ c ∈ ModelRoute.vertexLead place publisher, c ∉ ['?', '#', '\x7b'] := by
  have hplace : ∀ c ∈ place.project ++ place.location, c ∉ ['?', '#', '\x7b'] :=
    fun c hc hbad => place.plain c hc (List.mem_cons_of_mem _ hbad)
  have hfixed : ∀ c ∈ "/v1/projects/".toList ++ ("/locations/".toList ++ ("/publishers/".toList ++
      "/models/".toList)), c ∉ ['?', '#', '\x7b'] := List.all_iff_forall_prop.mp (by decide)
  rw [List.forall_mem_append, List.forall_mem_append, List.forall_mem_append] at hfixed
  rw [List.forall_mem_append] at hplace
  obtain ⟨hprojects, hlocations, hpublishers, hmodels⟩ := hfixed
  unfold ModelRoute.vertexLead
  simp only [List.forall_mem_append]
  exact ⟨hprojects, hplace.1, hlocations, hplace.2, hpublishers, h, hmodels⟩

theorem lead_plain (route : ModelRoute) : ∀ c ∈ route.lead, c ∉ ['?', '#', '\x7b'] := by
  cases route with
  | gemini => exact List.all_iff_forall_prop.mp (by decide)
  | converse => exact List.all_iff_forall_prop.mp (by decide)
  | vertexGemini place => exact vertexLead_plain place (List.all_iff_forall_prop.mp (by decide))
  | vertexMessages place => exact vertexLead_plain place (List.all_iff_forall_prop.mp (by decide))
  | azureChat => exact List.all_iff_forall_prop.mp (by decide)

theorem lead_slash (route : ModelRoute) : ∃ rest, route.lead = '/' :: rest := by
  cases route with
  | gemini => exact ⟨_, rfl⟩
  | converse => exact ⟨_, rfl⟩
  | vertexGemini place => exact ⟨_, rfl⟩
  | vertexMessages place => exact ⟨_, rfl⟩
  | azureChat => exact ⟨_, rfl⟩

theorem segment_plain (model : List Char) : ∀ c ∈ encodeModelSegment model,
    c ∉ ['/', '?', '#', '\x7b'] := by
  intro c hc hbad
  have hnone : ∀ d ∈ ['/', '?', '#', '\x7b'], ¬ SegmentChar d :=
    List.all_iff_forall_prop.mp (by decide)
  exact hnone c hbad (segmentChar_of_mem hc)

theorem filledPath_route (route : ModelRoute) (base : List Char) (hmodel : model ≠ [])
    (hdots : model ≠ ['.'] ∧ model ≠ ['.', '.']) :
    filledPath (routeProfile route base) (some model) =
      .ok (route.lead ++ (encodeModelSegment model ++ (route.method ++ route.query))) := by
  have htemplate : ((routeProfile route base).chatPath <|>
      (routeProfile route base).wire.map defaultChatPath).getD ['/'] = route.template := by
    cases route <;> rfl
  have hlead : '\x7b' ∉ route.lead := fun h => lead_plain route _ h (by decide)
  have hback : '\x7b' ∉ route.method ++ route.query := by
    rw [List.mem_append, not_or]
    refine ⟨fun h => method_plain route false _ h (by decide), ?_⟩
    rw [← sentQuery_false]
    exact (query_plain route false).2
  have hfill : replace modelPlace (encodeModelSegment model) route.template =
      route.lead ++ (encodeModelSegment model ++ (route.method ++ route.query)) :=
    replace_once hlead hback (encodeModelSegment model)
  have hfilter : (some model).filter (fun model => !model.isEmpty) = some model := by
    cases model with
    | nil => exact absurd rfl hmodel
    | cons c rest => rfl
  unfold filledPath
  rw [hfilter]
  dsimp only
  rw [if_neg (not_or.mpr hdots), htemplate, hfill]

theorem rewriteStreamMethod_route (route : ModelRoute) (model : List Char) (stream : Bool) :
    rewriteStreamMethod (some route.wire)
      (route.lead ++ (encodeModelSegment model ++ (route.method ++ route.query))) stream =
      modelPath route model stream ++ route.sentQuery stream := by
  have hplain : ∀ c ∈ route.lead ++ (encodeModelSegment model ++ route.method),
      endsPath c = false := by
    intro c hc
    have hclean : c ∉ ['?', '#', '\x7b'] := by
      rcases List.mem_append.mp hc with hc | hc
      · exact lead_plain route c hc
      rcases List.mem_append.mp hc with hc | hc
      · exact fun hbad => segment_plain model c hc (List.mem_cons_of_mem _ hbad)
      · exact method_plain route false c hc
    unfold endsPath
    rw [List.mem_cons, List.mem_cons, not_or, not_or] at hclean
    rw [beq_eq_false_iff_ne.mpr hclean.1, beq_eq_false_iff_ne.mpr hclean.2.1]
    rfl
  have hquery : ∀ c ∈ route.query.head?, endsPath c = true := by
    rw [← sentQuery_false]
    exact (query_plain route false).1
  have hsplit := splitPathSuffix_append hplain hquery
  have hassoc : route.lead ++ (encodeModelSegment model ++ (route.method ++ route.query)) =
      (route.lead ++ (encodeModelSegment model ++ route.method)) ++ route.query := by
    simp only [List.append_assoc]
  have hstrip : stripSuffix? route.method (route.lead ++ (encodeModelSegment model ++ route.method)) =
      some (route.lead ++ encodeModelSegment model) := by
    rw [← List.append_assoc]
    exact stripSuffix?_append _ _
  rw [hassoc, rewriteStreamMethod, hsplit, modelPath]
  dsimp only
  cases stream with
  | false =>
    rw [if_pos rfl]
    cases route <;> rfl
  | true =>
    rw [if_neg Bool.false_ne_true.symm]
    cases route with
    | gemini =>
      change stripSuffix? ":generateContent".toList _ = _ at hstrip
      rw [hstrip]
      change (ModelRoute.gemini.lead ++ encodeModelSegment model) ++ _ = _
      simp only [List.append_assoc]
      rfl
    | vertexGemini place =>
      change stripSuffix? ":generateContent".toList _ = _ at hstrip
      rw [hstrip]
      change ((ModelRoute.vertexGemini place).lead ++ encodeModelSegment model) ++ _ = _
      simp only [List.append_assoc]
      rfl
    | vertexMessages place =>
      change stripSuffix? ":rawPredict".toList _ = _ at hstrip
      rw [hstrip]
      change ((ModelRoute.vertexMessages place).lead ++ encodeModelSegment model) ++ _ = _
      simp only [List.append_assoc]
      rfl
    | converse =>
      have hends : "/converse".toList.isSuffixOf
          (ModelRoute.converse.lead ++ (encodeModelSegment model ++ ModelRoute.converse.method)) =
          true := by
        rw [List.isSuffixOf_iff_suffix, ← List.append_assoc]
        exact List.suffix_append _ _
      change (if _ = true then _ else _) = _
      rw [if_pos hends]
      simp only [List.append_assoc]
      rfl
    | azureChat => rfl

theorem upstreamPath_route (route : ModelRoute) (base : List Char) (hmodel : model ≠ [])
    (hdots : model ≠ ['.'] ∧ model ≠ ['.', '.']) (stream : Bool) :
    upstreamPath (routeProfile route base) (some model) stream =
      .ok (modelPath route model stream ++ route.sentQuery stream) := by
  have hplace : contains modelPlace
      (route.lead ++ (encodeModelSegment model ++ (route.method ++ route.query))) = false := by
    refine contains_false (c := '\x7b') (by decide) ?_
    intro h
    rcases List.mem_append.mp h with h | h
    · exact lead_plain route _ h (by decide)
    rcases List.mem_append.mp h with h | h
    · exact segment_plain model _ h (by decide)
    rcases List.mem_append.mp h with h | h
    · exact method_plain route false _ h (by decide)
    · rw [← sentQuery_false] at h
      exact (query_plain route false).2 h
  obtain ⟨rest, hrest⟩ := lead_slash route
  have hfirst : ∀ c ∈ (modelPath route model stream ++ route.sentQuery stream).head?,
      JsonValue.isWhitespace c = false := by
    rw [modelPath, hrest]
    intro c hc
    cases hc
    decide
  have hlast : ∀ c ∈ (modelPath route model stream ++ route.sentQuery stream).getLast?,
      JsonValue.isWhitespace c = false := by
    obtain ⟨last, hsent, hblank⟩ := Option.map_eq_some_iff.mp (sent_ends route stream)
    have hne : route.sentMethod stream ++ route.sentQuery stream ≠ [] := by
      intro hempty
      rw [hempty] at hsent
      cases hsent
    have hassoc : modelPath route model stream ++ route.sentQuery stream =
        (route.lead ++ encodeModelSegment model) ++
          (route.sentMethod stream ++ route.sentQuery stream) := by
      rw [modelPath]
      simp only [List.append_assoc]
    rw [hassoc, List.getLast?_append_of_ne_nil _ hne, hsent]
    intro c hc
    cases hc
    exact hblank
  unfold upstreamPath
  rw [filledPath_route route base hmodel hdots]
  dsimp only
  rw [hplace, if_neg Bool.false_ne_true]
  change Except.ok (trim (rewriteStreamMethod (some route.wire) _ stream)) = _
  rw [rewriteStreamMethod_route, trim_eq_self hfirst hlast]

def joined (segments : List (List Char)) : List Char := segments.flatMap ('/' :: ·)

theorem splitOnce_skip {c : Char} {sep front : List Char} (h : c ∉ front) (rest : List Char) :
    splitOnce (c :: sep) (front ++ rest) =
      (splitOnce (c :: sep) rest).map fun halves => (front ++ halves.1, halves.2) := by
  induction front with
  | nil =>
    rw [List.nil_append]
    cases splitOnce (c :: sep) rest <;> rfl
  | cons x front ih =>
    obtain ⟨hx, hfront⟩ := not_or.mp (mt List.mem_cons.mpr h)
    rw [List.cons_append, splitOnce_cons, if_neg, ih hfront]
    · cases splitOnce (c :: sep) rest <;> rfl
    · rw [List.isPrefixOf_iff_prefix]
      exact fun hprefix => hx (List.cons_prefix_cons.mp hprefix).1

theorem segment_unique {first second front back : List Char} (hfirst : '/' ∉ first)
    (hsecond : '/' ∉ second) (h : first ++ '/' :: front = second ++ '/' :: back) :
    first = second := by
  have htake := congrArg (List.takeWhile (· != '/')) h
  have hall : ∀ {text : List Char}, '/' ∉ text → ∀ c ∈ text, (c != '/') = true :=
    fun hclean c hc => bne_iff_ne.mpr fun heq => hclean (heq ▸ hc)
  rw [List.takeWhile_append_of_pos (hall hfirst), List.takeWhile_append_of_pos (hall hsecond),
    List.takeWhile_cons_of_neg (by decide), List.takeWhile_cons_of_neg (by decide)] at htake
  simpa only [List.append_nil] using htake

theorem splitOnce_segment {segment : List Char} (hslash : '/' ∉ segment)
    (hname : segment ≠ "models".toList) (rest : List Char) :
    splitOnce "/models/".toList ('/' :: (segment ++ '/' :: rest)) =
      (splitOnce "/models/".toList ('/' :: rest)).map fun halves =>
        ('/' :: segment ++ halves.1, halves.2) := by
  rw [splitOnce_cons, if_neg]
  · change (splitOnce ('/' :: "models/".toList) (segment ++ '/' :: rest)).map _ = _
    rw [splitOnce_skip hslash]
    change _ = (splitOnce ('/' :: "models/".toList) ('/' :: rest)).map _
    cases splitOnce ('/' :: "models/".toList) ('/' :: rest) <;> rfl
  · rw [List.isPrefixOf_iff_prefix]
    rintro ⟨more, hmore⟩
    have hrest : "models".toList ++ '/' :: more = segment ++ '/' :: rest :=
      (List.cons.inj hmore).2
    exact hname (segment_unique (by decide) hslash hrest).symm

theorem splitOnce_segments {segments : List (List Char)}
    (h : ∀ segment ∈ segments, '/' ∉ segment ∧ segment ≠ "models".toList) (rest : List Char) :
    splitOnce "/models/".toList (joined segments ++ ("/models/".toList ++ rest)) =
      some (joined segments, rest) := by
  induction segments with
  | nil => exact splitOnce_at List.not_mem_nil rest
  | cons segment segments ih =>
    obtain ⟨hslash, hname⟩ := h segment List.mem_cons_self
    have hrest := ih fun other hother => h other (List.mem_cons_of_mem _ hother)
    obtain ⟨more, hmore⟩ : ∃ more,
        joined segments ++ ("/models/".toList ++ rest) = '/' :: more := by
      cases segments with
      | nil => exact ⟨_, rfl⟩
      | cons other others => exact ⟨_, rfl⟩
    have hpath : joined (segment :: segments) ++ ("/models/".toList ++ rest) =
        '/' :: (segment ++ '/' :: more) := by
      rw [← hmore, joined, List.flatMap_cons, List.append_assoc]
      rfl
    rw [hpath, splitOnce_segment hslash hname, ← hmore, hrest]
    rfl

theorem secondPart_last {front rest : List Char}
    (h : splitOnce "/models/".toList text = some (front, rest)) (hrest : '/' ∉ rest) :
    secondPart "/models/".toList text = some rest := by
  rw [secondPart, h, Option.map_some, splitOnce_none (c := '/') (by decide) hrest]

theorem secondPart_between {front rest part after : List Char}
    (h : splitOnce "/models/".toList text = some (front, rest))
    (hrest : splitOnce "/models/".toList rest = some (part, after)) :
    secondPart "/models/".toList text = some part := by
  rw [secondPart, h, Option.map_some, hrest]

theorem splitOnce_inside {first : List Char} (hfirst : '/' ∉ first) {segments : List (List Char)}
    (h : ∀ segment ∈ segments, '/' ∉ segment ∧ segment ≠ "models".toList) (rest : List Char) :
    splitOnce "/models/".toList (first ++ (joined segments ++ ("/models/".toList ++ rest))) =
      some (first ++ joined segments, rest) := by
  change splitOnce ('/' :: "models/".toList) _ = _
  rw [splitOnce_skip hfirst]
  change (splitOnce "/models/".toList _).map _ = _
  rw [splitOnce_segments h]
  rfl

theorem vertexLead_segments (place : VertexPlace) (publisher rest : List Char) :
    ModelRoute.vertexLead place publisher ++ rest =
      joined ["v1".toList, "projects".toList, place.project, "locations".toList, place.location,
        "publishers".toList, publisher] ++ ("/models/".toList ++ rest) := by
  have hone : "/v1/projects/".toList =
      '/' :: ("v1".toList ++ '/' :: ("projects".toList ++ ['/'])) := by decide
  have htwo : "/locations/".toList = '/' :: ("locations".toList ++ ['/']) := by decide
  have hthree : "/publishers/".toList = '/' :: ("publishers".toList ++ ['/']) := by decide
  unfold ModelRoute.vertexLead joined
  rw [hone, htwo, hthree]
  generalize "v1".toList = version
  generalize "projects".toList = projects
  generalize "locations".toList = locations
  generalize "publishers".toList = publishers
  generalize "/models/".toList = models
  simp only [List.flatMap_cons, List.flatMap_nil, List.append_assoc, List.append_nil,
    List.cons_append, List.nil_append]

theorem secondPart_vertex (place : VertexPlace) {publisher rest : List Char}
    (hpublisher : '/' ∉ publisher ∧ publisher ≠ "models".toList) (hrest : '/' ∉ rest) :
    secondPart "/models/".toList (ModelRoute.vertexLead place publisher ++ rest) =
      some ((earlierModels place publisher).getD rest) := by
  have hproject : '/' ∉ place.project := fun h =>
    place.plain _ (List.mem_append_left _ h) (by decide)
  have hlocation : '/' ∉ place.location := fun h =>
    place.plain _ (List.mem_append_right _ h) (by decide)
  have hversion : '/' ∉ "v1".toList ∧ "v1".toList ≠ "models".toList := by decide
  have hprojects : '/' ∉ "projects".toList ∧ "projects".toList ≠ "models".toList := by decide
  have hlocations : '/' ∉ "locations".toList ∧ "locations".toList ≠ "models".toList := by decide
  have hpublishers : '/' ∉ "publishers".toList ∧ "publishers".toList ≠ "models".toList := by decide
  rw [vertexLead_segments, earlierModels]
  by_cases hp : place.project = "models".toList
  · have hcut : splitOnce "/models/".toList (joined ["v1".toList, "projects".toList,
        place.project, "locations".toList, place.location, "publishers".toList, publisher] ++
          ("/models/".toList ++ rest)) =
        some (joined ["v1".toList, "projects".toList], "locations".toList ++
          (joined [place.location, "publishers".toList, publisher] ++
            ("/models/".toList ++ rest))) := by
      have hfront : ∀ segment ∈ ["v1".toList, "projects".toList],
          '/' ∉ segment ∧ segment ≠ "models".toList := by
        simp only [List.forall_mem_cons]
        exact ⟨hversion, hprojects, by simp⟩
      rw [← splitOnce_segments hfront, hp]
      simp [joined, List.append_assoc]
    rw [if_pos hp]
    by_cases hl : place.location = "models".toList
    · rw [if_pos hl]
      have hnone : ∀ segment ∈ ([] : List (List Char)),
          '/' ∉ segment ∧ segment ≠ "models".toList := fun _ h => absurd h List.not_mem_nil
      have hnext := splitOnce_inside hlocations.1 hnone
        ("publishers".toList ++ (joined [publisher] ++ ("/models/".toList ++ rest)))
      have htext : "locations".toList ++ (joined [place.location, "publishers".toList,
          publisher] ++ ("/models/".toList ++ rest)) = "locations".toList ++ (joined [] ++
            ("/models/".toList ++ ("publishers".toList ++ (joined [publisher] ++
              ("/models/".toList ++ rest))))) := by
        rw [hl]
        simp [joined]
      rw [← htext] at hnext
      exact secondPart_between hcut hnext
    · rw [if_neg hl]
      refine (secondPart_between hcut (splitOnce_inside hlocations.1 (by
        simp only [List.forall_mem_cons]
        exact ⟨⟨hlocation, hl⟩, hpublishers, hpublisher, by simp⟩) rest)).trans ?_
      simp [joined]
  · rw [if_neg hp]
    by_cases hl : place.location = "models".toList
    · have hcut : splitOnce "/models/".toList (joined ["v1".toList, "projects".toList,
          place.project, "locations".toList, place.location, "publishers".toList, publisher] ++
            ("/models/".toList ++ rest)) =
          some (joined ["v1".toList, "projects".toList, place.project, "locations".toList],
            "publishers".toList ++ (joined [publisher] ++ ("/models/".toList ++ rest))) := by
        have hfront : ∀ segment ∈ ["v1".toList, "projects".toList, place.project,
            "locations".toList], '/' ∉ segment ∧ segment ≠ "models".toList := by
          simp only [List.forall_mem_cons]
          exact ⟨hversion, hprojects, ⟨hproject, hp⟩, hlocations, by simp⟩
        rw [← splitOnce_segments hfront, hl]
        simp [joined, List.append_assoc]
      rw [if_pos hl]
      refine (secondPart_between hcut (splitOnce_inside hpublishers.1 (by
        simp only [List.forall_mem_cons]
        exact ⟨hpublisher, by simp⟩) rest)).trans ?_
      simp [joined]
    · rw [if_neg hl]
      refine secondPart_last (splitOnce_segments ?_ rest) hrest
      simp only [List.forall_mem_cons]
      exact ⟨hversion, hprojects, ⟨hproject, hp⟩, hlocations, ⟨hlocation, hl⟩, hpublishers,
        hpublisher, by simp⟩

theorem stripSuffix?_last {pattern text : List Char} {c d : Char} (hpattern : pattern.getLast? = some c)
    (htext : text.getLast? = some d) (h : c ≠ d) : stripSuffix? pattern text = none := by
  rw [stripSuffix?, if_neg]
  rw [List.isSuffixOf_iff_suffix]
  rintro ⟨front, rfl⟩
  have hne : pattern ≠ [] := by
    rintro rfl
    cases hpattern
  rw [List.getLast?_append_of_ne_nil front hne, hpattern] at htext
  exact h (Option.some.inj htext)

theorem beforeQuestion_clean (h : '?' ∉ text) : beforeQuestion text = text := by
  have hall : ∀ c ∈ text, (c != '?') = true := fun c hc => bne_iff_ne.mpr fun heq => h (heq ▸ hc)
  have htake := @List.takeWhile_append_of_pos _ (· != '?') text [] hall
  rw [List.append_nil, List.takeWhile_nil, List.append_nil] at htake
  exact htake

theorem nonEmpty_some (h : text ≠ []) : nonEmpty text = some text := by
  cases text with
  | nil => exact absurd rfl h
  | cons c rest => rfl

theorem segment_question (model : List Char) : '?' ∉ encodeModelSegment model :=
  fun h => segment_plain model _ h (by decide)

/-- What an earlier segment leaves in the place of the model has no method behind it. -/
theorem earlierModels_text {place : VertexPlace} {publisher other : List Char}
    (hpublisher : publisher ≠ []) (hquestion : '?' ∉ publisher)
    (h : earlierModels place publisher = some other) :
    other ≠ [] ∧ '?' ∉ other ∧
      (other.getLast? = some 's' ∨ other.getLast? = publisher.getLast?) := by
  have hlocation : '?' ∉ place.location := fun h =>
    place.plain _ (List.mem_append_right _ h) (by decide)
  unfold earlierModels at h
  split at h
  · split at h
    · cases h
      exact ⟨by decide, by decide, .inl rfl⟩
    · cases h
      refine ⟨by simp, ?_, .inr ?_⟩
      · simp only [List.mem_append, not_or]
        exact ⟨by decide, hlocation, by decide, hquestion⟩
      · rw [← List.append_assoc, ← List.append_assoc]
        exact List.getLast?_append_of_ne_nil _ hpublisher
  · split at h
    · cases h
      refine ⟨by simp, ?_, .inr (List.getLast?_append_of_ne_nil _ hpublisher)⟩
      rw [List.mem_append, not_or]
      exact ⟨by decide, hquestion⟩
    · cases h

theorem slash_not_mem_rest (model : List Char) {method : List Char} (h : '/' ∉ method) :
    '/' ∉ encodeModelSegment model ++ method := by
  rw [List.mem_append, not_or]
  exact ⟨fun hbad => segment_plain model _ hbad (by decide), h⟩

theorem isSuffixOf_longer {longer ending : List Char} (hlength : ending.length ≤ longer.length)
    (h : ending.isSuffixOf longer = false) (front : List Char) :
    longer.isSuffixOf (front ++ ending) = false := by
  rw [Bool.eq_false_iff, ne_eq, List.isSuffixOf_iff_suffix]
  intro hsuffix
  have hends : ending <:+ longer :=
    List.suffix_of_suffix_length_le (List.suffix_append front ending) hsuffix hlength
  rw [List.isSuffixOf_iff_suffix.mpr hends] at h
  cases h

theorem isSuffixOf_append (front ending : List Char) : ending.isSuffixOf (front ++ ending) = true :=
  List.isSuffixOf_iff_suffix.mpr (List.suffix_append front ending)

theorem stripSuffix?_longer {longer ending : List Char} (hlength : ending.length ≤ longer.length)
    (h : ending.isSuffixOf longer = false) (front : List Char) :
    stripSuffix? longer (front ++ ending) = none := by
  rw [stripSuffix?, isSuffixOf_longer hlength h, if_neg Bool.false_ne_true]

theorem strip_method {streaming unary sent segment : List Char}
    (hsent : sent = streaming ∨ sent = unary)
    (hlength : unary.length ≤ streaming.length) (hdiffer : unary.isSuffixOf streaming = false) :
    (stripSuffix? streaming (segment ++ sent) <|> stripSuffix? unary (segment ++ sent)) =
      some segment := by
  rcases hsent with rfl | rfl
  · rw [stripSuffix?_append]
    rfl
  · rw [stripSuffix?_longer hlength hdiffer, stripSuffix?_append]
    rfl

theorem read_behind {streaming unary sent rest : List Char} (other : Option (List Char))
    (hsent : sent = streaming ∨ sent = unary) (hlength : unary.length ≤ streaming.length)
    (hdiffer : unary.isSuffixOf streaming = false) (hmodel : model ≠ [])
    (hends : streaming.getLast? = some 't' ∧ unary.getLast? = some 't')
    (hother : ∀ text ∈ other, text ≠ [] ∧ '?' ∉ text ∧ ∃ c, text.getLast? = some c ∧ c ≠ 't')
    (hrest : rest = other.getD (encodeModelSegment model ++ sent)) :
    nonEmpty (beforeQuestion ((stripSuffix? streaming rest <|> stripSuffix? unary rest).getD rest)) =
      some (other.getD (encodeModelSegment model)) := by
  subst hrest
  cases other with
  | none =>
    rw [Option.getD_none, Option.getD_none, strip_method hsent hlength hdiffer, Option.getD_some,
      beforeQuestion_clean (segment_question model), nonEmpty_some (encodeModelSegment_ne_nil hmodel)]
  | some text =>
    obtain ⟨hne, hquestion, c, hlast, hc⟩ := hother text rfl
    rw [Option.getD_some, Option.getD_some, stripSuffix?_last hends.1 hlast hc.symm,
      stripSuffix?_last hends.2 hlast hc.symm]
    change nonEmpty (beforeQuestion text) = _
    rw [beforeQuestion_clean hquestion, nonEmpty_some hne]

theorem misread_text {route : ModelRoute} : ∀ text ∈ misread route,
    text ≠ [] ∧ '?' ∉ text ∧ ∃ c, text.getLast? = some c ∧ c ≠ 't' := by
  intro text h
  have hlast : ∀ {publisher : List Char} {d : Char}, publisher.getLast? = some d → d ≠ 't' →
      (text.getLast? = some 's' ∨ text.getLast? = publisher.getLast?) →
      ∃ c, text.getLast? = some c ∧ c ≠ 't' := by
    rintro publisher d hd hne (hs | hp)
    · exact ⟨'s', hs, by decide⟩
    · exact ⟨d, hp.trans hd, hne⟩
  cases route with
  | vertexGemini place =>
    obtain ⟨hne, hquestion, hends⟩ := earlierModels_text (by decide) (by decide) h
    exact ⟨hne, hquestion, hlast rfl (by decide) hends⟩
  | vertexMessages place =>
    obtain ⟨hne, hquestion, hends⟩ := earlierModels_text (by decide) (by decide) h
    exact ⟨hne, hquestion, hlast rfl (by decide) hends⟩
  | gemini => cases h
  | converse => cases h
  | azureChat => cases h

theorem modelFromDestPath_route (route : ModelRoute) (hmodel : model ≠ []) (stream : Bool) :
    modelFromDestPath route.wire (modelPath route model stream) =
      some ((misread route).getD (encodeModelSegment model)) := by
  have hgemini := slash_not_mem_rest model
    (show '/' ∉ ModelRoute.gemini.sentMethod stream by cases stream <;> decide)
  have hmessages := slash_not_mem_rest model (show '/' ∉
    (if stream then ":streamRawPredict".toList else ":rawPredict".toList) by cases stream <;> decide)
  cases route with
  | gemini =>
    have hpart : secondPart "/models/".toList (modelPath .gemini model stream) =
        some (encodeModelSegment model ++ ModelRoute.gemini.sentMethod stream) := by
      have hone : ∀ segment ∈ ["v1beta".toList], '/' ∉ segment ∧ segment ≠ "models".toList := by
        decide
      exact secondPart_last (splitOnce_segments hone _) hgemini
    unfold modelFromDestPath
    dsimp only [ModelRoute.wire]
    rw [hpart, Option.bind_eq_bind, Option.bind_some]
    exact read_behind none (by cases stream <;> decide) (by decide) (by decide) hmodel
      ⟨rfl, rfl⟩ (fun _ h => by cases h) rfl
  | vertexGemini place =>
    have hpart : secondPart "/models/".toList (modelPath (.vertexGemini place) model stream) =
        some ((misread (.vertexGemini place)).getD
          (encodeModelSegment model ++ ModelRoute.gemini.sentMethod stream)) :=
      secondPart_vertex place (by decide) hgemini
    unfold modelFromDestPath
    dsimp only [ModelRoute.wire]
    rw [hpart, Option.bind_eq_bind, Option.bind_some]
    exact read_behind _ (by cases stream <;> decide) (by decide) (by decide) hmodel
      ⟨rfl, rfl⟩ misread_text rfl
  | vertexMessages place =>
    have hpart : secondPart "/models/".toList (modelPath (.vertexMessages place) model stream) =
        some ((misread (.vertexMessages place)).getD (encodeModelSegment model ++
          if stream then ":streamRawPredict".toList else ":rawPredict".toList)) :=
      secondPart_vertex place (by decide) hmessages
    unfold modelFromDestPath
    dsimp only [ModelRoute.wire]
    rw [hpart, Option.bind_eq_bind, Option.bind_some]
    exact read_behind _ (by cases stream <;> decide) (by decide) (by decide) hmodel
      ⟨rfl, rfl⟩ misread_text rfl
  | converse =>
    have hpart : stripPrefix? "/model/".toList (modelPath .converse model stream) =
        some (encodeModelSegment model ++ ModelRoute.converse.sentMethod stream) :=
      stripPrefix?_append _ _
    have hmethod : ModelRoute.converse.sentMethod stream = "/converse-stream".toList ∨
        ModelRoute.converse.sentMethod stream = "/converse".toList := by
      cases stream <;> decide
    have hstrip := @strip_method _ _ _ (encodeModelSegment model) hmethod (by decide) (by decide)
    unfold modelFromDestPath
    dsimp only [ModelRoute.wire]
    rw [hpart, Option.bind_eq_bind, Option.bind_some, hstrip]
    exact nonEmpty_some (encodeModelSegment_ne_nil hmodel)
  | azureChat =>
    have hpart : stripPrefix? "/openai/deployments/".toList (modelPath .azureChat model stream) =
        some (encodeModelSegment model ++ "/chat/completions".toList) := by
      cases stream <;> exact stripPrefix?_append _ _
    have hclean : (encodeModelSegment model).contains '/' = false := by
      rw [List.contains_eq_mem, decide_eq_false_iff_not]
      exact fun h => segment_plain model _ h (by decide)
    unfold modelFromDestPath
    dsimp only [ModelRoute.wire]
    rw [hpart, Option.bind_eq_bind, Option.bind_some, stripSuffix?_append, Option.bind_some]
    rw [beforeQuestion_clean (segment_question model), hclean,
      if_neg Bool.false_ne_true]
    exact nonEmpty_some (encodeModelSegment_ne_nil hmodel)

/-- A request is a streaming one by its path, on the wires whose paths tell. -/
theorem destStreamFromRequest_route (route : ModelRoute) (model : List Char) (stream : Bool) :
    destStreamFromRequest route.wire (modelPath route model stream)
      ((route.sentQuery stream).drop 1) = (stream && route.streams) := by
  have hpath : modelPath route model stream =
      (route.lead ++ encodeModelSegment model) ++ route.sentMethod stream := by
    rw [modelPath, List.append_assoc]
  have hgemini : ∀ front, (":streamGenerateContent".toList.isSuffixOf
      (front ++ ModelRoute.gemini.sentMethod stream) ||
        (ampersandParts ((ModelRoute.gemini.sentQuery stream).drop 1)).any fun part =>
          part == "alt=sse".toList || "alt=sse".toList.isPrefixOf part) = stream := by
    intro front
    cases stream with
    | true =>
      rw [show ModelRoute.gemini.sentMethod true = ":streamGenerateContent".toList from rfl,
        isSuffixOf_append]
      rfl
    | false =>
      rw [show ModelRoute.gemini.sentMethod false = ":generateContent".toList from rfl,
        isSuffixOf_longer (by decide) (by decide)]
      rfl
  rw [hpath]
  cases route with
  | gemini => exact (hgemini _).trans (Bool.and_true stream).symm
  | vertexGemini place => exact (hgemini _).trans (Bool.and_true stream).symm
  | vertexMessages place =>
    cases stream with
    | true => exact isSuffixOf_append _ ":streamRawPredict".toList
    | false =>
      exact @isSuffixOf_longer ":streamRawPredict".toList ":rawPredict".toList (by decide)
        (by decide) _
  | converse =>
    cases stream with
    | true => exact isSuffixOf_append _ "/converse-stream".toList
    | false =>
      exact @isSuffixOf_longer "/converse-stream".toList "/converse".toList (by decide)
        (by decide) _
  | azureChat => exact (Bool.and_false stream).symm

/-- The path of a model is read as that model, also when it is sent on, and tells whether
the request is a streaming one. -/
structure Survives (route : ModelRoute) (base model : List Char) : Prop where
  read : ∀ stream, ∃ target,
    upstreamPath (routeProfile route base) (some model) stream = .ok target ∧
    modelFromDestPath route.wire (splitPathSuffix target).1 = some model
  streaming : ∀ stream, ∃ target,
    upstreamPath (routeProfile route base) (some model) stream = .ok target ∧
    destStreamFromRequest route.wire (splitPathSuffix target).1
      ((splitPathSuffix target).2.drop 1) = (stream && route.streams)
  forwarded : ∀ stream, ∃ target segment,
    upstreamPath (routeProfile route base) (some model) stream = .ok target ∧
    upstreamUrlForModel (routeProfile route base)
      (modelFromDestPath route.wire (splitPathSuffix target).1) stream =
        .ok (rewriteVertexGlobalHost (trimEndSlashes base ++ (route.lead ++ (segment ++
          (route.sentMethod stream ++ route.sentQuery stream))))) ∧
    PercentDecoding.percentDecode (utf8 segment) = utf8 model

/-- Each character of the model is kept by the encoder. Where an earlier segment is
named `models`, only the text behind that segment is read. -/
def ReadsBack (route : ModelRoute) (model : List Char) : Prop :=
  match misread route with
  | none => ∀ c ∈ model, KeptChar segmentByte c
  | some other => model = other

theorem modelPath_split (route : ModelRoute) (model : List Char) (stream : Bool) :
    splitPathSuffix (modelPath route model stream ++ route.sentQuery stream) =
      (modelPath route model stream, route.sentQuery stream) := by
  refine splitPathSuffix_append ?_ (query_plain route stream).1
  intro c hc
  have hclean : c ∉ ['?', '#', '\x7b'] := by
    rcases List.mem_append.mp hc with hc | hc
    · exact lead_plain route c hc
    rcases List.mem_append.mp hc with hc | hc
    · exact fun hbad => segment_plain model c hc (List.mem_cons_of_mem _ hbad)
    · exact method_plain route stream c hc
  unfold endsPath
  rw [List.mem_cons, List.mem_cons, not_or, not_or] at hclean
  rw [beq_eq_false_iff_ne.mpr hclean.1, beq_eq_false_iff_ne.mpr hclean.2.1]
  rfl

theorem read_iff (route : ModelRoute) (model : List Char) :
    (misread route).getD (encodeModelSegment model) = model ↔ ReadsBack route model := by
  unfold ReadsBack
  cases misread route with
  | none => exact percentEncode_eq_self_iff segmentByte_keepsPlain model
  | some other => exact eq_comm

/-- A model survives its path exactly when it is kept as it is by the encoder. -/
theorem model_survives_iff (route : ModelRoute) (base model : List Char) (hmodel : model ≠ [])
    (hdots : model ≠ ['.'] ∧ model ≠ ['.', '.']) :
    Survives route base model ↔ ReadsBack route model := by
  have hread := fun stream => modelFromDestPath_route route hmodel stream
  have hpath := fun stream => upstreamPath_route route base hmodel hdots stream
  have hsplit := fun stream => modelPath_split route model stream
  rw [← read_iff]
  constructor
  · intro h
    obtain ⟨target, htarget, hmodelRead⟩ := h.read false
    rw [hpath] at htarget
    cases htarget
    rw [hsplit, hread] at hmodelRead
    exact Option.some.inj hmodelRead
  · intro h
    rw [h] at hread
    refine ⟨fun stream => ⟨_, hpath stream, ?_⟩, fun stream => ⟨_, hpath stream, ?_⟩,
      fun stream => ⟨_, encodeModelSegment model, hpath stream, ?_, ?_⟩⟩
    · rw [hsplit]
      exact hread stream
    · rw [hsplit]
      exact destStreamFromRequest_route route model stream
    · rw [hsplit, hread, upstreamUrlForModel]
      change (upstreamPath _ _ _).map (joinBase base) = _
      rw [hpath]
      obtain ⟨rest, hrest⟩ := lead_slash route
      change Except.ok (joinBase base (modelPath route model stream ++ route.sentQuery stream)) = _
      rw [modelPath, hrest, List.cons_append, List.cons_append, joinBase_slash, List.append_assoc,
        List.append_assoc]
      rfl
    · exact percentDecode_percentEncode segmentByte_keepsPlain model

/-- The identifier of an inference profile has a slash in it. -/
def profileArn : List Char := "arn:aws:bedrock:us-east-1:1:inference-profile/a".toList

theorem plain_model_survives : Survives .converse "https://h".toList "a:0".toList :=
  (model_survives_iff .converse "https://h".toList "a:0".toList (by decide) (by decide)).mpr
    (show ∀ c ∈ "a:0".toList, KeptChar segmentByte c from List.all_iff_forall_prop.mp (by decide))

theorem arn_lost : ¬ Survives .converse "https://h".toList profileArn := by
  intro h
  obtain ⟨target, htarget, hread⟩ := h.read false
  have hsent : upstreamPath (routeProfile .converse "https://h".toList) (some profileArn) false =
      .ok "/model/arn:aws:bedrock:us-east-1:1:inference-profile%2Fa/converse".toList := by
    decide +kernel
  rw [hsent] at htarget
  cases htarget
  revert hread
  decide +kernel

end Wiremux.ModelPaths
