import Wiremux.RequestCredentials
import Wiremux.SigV4Signing

set_option autoImplicit false

/-!
# The request that is signed and the one that is sent

`apply_aws_sigv4` signs a view of the request made of its URL, its method and its body.
A server derives the canonical request from what it has received.
-/
namespace Wiremux.SentRequests
open SseWriting PercentEncoding PercentDecoding SigV4Signing
open JsonValue (isWhitespace)
open RequestCredentials (Sent Profile AwsSigV4Headers insertHeader insertSigv4 sigv4Headers awsServiceSet
  applyProfileHeaders headerPresent)

/-- What the parser gives of an `https` URL. The port is absent when it is 443. -/
structure Url where
  host : Text
  port : Option ℕ
  path : Text
  query : Option Text
  host_ne : host ≠ []
  host_plain : ∀ c ∈ host, isWhitespace c = false
  path_ne : path ≠ []

structure HttpRequest where
  method : Text
  url : Url
  headers : List Sent
  body : List UInt8

/-- `insert_sigv4` -/
def HttpRequest.signedWith (request : HttpRequest) (headers : AwsSigV4Headers) : HttpRequest :=
  { request with headers := insertSigv4 request.headers headers }

def signature (creds : AwsCredentials) (amzDate authorization : Text) : AwsSigV4Headers :=
  ⟨String.ofList authorization, String.ofList amzDate, String.ofList creds.sessionToken⟩

def awsService (p : Profile) : Option Text :=
  (p.awsService.map String.toList).filter fun service => !service.isEmpty

def usable (creds : AwsCredentials) : Bool :=
  !creds.accessKeyId.isEmpty && !creds.secretAccessKey.isEmpty

def signParams (request : HttpRequest) (service region amzDate : Text) : AwsSignParams where
  method := request.method
  host := request.url.host
  path := if request.url.path.isEmpty then ['/'] else request.url.path
  query := request.url.query.getD []
  region := region
  service := service
  extraHeaders := [("content-type".toList, "application/json".toList)]
  payload := request.body
  amzDate := amzDate

inductive Prepared
  | notSet
  | failed
  | panic
  | ready (canonical : CanonicalRequest) (headers : AwsSigV4Headers)

def validChar (c : Char) : Bool := c == '\t' || (0x20 ≤ c.toNat && c.toNat != 0x7F)

def validValue (value : Text) : Bool := value.all validChar

/-- What the signing comes to, with the canonical request that was hashed. -/
inductive Applied
  | failed
  | panic
  | unsigned (request : HttpRequest)
  | signed (canonical : CanonicalRequest) (request : HttpRequest)

section
variable (crypto : Crypto) (p : Profile) (creds : Option AwsCredentials) (region amzDate : Text)

def prepareAwsSigv4 (request : HttpRequest) : Prepared :=
  match awsService p with
  | none => .notSet
  | some service =>
    match creds.filter usable with
    | none => .failed
    | some creds =>
      match signAwsRequest crypto creds (signParams request service region amzDate) with
      | .panic => .panic
      | .tooShort => .failed
      | .signed canonical authorization => .ready canonical (signature creds amzDate authorization)

/-- The URL, the method and the body are those of the request that was built. -/
def applyAwsSigv4 (bearerApplied : Bool) (request : HttpRequest) : Applied :=
  if bearerApplied then .unsigned request
  else if !awsServiceSet p then .unsigned request
  else
    match prepareAwsSigv4 crypto p creds region amzDate request with
    | .notSet => .unsigned request
    | .failed => .failed
    | .panic => .panic
    | .ready canonical headers =>
      if (sigv4Headers headers).all fun header => validValue header.value.toList then
        .signed canonical (request.signedWith headers)
      else .failed

end

def hostHeader (url : Url) : Text :=
  match url.port with
  | none => url.host
  | some port => url.host ++ ':' :: Nat.toDigits 10 port

def written (headers : List Sent) : List (Text × Text) :=
  headers.map fun header => (header.name.toList, header.value.toList)

def named (name : Text) (headers : List (Text × Text)) : List (Text × Text) :=
  headers.filter fun header => header.1 = name

def sentHeaders (request : HttpRequest) : List (Text × Text) :=
  (if (named "host".toList (written request.headers)).isEmpty then
    [("host".toList, hostHeader request.url)] else []) ++ written request.headers

def canonicalPart (part : Text) : Text := (percentDecode (utf8 part)).flatMap (encodeByte unreserved)

def queryParam (param : Text) : Text × Text :=
  (canonicalPart (param.takeWhile (· != '=')), canonicalPart ((param.dropWhile (· != '=')).drop 1))

def paramLe (a b : Text × Text) : Bool := decide (a.1 < b.1) || (a.1 == b.1 && decide (a.2 ≤ b.2))

def canonicalQuery (query : Text) : Text :=
  let params := ((query.splitOn '&').filter (!·.isEmpty)).map queryParam
  ['&'].intercalate ((params.mergeSort paramLe).map fun param => param.1 ++ '=' :: param.2)

def derivedHeader (request : HttpRequest) (name : Text) : Option (Text × Text) :=
  match named name (sentHeaders request) with
  | [header] => some (name, trimHeaderValue header.2)
  | _ => none

def derivedRequest (crypto : Crypto) (request : HttpRequest) (names : List Text) :
    Option CanonicalRequest :=
  (names.mapM (derivedHeader request)).map fun headers =>
    { method := request.method
      uri := encodedPath request.url.path
      query := canonicalQuery (request.url.query.getD [])
      headers := headers
      payloadHash := hexEncode (crypto.sha256 request.body) }

/-- The canonical request is the one derived from the request, and its names are in lower
case, strictly sorted. -/
structure AsSent (crypto : Crypto) (canonical : CanonicalRequest) (request : HttpRequest) : Prop where
  derived : derivedRequest crypto request (canonical.headers.map Prod.fst) = some canonical
  lowered : ∀ name ∈ canonical.headers.map Prod.fst, lower name = name
  sorted : (canonical.headers.map Prod.fst).Pairwise (· < ·)

def SignsWhatIsSent (crypto : Crypto) : Applied → Prop
  | .failed => True
  | .panic => False
  | .unsigned _ => True
  | .signed canonical request => AsSent crypto canonical request

/-- The values that go into the headers can be sent. -/
structure ValidParts (creds : AwsCredentials) (service region amzDate : Text) : Prop where
  accessKeyId : validValue creds.accessKeyId = true
  sessionToken : validValue creds.sessionToken = true
  service : validValue service = true
  region : validValue region = true
  amzDate : validValue amzDate = true

/-- The one header of this name has this value. -/
def Once (request : HttpRequest) (name value : Text) : Prop :=
  ∃ header, named name (written request.headers) = [header] ∧ trimHeaderValue header.2 = value

structure SignedView (request : HttpRequest) : Prop where
  method : request.method.map asciiUpperChar = request.method
  query : canonicalQuery (request.url.query.getD []) = request.url.query.getD []
  contentType : Once request "content-type".toList "application/json".toList
  /-- The URL has no port of its own, or a host header was written for the plain host. -/
  host : (named "host".toList (written request.headers) = [] ∧ request.url.port = none) ∨
    Once request "host".toList request.url.host

variable {crypto : Crypto} {request : HttpRequest} {creds : AwsCredentials}
variable {headers : List Sent} {name value service region amzDate : Text}

theorem named_written (name : Text) (headers : List Sent) : named name (written headers) =
    written (headers.filter fun header => header.name.toList = name) := by
  rw [named, written, List.filter_map]
  rfl

theorem named_insert (headers : List Sent) (header : Sent) (name : Text) :
    named name (written (insertHeader headers header)) =
      if header.name.toList = name then [(header.name.toList, header.value.toList)]
      else named name (written headers) := by
  rw [named_written, named_written, insertHeader, List.filter_append, List.filter_filter]
  by_cases h : header.name.toList = name
  · have hself : [header].filter (fun other => other.name.toList = name) = [header] :=
      List.filter_eq_self.mpr fun other hother => decide_eq_true (List.mem_singleton.mp hother ▸ h)
    rw [if_pos h, hself, List.filter_eq_nil_iff.mpr]
    · rfl
    · intro other _ hother
      rw [Bool.and_eq_true] at hother
      have hsame : other.name.toList = name := of_decide_eq_true hother.1
      exact of_decide_eq_true hother.2 (String.toList_injective (hsame.trans h.symm))
  · have hnone : [header].filter (fun other => other.name.toList = name) = [] :=
      List.filter_eq_nil_iff.mpr fun other hother heq =>
        h (List.mem_singleton.mp hother ▸ of_decide_eq_true heq)
    rw [if_neg h, hnone, List.append_nil]
    refine congrArg written (List.filter_congr fun other _ => ?_)
    by_cases hother : other.name.toList = name
    · have hne : other.name ≠ header.name := fun heq => h (heq ▸ hother)
      rw [decide_eq_true hne, Bool.and_true]
    · rw [decide_eq_false hother, Bool.false_and]

theorem named_foldl_other (inserted headers : List Sent)
    (h : ∀ header ∈ inserted, header.name.toList ≠ name) :
    named name (written (inserted.foldl insertHeader headers)) = named name (written headers) := by
  induction inserted generalizing headers with
  | nil => rfl
  | cons header rest ih =>
    rw [List.foldl_cons, ih _ fun other hother => h other (List.mem_cons_of_mem _ hother), named_insert,
      if_neg (h header List.mem_cons_self)]

theorem named_foldl_last (front back headers : List Sent) (header : Sent)
    (h : ∀ other ∈ back, other.name ≠ header.name) :
    named header.name.toList (written ((front ++ header :: back).foldl insertHeader headers)) =
      [(header.name.toList, header.value.toList)] := by
  rw [List.foldl_append, List.foldl_cons, named_foldl_other, named_insert, if_pos rfl]
  exact fun other hother heq => h other hother (String.toList_injective heq)

theorem mem_sigv4Names {inserted : AwsSigV4Headers} {header : Sent}
    (h : header ∈ sigv4Headers inserted) : header.name = "authorization" ∨
      header.name = "x-amz-date" ∨ header.name = "x-amz-security-token" := by
  unfold sigv4Headers at h
  rcases List.mem_append.mp h with h | h
  · simp only [List.mem_cons, List.not_mem_nil, or_false] at h
    rcases h with rfl | rfl
    · exact .inl rfl
    · exact .inr (.inl rfl)
  · split at h
    · cases h
    · rw [List.mem_singleton.mp h]
      exact .inr (.inr rfl)

theorem named_signed_other (inserted : AwsSigV4Headers) (headers : List Sent)
    (hauthorization : name ≠ "authorization".toList) (hdate : name ≠ "x-amz-date".toList)
    (htoken : name ≠ "x-amz-security-token".toList) :
    named name (written (insertSigv4 headers inserted)) = named name (written headers) := by
  refine named_foldl_other _ _ fun header hheader heq => ?_
  rcases mem_sigv4Names hheader with h | h | h
  · exact hauthorization (heq ▸ h ▸ rfl)
  · exact hdate (heq ▸ h ▸ rfl)
  · exact htoken (heq ▸ h ▸ rfl)

theorem named_signed_date (inserted : AwsSigV4Headers) (headers : List Sent) :
    named "x-amz-date".toList (written (insertSigv4 headers inserted)) =
      [("x-amz-date".toList, inserted.amzDate.toList)] := by
  refine named_foldl_last [_] _ headers ⟨"x-amz-date", inserted.amzDate, .sigv4⟩ fun other hother => ?_
  split at hother
  · cases hother
  · rw [List.mem_singleton.mp hother]
    show "x-amz-security-token" ≠ "x-amz-date"
    decide

theorem named_signed_token (inserted : AwsSigV4Headers) (headers : List Sent)
    (h : inserted.sessionToken.isEmpty = false) :
    named "x-amz-security-token".toList (written (insertSigv4 headers inserted)) =
      [("x-amz-security-token".toList, inserted.sessionToken.toList)] := by
  unfold insertSigv4 sigv4Headers
  rw [h, if_neg Bool.false_ne_true]
  exact named_foldl_last [_, _] [] headers ⟨"x-amz-security-token", inserted.sessionToken, .sigv4⟩
    fun other hother => absurd hother List.not_mem_nil

theorem named_sent_of_ne (h : name ≠ "host".toList) (request : HttpRequest) :
    named name (sentHeaders request) = named name (written request.headers) := by
  unfold sentHeaders
  split
  · exact List.filter_cons_of_neg (by simpa using fun heq => h heq.symm)
  · rfl

theorem named_sent_host (request : HttpRequest) : named "host".toList (sentHeaders request) =
    if named "host".toList (written request.headers) = [] then
      [("host".toList, hostHeader request.url)]
    else named "host".toList (written request.headers) := by
  unfold sentHeaders
  by_cases h : named "host".toList (written request.headers) = []
  · rw [if_pos h, h, List.isEmpty_nil, if_pos rfl]
    exact (List.filter_cons_of_pos (p := fun header : Text × Text => header.1 = "host".toList)
      (decide_eq_true rfl)).trans (congrArg _ h)
  · rw [if_neg h, if_neg (by simpa using h)]
    rfl

theorem derivedHeader_eq_some (request : HttpRequest) (name value : Text) :
    derivedHeader request name = some (name, value) ↔
      ∃ sent, named name (sentHeaders request) = [sent] ∧ trimHeaderValue sent.2 = value := by
  unfold derivedHeader
  split
  · rename_i sent hsent
    rw [hsent]
    constructor
    · intro h
      exact ⟨sent, rfl, congrArg Prod.snd (Option.some.inj h)⟩
    · rintro ⟨other, hother, hvalue⟩
      rw [List.singleton_inj.mp hother, hvalue]
  · rename_i hnot
    refine iff_of_false (fun h => by cases h) ?_
    rintro ⟨sent, hsent, _⟩
    exact hnot sent hsent

theorem mapM_names (f : Text → Option (Text × Text)) (headers : List (Text × Text)) :
    (headers.map Prod.fst).mapM f = some headers ↔ ∀ header ∈ headers, f header.1 = some header := by
  induction headers with
  | nil => exact iff_of_true rfl fun header h => absurd h List.not_mem_nil
  | cons header rest ih =>
    rw [List.map_cons, List.mapM_cons, List.forall_mem_cons, ← ih]
    constructor
    · intro h
      obtain ⟨first, hfirst, h⟩ := Option.bind_eq_some_iff.mp h
      obtain ⟨more, hmore, h⟩ := Option.bind_eq_some_iff.mp h
      cases h
      exact ⟨hfirst, hmore⟩
    · rintro ⟨hfirst, hrest⟩
      rw [hfirst, hrest]
      rfl

section
variable (request creds service region amzDate)

def givenOf : List (Text × Text) := givenHeaders creds (signParams request service region amzDate)

theorem givenOf_eq : givenOf request creds service region amzDate =
    [("host".toList, request.url.host), ("x-amz-date".toList, amzDate)] ++
      ((if creds.sessionToken.isEmpty then []
        else [("x-amz-security-token".toList, creds.sessionToken)]) ++
      [("content-type".toList, "application/json".toList)]) := by
  have hname : (lower "content-type".toList == "x-amz-security-token".toList) = false := by decide
  have hlower : lower "content-type".toList = "content-type".toList := by decide
  have hany : ((signParams request service region amzDate).extraHeaders.any fun header =>
      lower header.1 == "x-amz-security-token".toList) = false := by
    change (_ || false) = false
    rw [Bool.or_false]
    exact hname
  rw [givenOf, givenHeaders, hany, Bool.or_false]
  change _ ++ (_ ++ [(lower "content-type".toList, "application/json".toList)]) = _
  rw [hlower]
  rfl

theorem given_names : (givenOf request creds service region amzDate).Pairwise
    fun a b => a.1 ≠ b.1 := by
  rw [← List.pairwise_map, givenOf_eq]
  split
  · show ["host".toList, "x-amz-date".toList, "content-type".toList].Pairwise (· ≠ ·)
    decide
  · show ["host".toList, "x-amz-date".toList, "x-amz-security-token".toList,
      "content-type".toList].Pairwise (· ≠ ·)
    decide

end

theorem forall_canonical_headers (crypto : Crypto) (creds : AwsCredentials) (request : HttpRequest)
    (service region amzDate : Text) (property : Text × Text → Prop) :
    (∀ header ∈ (canonicalRequest crypto creds (signParams request service region amzDate)).headers,
      property header) ↔
    ∀ given ∈ givenOf request creds service region amzDate,
      property (given.1, trimHeaderValue given.2) := by
  constructor
  · intro h given hgiven
    exact h _ (List.mem_map.mpr ⟨given, mem_sortedHeaders_of_nodup (given_names _ _ _ _ _) hgiven, rfl⟩)
  · intro h header hheader
    obtain ⟨given, hgiven, rfl⟩ := List.mem_map.mp hheader
    exact h given (mem_sortedHeaders hgiven)

theorem digit_plain {c : Char} (h : c.isDigit = true) : isWhitespace c = false := by
  have hbounds : 0x30 ≤ c.toNat ∧ c.toNat ≤ 0x39 := by
    rw [Char.isDigit, Bool.and_eq_true] at h
    exact ⟨of_decide_eq_true h.1, of_decide_eq_true h.2⟩
  unfold isWhitespace
  simp only [Bool.or_eq_false_iff, Bool.and_eq_false_iff, decide_eq_false_iff_not, beq_eq_false_iff_ne]
  omega

/-- The host header is the plain host exactly when there is no port to show. -/
theorem hostHeader_trimmed (url : Url) : trimHeaderValue (hostHeader url) = url.host ↔ url.port = none := by
  unfold hostHeader
  split
  · rename_i hport
    exact iff_of_true (trimHeaderValue_plain url.host_plain) hport
  · rename_i port hport
    refine iff_of_false ?_ (by rw [hport]; exact Option.some_ne_none port)
    rw [trimHeaderValue_plain]
    · intro heq
      exact absurd (List.append_right_eq_self.mp heq) (List.cons_ne_nil _ _)
    · intro c hc
      rcases List.mem_append.mp hc with hc | hc
      · exact url.host_plain c hc
      rcases List.mem_cons.mp hc with rfl | hc
      · decide
      · exact digit_plain (Nat.isDigit_of_mem_toDigits (by decide) (by decide) hc)

/-- The signed headers of a name that no signature writes are those of the request. -/
theorem once_signed (headers : AwsSigV4Headers) (request : HttpRequest)
    (hauthorization : name ≠ "authorization".toList) (hdate : name ≠ "x-amz-date".toList)
    (htoken : name ≠ "x-amz-security-token".toList) (value : Text) :
    Once (request.signedWith headers) name value ↔ Once request name value := by
  unfold Once HttpRequest.signedWith
  rw [named_signed_other headers request.headers hauthorization hdate htoken]

theorem once_host : (∃ sent, named "host".toList (sentHeaders request) = [sent] ∧
      trimHeaderValue sent.2 = request.url.host) ↔
    (named "host".toList (written request.headers) = [] ∧ request.url.port = none) ∨
      Once request "host".toList request.url.host := by
  rw [named_sent_host]
  by_cases h : named "host".toList (written request.headers) = []
  · rw [if_pos h, ← hostHeader_trimmed]
    constructor
    · rintro ⟨sent, hsent, hvalue⟩
      cases hsent
      exact .inl ⟨h, hvalue⟩
    · rintro (⟨_, hvalue⟩ | ⟨sent, hsent, _⟩)
      · exact ⟨_, rfl, hvalue⟩
      · rw [h] at hsent
        cases hsent
  · rw [if_neg h]
    constructor
    · exact fun honce => .inr honce
    · rintro (⟨hnone, _⟩ | honce)
      · exact absurd hnone h
      · exact honce

section
variable (request : HttpRequest) (creds : AwsCredentials) (amzDate authorization : Text)

theorem contentType_derived : derivedHeader request "content-type".toList =
      some ("content-type".toList, trimHeaderValue "application/json".toList) ↔
    Once request "content-type".toList "application/json".toList := by
  have hplain : trimHeaderValue "application/json".toList = "application/json".toList := by decide
  rw [hplain]
  exact (derivedHeader_eq_some _ _ _).trans (by
    rw [named_sent_of_ne (by decide)]
    rfl)

theorem host_derived : derivedHeader request "host".toList =
      some ("host".toList, trimHeaderValue request.url.host) ↔
    (named "host".toList (written request.headers) = [] ∧ request.url.port = none) ∨
      Once request "host".toList request.url.host := by
  rw [trimHeaderValue_plain request.url.host_plain]
  exact (derivedHeader_eq_some _ _ _).trans once_host

theorem date_derived : derivedHeader (request.signedWith (signature creds amzDate authorization))
    "x-amz-date".toList = some ("x-amz-date".toList, trimHeaderValue amzDate) := by
  refine (derivedHeader_eq_some _ _ _).mpr ⟨("x-amz-date".toList, amzDate), ?_, rfl⟩
  have hsent := named_sent_of_ne (show "x-amz-date".toList ≠ "host".toList by decide)
    (request.signedWith (signature creds amzDate authorization))
  refine hsent.trans ((named_signed_date _ _).trans ?_)
  exact congrArg (fun value => [("x-amz-date".toList, value)]) String.toList_ofList

theorem token_derived (h : creds.sessionToken.isEmpty = false) :
    derivedHeader (request.signedWith (signature creds amzDate authorization))
      "x-amz-security-token".toList =
    some ("x-amz-security-token".toList, trimHeaderValue creds.sessionToken) := by
  refine (derivedHeader_eq_some _ _ _).mpr
    ⟨("x-amz-security-token".toList, creds.sessionToken), ?_, rfl⟩
  have hempty : (String.ofList creds.sessionToken).isEmpty = false := by
    rw [← h, Bool.eq_iff_iff, String.isEmpty_iff, List.isEmpty_iff, ← String.toList_inj,
      String.toList_ofList]
    rfl
  have hsent := named_sent_of_ne (show "x-amz-security-token".toList ≠ "host".toList by decide)
    (request.signedWith (signature creds amzDate authorization))
  refine hsent.trans ((named_signed_token _ _ hempty).trans ?_)
  exact congrArg (fun value => [("x-amz-security-token".toList, value)]) String.toList_ofList

theorem given_derived_iff (service region : Text) :
    (∀ given ∈ givenOf request creds service region amzDate,
      derivedHeader (request.signedWith (signature creds amzDate authorization)) given.1 =
        some (given.1, trimHeaderValue given.2)) ↔
    Once request "content-type".toList "application/json".toList ∧
      ((named "host".toList (written request.headers) = [] ∧ request.url.port = none) ∨
        Once request "host".toList request.url.host) := by
  have hcontent := contentType_derived (request.signedWith (signature creds amzDate authorization))
  have hhost := host_derived (request.signedWith (signature creds amzDate authorization))
  rw [once_signed _ _ (by decide) (by decide) (by decide)] at hcontent hhost
  rw [HttpRequest.signedWith, named_signed_other _ _ (by decide) (by decide) (by decide)] at hhost
  rw [givenOf_eq]
  constructor
  · intro h
    exact ⟨hcontent.mp (h _ (List.mem_append_right _ (List.mem_append_right _ List.mem_cons_self))),
      hhost.mp (h _ List.mem_cons_self)⟩
  · rintro ⟨hc, hh⟩ given hgiven
    rcases List.mem_append.mp hgiven with hgiven | hgiven
    · simp only [List.mem_cons, List.not_mem_nil, or_false] at hgiven
      rcases hgiven with rfl | rfl
      · exact hhost.mpr hh
      · exact date_derived request creds amzDate authorization
    rcases List.mem_append.mp hgiven with hgiven | hgiven
    · split at hgiven
      · cases hgiven
      · rename_i hempty
        rw [List.mem_singleton.mp hgiven]
        exact token_derived request creds amzDate authorization (Bool.eq_false_iff.mpr hempty)
    · rw [List.mem_singleton.mp hgiven]
      exact hcontent.mpr hc

theorem canonical_names (crypto : Crypto) (service region name : Text)
    (h : name ∈ (canonicalRequest crypto creds
      (signParams request service region amzDate)).headers.map Prod.fst) :
    name ∈ ["host".toList, "x-amz-date".toList, "x-amz-security-token".toList,
      "content-type".toList] := by
  obtain ⟨header, hheader, rfl⟩ := List.mem_map.mp h
  revert header
  rw [forall_canonical_headers]
  intro given hgiven _
  have hname := List.mem_map_of_mem (f := Prod.fst) hgiven
  rw [givenOf_eq] at hname
  split at hname
  · have hsubset : ["host".toList, "x-amz-date".toList, "content-type".toList] ⊆
        ["host".toList, "x-amz-date".toList, "x-amz-security-token".toList, "content-type".toList] := by
      decide
    exact hsubset hname
  · exact hname

/-- The canonical request is as sent exactly when the view of the request is right. -/
theorem as_sent_iff (crypto : Crypto) (service region : Text) :
    AsSent crypto (canonicalRequest crypto creds (signParams request service region amzDate))
      (request.signedWith (signature creds amzDate authorization)) ↔ SignedView request := by
  have hpath : (signParams request service region amzDate).path = request.url.path :=
    if_neg (by rw [List.isEmpty_iff]; exact request.url.path_ne)
  have huri : canonicalUri (signParams request service region amzDate).path =
      encodedPath request.url.path := by
    rw [hpath, canonicalUri_eq request.url.path_ne]
  have hheaders := (mapM_names
    (derivedHeader (request.signedWith (signature creds amzDate authorization)))
    (canonicalRequest crypto creds (signParams request service region amzDate)).headers).trans
    ((forall_canonical_headers crypto creds request service region amzDate _).trans
      (given_derived_iff request creds amzDate authorization service region))
  constructor
  · intro h
    obtain ⟨derived, hderived, heq⟩ := Option.map_eq_some_iff.mp h.derived
    have hsame : derived =
        (canonicalRequest crypto creds (signParams request service region amzDate)).headers :=
      congrArg CanonicalRequest.headers heq
    rw [hsame] at hderived
    obtain ⟨hcontent, hhost⟩ := hheaders.mp hderived
    exact ⟨(congrArg CanonicalRequest.method heq).symm, congrArg CanonicalRequest.query heq, hcontent,
      hhost⟩
  · intro h
    refine ⟨?_, ?_, ?_⟩
    · refine Option.map_eq_some_iff.mpr ⟨_, hheaders.mpr ⟨h.contentType, h.host⟩, ?_⟩
      rw [canonicalRequest, huri]
      change CanonicalRequest.mk request.method _ (canonicalQuery (request.url.query.getD [])) _ _ =
        CanonicalRequest.mk (request.method.map asciiUpperChar) _ (request.url.query.getD []) _ _
      rw [h.method, h.query]
      rfl
    · intro name hname
      have hconstant := canonical_names request creds amzDate crypto service region name hname
      simp only [List.mem_cons, List.not_mem_nil, or_false] at hconstant
      rcases hconstant with rfl | rfl | rfl | rfl <;> decide
    · rw [List.pairwise_map, canonicalRequest, List.pairwise_map]
      exact sortedHeaders_lt _

end

theorem validValue_append (front back : Text) :
    validValue (front ++ back) = (validValue front && validValue back) := List.all_append

theorem validValue_cons (c : Char) (rest : Text) :
    validValue (c :: rest) = (validChar c && validValue rest) := rfl

theorem validValue_hexEncode (bytes : List UInt8) : validValue (hexEncode bytes) = true := by
  have hdigit : ∀ n : ℕ, validChar (SigV4Signing.hexDigits.getD n '0') = true := by
    intro n
    have hall : ∀ c ∈ '0' :: SigV4Signing.hexDigits, validChar c = true :=
      List.all_iff_forall_prop.mp (by decide)
    apply hall
    rw [List.getD_eq_getElem?_getD]
    cases hget : SigV4Signing.hexDigits[n]? with
    | none => exact List.mem_cons_self
    | some c => exact List.mem_cons_of_mem _ (List.mem_of_getElem? hget)
  induction bytes with
  | nil => rfl
  | cons byte rest ih =>
    change validValue ([_, _] ++ hexEncode rest) = true
    rw [validValue_append, ih, Bool.and_true, validValue_cons, validValue_cons, hdigit, hdigit]
    rfl

theorem validValue_intercalate {names : List Text} (h : ∀ name ∈ names, validValue name = true) :
    validValue ([';'].intercalate names) = true := by
  induction names with
  | nil => rfl
  | cons first rest ih =>
    have hrest := ih fun name hname => h name (List.mem_cons_of_mem _ hname)
    cases rest with
    | nil =>
      rw [List.intercalate_singleton]
      exact h first List.mem_cons_self
    | cons second more =>
      rw [List.intercalate_cons_cons, validValue_append, validValue_append, hrest,
        h first List.mem_cons_self]
      rfl

theorem validValue_signedHeaders (crypto : Crypto) (creds : AwsCredentials) (request : HttpRequest)
    (service region amzDate : Text) : validValue (canonicalRequest crypto creds
      (signParams request service region amzDate)).signedHeaders = true := by
  refine validValue_intercalate fun name hname => ?_
  have hconstant := canonical_names request creds amzDate crypto service region name hname
  simp only [List.mem_cons, List.not_mem_nil, or_false] at hconstant
  rcases hconstant with rfl | rfl | rfl | rfl <;> decide

theorem validValue_authorization (crypto : Crypto) (creds : AwsCredentials) (request : HttpRequest)
    (service region amzDate dateStamp : Text) :
    validValue (authorizationOf crypto creds (signParams request service region amzDate) dateStamp) =
      (validValue creds.accessKeyId && (validValue dateStamp && (validValue region &&
        validValue service))) := by
  have halgo : validValue sigV4Algo = true := by decide
  have hcredential : validValue " Credential=".toList = true := by decide
  have hsigned : validValue ", SignedHeaders=".toList = true := by decide
  have hsignature : validValue ", Signature=".toList = true := by decide
  have hend : validValue "/aws4_request".toList = true := by decide
  have hslash : validChar '/' = true := by decide
  rw [authorizationOf]
  simp only [credentialScope, validValue_append, validValue_cons, halgo, hcredential, hsigned, hsignature,
    hend, hslash, validValue_hexEncode, validValue_signedHeaders, Bool.true_and, Bool.and_true]
  rfl

/-- The headers of the signature are sent when the values they are made of can be. -/
theorem signature_valid (crypto : Crypto) (creds : AwsCredentials) (request : HttpRequest)
    (service region : Text) {amzDate dateStamp : Text} (h : dateStamp <+: amzDate) :
    ((sigv4Headers (signature creds amzDate (authorizationOf crypto creds
        (signParams request service region amzDate) dateStamp))).all fun header =>
      validValue header.value.toList) = true ↔ ValidParts creds service region amzDate := by
  have hdate : validValue amzDate = true → validValue dateStamp = true := by
    obtain ⟨rest, rfl⟩ := h
    rw [validValue_append, Bool.and_eq_true]
    exact And.left
  have htoken : ((if (String.ofList creds.sessionToken).isEmpty then []
      else [(⟨"x-amz-security-token", String.ofList creds.sessionToken, .sigv4⟩ : Sent)]).all fun header =>
        validValue header.value.toList) = validValue creds.sessionToken := by
    split
    · rename_i hempty
      rw [String.isEmpty_iff, ← String.toList_inj, String.toList_ofList] at hempty
      rw [hempty]
      rfl
    · change (validValue (String.ofList creds.sessionToken).toList && true) = _
      rw [String.toList_ofList, Bool.and_true]
  rw [sigv4Headers, List.all_append]
  change ((validValue (String.ofList _).toList && (validValue (String.ofList _).toList && true)) &&
    List.all (if (String.ofList creds.sessionToken).isEmpty then [] else
      [(⟨"x-amz-security-token", String.ofList creds.sessionToken, .sigv4⟩ : Sent)]) _) = true ↔ _
  rw [htoken, String.toList_ofList, String.toList_ofList, validValue_authorization]
  simp only [Bool.and_true, Bool.and_eq_true]
  constructor
  · rintro ⟨⟨⟨hkey, _, hregion, hservice⟩, hamz⟩, hsession⟩
    exact ⟨hkey, hsession, hservice, hregion, hamz⟩
  · intro hvalid
    exact ⟨⟨⟨hvalid.accessKeyId, hdate hvalid.amzDate, hvalid.region, hvalid.service⟩, hvalid.amzDate⟩,
      hvalid.sessionToken⟩

theorem awsServiceSet_eq (p : Profile) : awsServiceSet p = (awsService p).isSome := by
  unfold awsServiceSet awsService
  cases p.awsService with
  | none => rfl
  | some service =>
    rw [Option.map_some, Option.filter_some]
    have hempty : service.isEmpty = service.toList.isEmpty := by
      rw [Bool.eq_iff_iff, String.isEmpty_iff, List.isEmpty_iff, ← String.toList_inj]
      rfl
    simp only [hempty]
    cases service.toList with
    | nil => rfl
    | cons c rest => rfl

theorem prepareAwsSigv4_eq {p : Profile} {creds : Option AwsCredentials} {found : AwsCredentials}
    (hservice : awsService p = some service) (hfound : creds.filter usable = some found)
    (crypto : Crypto) (region amzDate : Text) (request : HttpRequest) :
    prepareAwsSigv4 crypto p creds region amzDate request =
      if (utf8 amzDate).length < 8 then .failed
      else
        match bytePrefix 8 amzDate with
        | none => .panic
        | some dateStamp =>
          .ready (canonicalRequest crypto found (signParams request service region amzDate))
            (signature found amzDate
              (authorizationOf crypto found (signParams request service region amzDate) dateStamp)) := by
  have hdate : (signParams request service region amzDate).amzDate = amzDate := rfl
  unfold prepareAwsSigv4
  simp only [hservice, hfound]
  rw [signAwsRequest, hdate]
  by_cases hshort : (utf8 amzDate).length < 8
  · rw [if_pos hshort, if_pos hshort]
  · rw [if_neg hshort, if_neg hshort]
    cases bytePrefix 8 amzDate with
    | none => rfl
    | some dateStamp => rfl

theorem prepared_ready {p : Profile} {creds : Option AwsCredentials} {found : AwsCredentials}
    {dateStamp : Text} (hservice : awsService p = some service) (hfound : creds.filter usable = some found)
    (hlong : 8 ≤ (utf8 amzDate).length) (hstamp : bytePrefix 8 amzDate = some dateStamp)
    (crypto : Crypto) (region : Text) (request : HttpRequest) :
    prepareAwsSigv4 crypto p creds region amzDate request =
      .ready (canonicalRequest crypto found (signParams request service region amzDate))
        (signature found amzDate
          (authorizationOf crypto found (signParams request service region amzDate) dateStamp)) := by
  rw [prepareAwsSigv4_eq hservice hfound, if_neg (Nat.not_lt.mpr hlong), hstamp]

/-- What is signed is what is sent exactly when the date can be cut and the view that is
signed is right. -/
theorem signs_what_is_sent_iff (crypto : Crypto) (p : Profile) (creds : Option AwsCredentials)
    (region amzDate : Text) (bearerApplied : Bool) (request : HttpRequest) :
    SignsWhatIsSent crypto (applyAwsSigv4 crypto p creds region amzDate bearerApplied request) ↔
    ∀ service found, bearerApplied = false → awsService p = some service →
      creds.filter usable = some found → 8 ≤ (utf8 amzDate).length →
      (bytePrefix 8 amzDate).isSome = true ∧
        (ValidParts found service region amzDate → SignedView request) := by
  unfold applyAwsSigv4
  cases bearerApplied with
  | true => exact iff_of_true trivial fun _ _ h => absurd h Bool.noConfusion
  | false =>
    rw [if_neg Bool.false_ne_true, awsServiceSet_eq]
    cases hservice : awsService p with
    | none => exact iff_of_true trivial fun _ _ _ h => by cases h
    | some service =>
      rw [Option.isSome_some, Bool.not_true, if_neg Bool.false_ne_true]
      cases hfound : creds.filter usable with
      | none =>
        simp only [prepareAwsSigv4, hservice, hfound]
        exact iff_of_true trivial fun _ _ _ _ h => by cases h
      | some found =>
        rw [prepareAwsSigv4_eq hservice hfound]
        by_cases hshort : (utf8 amzDate).length < 8
        · rw [if_pos hshort]
          exact iff_of_true trivial fun _ _ _ _ _ h => absurd hshort (Nat.not_lt.mpr h)
        · rw [if_neg hshort]
          cases hstamp : bytePrefix 8 amzDate with
          | none =>
            refine iff_of_false (fun h => h) fun h => ?_
            cases (h service found rfl rfl rfl (Nat.not_lt.mp hshort)).1
          | some dateStamp =>
            have hvalid := signature_valid crypto found request service region (prefix_of_bytePrefix hstamp)
            have hsent := as_sent_iff request found amzDate
              (authorizationOf crypto found (signParams request service region amzDate) dateStamp)
              crypto service region
            dsimp only
            split
            · rename_i hall
              constructor
              · intro h service' found' _ hs hf _
                cases hs
                cases hf
                exact ⟨rfl, fun _ => hsent.mp h⟩
              · intro h
                exact hsent.mpr ((h service found rfl rfl rfl (Nat.not_lt.mp hshort)).2 (hvalid.mp hall))
            · rename_i hnot
              refine iff_of_true trivial fun service' found' _ hs hf _ => ?_
              cases hs
              cases hf
              exact ⟨rfl, fun hparts => absurd (hvalid.mpr hparts) hnot⟩

def endpointUrl : Url where
  host := "bedrock.test".toList
  port := some 8443
  path := "/model".toList
  query := none
  host_ne := by decide
  host_plain := List.all_iff_forall_prop.mp (by decide)
  path_ne := by decide

def endpointRequest : HttpRequest where
  method := "POST".toList
  url := endpointUrl
  headers := [⟨"content-type", "application/json", .request⟩]
  body := []

/-- Bedrock as a service, without a token. -/
def bedrockProfile : Profile where
  headers := []
  authScheme := some .bearer
  awsService := some "bedrock"
  fingerprint := none
  betas := ⟨"anthropic-beta", []⟩
  baseUrl := none

def endpointCreds : AwsCredentials := ⟨"key".toList, "secret".toList, []⟩

theorem port_not_signed : ¬ ∃ crypto : Crypto, SignsWhatIsSent crypto (applyAwsSigv4 crypto bedrockProfile
    (some endpointCreds) "us-east-1".toList "20260101T000000Z".toList false endpointRequest) := by
  rintro ⟨crypto, hone⟩
  have hservice : awsService bedrockProfile = some "bedrock".toList := by decide
  have hfound : (some endpointCreds).filter usable = some endpointCreds := by rfl
  have hstamp : bytePrefix 8 "20260101T000000Z".toList = some "20260101".toList := by decide
  have hready := prepared_ready hservice hfound (by decide) hstamp crypto "us-east-1".toList
    endpointRequest
  have hvalid := (signature_valid crypto endpointCreds endpointRequest "bedrock".toList
    "us-east-1".toList (prefix_of_bytePrefix hstamp)).mpr
    ⟨by decide, by decide, by decide, by decide, by decide⟩
  rw [applyAwsSigv4, if_neg Bool.false_ne_true, awsServiceSet_eq, hservice, Option.isSome_some,
    Bool.not_true, if_neg Bool.false_ne_true, hready] at hone
  dsimp only at hone
  rw [if_pos hvalid] at hone
  rcases ((as_sent_iff _ _ _ _ _ _ _).mp hone).host with ⟨_, hport⟩ | ⟨header, hheader, _⟩
  · cases hport
  · have hnone : named "host".toList (written endpointRequest.headers) = [] := by decide
    rw [hnone] at hheader
    cases hheader

end Wiremux.SentRequests
