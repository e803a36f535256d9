import Mathlib.Data.List.Induction
import Wiremux.JsonValue

set_option autoImplicit false

/-!
# The credential of a request

Which header holds the credential of an upstream request is decided three times: by
`apply_profile_headers`, by `bearer_token_applied` and by `apply_aws_sigv4`.
-/
namespace Wiremux.RequestCredentials
open JsonValue (asciiLower isBlank)

inductive AuthScheme
  | none
  | bearer
  | xApiKey
  | header (name : String)

structure Fingerprint where
  userAgent : Option String
  xApp : Option String

structure Betas where
  header : String
  values : List String

/-- What the functions here read of a resolved profile. The headers are in the order of
their names. -/
structure Profile where
  headers : List (String × String)
  authScheme : Option AuthScheme
  awsService : Option String
  fingerprint : Option Fingerprint
  betas : Betas
  baseUrl : Option String

inductive Origin
  | request
  | provider
  | credential
  | profile
  | grok
  | fingerprint
  | betas
  | token
  | sigv4
deriving DecidableEq

/-- A header of the request, its name in lower case. -/
structure Sent where
  name : String
  value : String
  origin : Origin
deriving DecidableEq

def sent (origin : Origin) (name value : String) : Sent := ⟨asciiLower name, value, origin⟩

def eqIgnoreCase (a b : String) : Bool := asciiLower a == asciiLower b

def isProfileAuthHeader (p : Profile) (name : String) : Bool :=
  eqIgnoreCase name "authorization" || eqIgnoreCase name "x-api-key" ||
    match p.authScheme with
    | some (.header header) => eqIgnoreCase name header
    | _ => false

def userAgent (p : Profile) : Option String := p.fingerprint.bind Fingerprint.userAgent

/-- The fingerprint and the betas replace headers of these names. -/
def overridden (p : Profile) (name : String) : Bool :=
  ((userAgent p).isSome && eqIgnoreCase name "user-agent") ||
    (!p.betas.values.isEmpty && eqIgnoreCase name p.betas.header)

def profileHeader (p : Profile) (header : String × String) : Option Sent :=
  if overridden p header.1 then none
  else if isProfileAuthHeader p header.1 then
    if isBlank header.2 then none else some (sent .credential header.1 header.2)
  else some (sent .profile header.1 header.2)

def profileHeaders (p : Profile) : List Sent := p.headers.filterMap (profileHeader p)

def headerPresent (p : Profile) (name : String) : Bool :=
  p.headers.any fun header => eqIgnoreCase header.1 name

section
variable (grokHost : String → Bool)

def grokHeaders (p : Profile) : List Sent :=
  match p.baseUrl with
  | none => []
  | some base =>
    if grokHost base then
      (if headerPresent p "x-grok-client-version" then []
        else [sent .grok "x-grok-client-version" "1.0.46"]) ++
      (if headerPresent p "x-grok-client-identifier" then []
        else [sent .grok "x-grok-client-identifier" "wiremux"])
    else []

def fingerprintHeaders (p : Profile) : List Sent :=
  ((userAgent p).map (sent .fingerprint "user-agent")).toList ++
    ((p.fingerprint.bind Fingerprint.xApp).map (sent .fingerprint "x-app")).toList

def betasHeaders (p : Profile) : List Sent :=
  if p.betas.values.isEmpty then []
  else [sent .betas p.betas.header (String.intercalate "," p.betas.values)]

def scheme (p : Profile) : AuthScheme := p.authScheme.getD .bearer

def startsWithOat (token : String) : Bool := "sk-ant-oat".toList.isPrefixOf token.toList

def tokenHeader (p : Profile) (token : String) : List Sent :=
  match scheme p with
  | .none => []
  | .bearer => [sent .token "authorization" ("Bearer " ++ token)]
  | .xApiKey =>
    if startsWithOat token then [sent .token "authorization" ("Bearer " ++ token)]
    else [sent .token "x-api-key" token]
  | .header name => [sent .token name token]

def tokenHeaders (p : Profile) (token : Option String) : List Sent :=
  if (profileHeaders p).any fun header => header.origin = .credential then []
  else
    match token with
    | none => []
    | some token => tokenHeader p token

def applyProfileHeaders (p : Profile) (token : Option String) : List Sent :=
  profileHeaders p ++ (grokHeaders grokHost p ++ (fingerprintHeaders p ++ (betasHeaders p ++
    tokenHeaders p token)))

def bearerTokenApplied (p : Profile) (token : Option String) : Bool :=
  match token.filter fun token => !isBlank token with
  | none => false
  | some token =>
    match scheme p with
    | .none => false
    | .bearer => true
    | .xApiKey => startsWithOat token
    | .header name => eqIgnoreCase name "authorization"

/-- `AwsSigV4Headers`, made of credentials that were found. -/
structure AwsSigV4Headers where
  authorization : String
  amzDate : String
  sessionToken : String

def insertHeader (request : List Sent) (header : Sent) : List Sent :=
  request.filter (fun other => other.name ≠ header.name) ++ [header]

def sigv4Headers (headers : AwsSigV4Headers) : List Sent :=
  [⟨"authorization", headers.authorization, .sigv4⟩, ⟨"x-amz-date", headers.amzDate, .sigv4⟩] ++
    if headers.sessionToken.isEmpty then []
    else [⟨"x-amz-security-token", headers.sessionToken, .sigv4⟩]

def insertSigv4 (request : List Sent) (headers : AwsSigV4Headers) : List Sent :=
  (sigv4Headers headers).foldl insertHeader request

def awsServiceSet (p : Profile) : Bool :=
  match p.awsService with
  | some service => !service.isEmpty
  | none => false

def applyAwsSigv4 (p : Profile) (headers : AwsSigV4Headers) (bearerApplied : Bool)
    (request : List Sent) : List Sent :=
  if bearerApplied then request
  else if awsServiceSet p then insertSigv4 request headers
  else request

/-- The request with its headers. A header that is not `valid` fails the build. -/
def builtRequest (valid : Sent → Bool) (p : Profile) (token : Option String)
    (headers : AwsSigV4Headers) : Option (List Sent) :=
  if (applyProfileHeaders grokHost p token).all valid then
    some (applyAwsSigv4 p headers (bearerTokenApplied p token) (applyProfileHeaders grokHost p token))
  else none

def credentialNames (p : Profile) : List String :=
  ["authorization", "x-api-key"] ++
    match p.authScheme with
    | some (.header name) => [asciiLower name]
    | _ => []

/-- The profile sets this credential. -/
def SetsCredential (p : Profile) (header : String × String) : Prop :=
  header ∈ p.headers ∧ isProfileAuthHeader p header.1 = true ∧ isBlank header.2 = false

def Signs (p : Profile) (token : Option String) : Prop :=
  awsServiceSet p = true ∧ bearerTokenApplied p token = false

def TokenGiven (p : Profile) (token : Option String) : Prop :=
  token.isSome = true ∧ scheme p ≠ .none

/-- A profile header that is not blank, under this name in any letter case. -/
def setsName (name : String) (header : String × String) : Bool :=
  asciiLower header.1 == name && !isBlank header.2

def grokNames (p : Profile) : List String :=
  if (p.baseUrl.map grokHost).getD false then
    ["x-grok-client-version", "x-grok-client-identifier"].filter fun name => !headerPresent p name
  else []

/-- The names that the Grok defaults, the fingerprint and the betas write. -/
def extraNames (p : Profile) : List String :=
  grokNames grokHost p ++
    ((if (userAgent p).isSome then ["user-agent"] else []) ++
      ((if (p.fingerprint.bind Fingerprint.xApp).isSome then ["x-app"] else []) ++
        if p.betas.values.isEmpty then [] else [asciiLower p.betas.header]))

/-- What holds of the credentials of a request that is built: one header a name, the profile
before the token, and a signature exactly where no bearer token was applied. -/
structure OneCredential (p : Profile) (token : Option String) (request : List Sent) : Prop where
  once : ∀ name ∈ credentialNames p, p.headers.countP (setsName name) ≤ 1 →
    name ∉ extraNames grokHost p → request.countP (fun header => header.name = name) ≤ 1
  /-- Only the signature takes the place of a credential of the profile, the token never. -/
  unchanged : ∀ header, SetsCredential p header → overridden p header.1 = false →
    (∀ other ∈ request, other.origin ≠ .token) ∧
      (sent .credential header.1 header.2 ∈ request ∨
        ∃ other ∈ request, other.origin = .sigv4 ∧ other.name = asciiLower header.1)
  signed : (∃ header ∈ request, header.origin = .sigv4) ↔ Signs p token
  /-- A request that is to be signed and is not has another credential. -/
  covered : awsServiceSet p = true → (∀ header ∈ request, header.origin ≠ .sigv4) →
    ∃ header ∈ request, header.origin = .credential ∨ header.origin = .token
  /-- Without a credential of the profile, `bearer_token_applied` agrees with the request. -/
  predicted : (∀ header, SetsCredential p header → overridden p header.1 = true) →
    (bearerTokenApplied p token = true ↔
      (∃ value, token = some value ∧ isBlank value = false) ∧
      ∃ header ∈ applyProfileHeaders grokHost p token,
        header.origin = .token ∧ header.name = "authorization")

end

variable {grokHost : String → Bool} {p : Profile} {token : Option String}
variable {headers : AwsSigV4Headers} {request : List Sent} {header other : Sent}

theorem countP_insertHeader (request : List Sent) (header : Sent) (name : String) :
    (insertHeader request header).countP (fun other => other.name = name) =
      if header.name = name then 1 else request.countP fun other => other.name = name := by
  rw [insertHeader, List.countP_append, List.countP_filter, List.countP_singleton]
  by_cases h : header.name = name
  · subst h
    rw [if_pos rfl, if_pos (decide_eq_true rfl), List.countP_eq_zero.mpr]
    intro other _
    simp
  · rw [if_neg h, if_neg (by simpa using h), Nat.add_zero]
    refine List.countP_congr fun other _ => ?_
    simp only [Bool.and_eq_true, decide_eq_true_eq, and_iff_left_iff_imp]
    rintro rfl
    exact fun heq => h heq.symm

theorem countP_foldl_insert (inserted request : List Sent) (name : String) :
    (inserted.foldl insertHeader request).countP (fun other => other.name = name) =
      if name ∈ inserted.map Sent.name then 1
      else request.countP fun other => other.name = name := by
  induction inserted generalizing request with
  | nil => rfl
  | cons header rest ih =>
    rw [List.foldl_cons, ih, countP_insertHeader, List.map_cons]
    by_cases hrest : name ∈ rest.map Sent.name
    · rw [if_pos hrest, if_pos (List.mem_cons_of_mem _ hrest)]
    · rw [if_neg hrest]
      by_cases hname : header.name = name
      · rw [if_pos hname, if_pos (List.mem_cons.mpr (.inl hname.symm))]
      · rw [if_neg hname, if_neg]
        rw [List.mem_cons, not_or]
        exact ⟨fun heq => hname heq.symm, hrest⟩

theorem mem_insertHeader : other ∈ insertHeader request header →
    other ∈ request ∨ other = header := by
  intro h
  rcases List.mem_append.mp h with h | h
  · exact .inl (List.mem_filter.mp h).1
  · exact .inr (List.mem_singleton.mp h)

theorem last_mem_foldl (inserted request : List Sent) (header : Sent) :
    header ∈ (inserted ++ [header]).foldl insertHeader request := by
  rw [List.foldl_append]
  exact List.mem_append_right _ List.mem_cons_self

theorem sigv4_mem (request : List Sent) (headers : AwsSigV4Headers) :
    ∃ header ∈ insertSigv4 request headers, header.origin = .sigv4 := by
  unfold insertSigv4 sigv4Headers
  split
  · rw [List.append_nil]
    exact ⟨_, last_mem_foldl [_] request _, rfl⟩
  · exact ⟨_, last_mem_foldl [_, _] request _, rfl⟩

theorem origin_profileHeaders (h : header ∈ profileHeaders p) :
    header.origin = .credential ∨ header.origin = .profile := by
  obtain ⟨source, _, hsource⟩ := List.mem_filterMap.mp h
  unfold profileHeader at hsource
  split at hsource
  · cases hsource
  · split at hsource
    · split at hsource
      · cases hsource
      · cases hsource
        exact .inl rfl
    · cases hsource
      exact .inr rfl

theorem origin_others (h : header ∈ grokHeaders grokHost p ++ (fingerprintHeaders p ++ betasHeaders p)) :
    header.origin = .grok ∨ header.origin = .fingerprint ∨ header.origin = .betas := by
  rcases List.mem_append.mp h with h | h
  · unfold grokHeaders at h
    split at h
    · cases h
    · split at h
      · rcases List.mem_append.mp h with h | h
        · split at h
          · cases h
          · rw [List.mem_singleton.mp h]
            exact .inl rfl
        · split at h
          · cases h
          · rw [List.mem_singleton.mp h]
            exact .inl rfl
      · cases h
  · rcases List.mem_append.mp h with h | h
    · rcases List.mem_append.mp h with h | h
      · obtain ⟨_, _, rfl⟩ := Option.map_eq_some_iff.mp (Option.mem_toList.mp h)
        exact .inr (.inl rfl)
      · obtain ⟨_, _, rfl⟩ := Option.map_eq_some_iff.mp (Option.mem_toList.mp h)
        exact .inr (.inl rfl)
    · unfold betasHeaders at h
      split at h
      · cases h
      · rw [List.mem_singleton.mp h]
        exact .inr (.inr rfl)

theorem origin_tokenHeader {token : String} (h : header ∈ tokenHeader p token) :
    header.origin = .token := by
  unfold tokenHeader at h
  split at h
  · cases h
  · rw [List.mem_singleton.mp h]
    rfl
  · split at h
    · rw [List.mem_singleton.mp h]
      rfl
    · rw [List.mem_singleton.mp h]
      rfl
  · rw [List.mem_singleton.mp h]
    rfl

theorem tokenHeader_nil {token : String} : tokenHeader p token = [] ↔ scheme p = .none := by
  unfold tokenHeader
  split
  · rename_i h
    exact iff_of_true rfl h
  · rename_i h
    exact iff_of_false (List.cons_ne_nil _ _) (by rw [h]; exact fun heq => by cases heq)
  · rename_i h
    refine iff_of_false ?_ (by rw [h]; exact fun heq => by cases heq)
    split <;> exact List.cons_ne_nil _ _
  · rename_i h
    exact iff_of_false (List.cons_ne_nil _ _) (by rw [h]; exact fun heq => by cases heq)

theorem mem_applied (h : header ∈ applyProfileHeaders grokHost p token) :
    header ∈ profileHeaders p ∨
      header ∈ grokHeaders grokHost p ++ (fingerprintHeaders p ++ betasHeaders p) ∨
      header ∈ tokenHeaders p token := by
  unfold applyProfileHeaders at h
  simp only [List.mem_append] at h ⊢
  rcases h with h | h | h | h | h
  · exact .inl h
  · exact .inr (.inl (.inl h))
  · exact .inr (.inl (.inr (.inl h)))
  · exact .inr (.inl (.inr (.inr h)))
  · exact .inr (.inr h)

/-- A credential of the profile that is not overridden. -/
def KeptCredential (p : Profile) : Prop :=
  ∃ header, SetsCredential p header ∧ overridden p header.1 = false

theorem credential_mem {source : String × String} (h : SetsCredential p source)
    (hkept : overridden p source.1 = false) :
    sent .credential source.1 source.2 ∈ profileHeaders p := by
  refine List.mem_filterMap.mpr ⟨source, h.1, ?_⟩
  rw [profileHeader, hkept, if_neg Bool.false_ne_true, h.2.1, if_pos rfl, h.2.2,
    if_neg Bool.false_ne_true]

theorem credential_source (h : header ∈ profileHeaders p) (horigin : header.origin = .credential) :
    ∃ source, SetsCredential p source ∧ overridden p source.1 = false ∧
      header = sent .credential source.1 source.2 := by
  obtain ⟨source, hmem, hsource⟩ := List.mem_filterMap.mp h
  unfold profileHeader at hsource
  split at hsource
  · cases hsource
  · rename_i hkept
    rw [Bool.not_eq_true] at hkept
    split at hsource
    · rename_i hauth
      split at hsource
      · cases hsource
      · rename_i hblank
        rw [Bool.not_eq_true] at hblank
        cases hsource
        exact ⟨source, ⟨hmem, hauth, hblank⟩, hkept, rfl⟩
    · cases hsource
      cases horigin

theorem keptCredential_iff : KeptCredential p ↔
    ((profileHeaders p).any fun header => header.origin = .credential) = true := by
  rw [List.any_eq_true]
  constructor
  · rintro ⟨source, hset, hkept⟩
    exact ⟨_, credential_mem hset hkept, decide_eq_true rfl⟩
  · rintro ⟨header, hmem, horigin⟩
    obtain ⟨source, hset, hkept, _⟩ := credential_source hmem (of_decide_eq_true horigin)
    exact ⟨source, hset, hkept⟩

theorem tokenHeaders_kept (h : KeptCredential p) : tokenHeaders p token = [] := by
  unfold tokenHeaders
  rw [if_pos (keptCredential_iff.mp h)]

theorem tokenHeaders_ne_nil (h : ¬ KeptCredential p) :
    tokenHeaders p token ≠ [] ↔ TokenGiven p token := by
  rw [keptCredential_iff] at h
  unfold tokenHeaders TokenGiven
  rw [if_neg h]
  cases token with
  | none => exact iff_of_false (fun h => h rfl) (fun h => by cases h.1)
  | some token =>
    rw [ne_eq, tokenHeader_nil]
    exact ⟨fun hscheme => ⟨rfl, hscheme⟩, fun hgiven => hgiven.2⟩

theorem origin_tokenHeaders (h : header ∈ tokenHeaders p token) : header.origin = .token := by
  unfold tokenHeaders at h
  split at h
  · cases h
  · split at h
    · cases h
    · exact origin_tokenHeader h

theorem applied_not_sigv4 (h : header ∈ applyProfileHeaders grokHost p token) :
    header.origin ≠ .sigv4 := by
  rcases mem_applied h with h | h | h
  · rcases origin_profileHeaders h with h | h <;> rw [h] <;> decide
  · rcases origin_others h with h | h | h <;> rw [h] <;> decide
  · rw [origin_tokenHeaders h]
    decide

theorem no_credential_iff : (∀ header ∈ applyProfileHeaders grokHost p token,
      header.origin ≠ .credential ∧ header.origin ≠ .token) ↔
    ¬ (KeptCredential p ∨ TokenGiven p token) := by
  constructor
  · rintro hnone (⟨source, hset, hkept⟩ | hgiven)
    · have hmem : sent .credential source.1 source.2 ∈ applyProfileHeaders grokHost p token :=
        List.mem_append_left _ (credential_mem hset hkept)
      exact (hnone _ hmem).1 rfl
    · by_cases hkept : KeptCredential p
      · obtain ⟨source, hset, hsource⟩ := hkept
        have hmem : sent .credential source.1 source.2 ∈ applyProfileHeaders grokHost p token :=
          List.mem_append_left _ (credential_mem hset hsource)
        exact (hnone _ hmem).1 rfl
      · obtain ⟨header, hmem⟩ := List.exists_mem_of_ne_nil _ ((tokenHeaders_ne_nil hkept).mpr hgiven)
        have happlied : header ∈ applyProfileHeaders grokHost p token := by
          unfold applyProfileHeaders
          simp only [List.mem_append]
          exact .inr (.inr (.inr (.inr hmem)))
        exact (hnone header happlied).2 (origin_tokenHeaders hmem)
  · intro hno header hmem
    rw [not_or] at hno
    rcases mem_applied hmem with h | h | h
    · rcases origin_profileHeaders h with horigin | horigin
      · obtain ⟨source, hset, hkept, _⟩ := credential_source h horigin
        exact absurd ⟨source, hset, hkept⟩ hno.1
      · rw [horigin]
        decide
    · rcases origin_others h with h | h | h <;> rw [h] <;> decide
    · have hne := List.ne_nil_of_mem h
      exact absurd ((tokenHeaders_ne_nil hno.1).mp hne) hno.2

instance : Decidable (Signs p token) := inferInstanceAs (Decidable (_ ∧ _))

theorem applyAwsSigv4_eq (p : Profile) (token : Option String) (headers : AwsSigV4Headers)
    (request : List Sent) : applyAwsSigv4 p headers (bearerTokenApplied p token) request =
      if Signs p token then insertSigv4 request headers else request := by
  unfold applyAwsSigv4
  by_cases hsigns : Signs p token
  · rw [if_pos hsigns, hsigns.2, if_neg Bool.false_ne_true, if_pos hsigns.1]
  · rw [if_neg hsigns]
    split
    · rfl
    · rename_i happlied
      rw [if_neg fun hservice => hsigns ⟨hservice, Bool.not_eq_true _ ▸ happlied⟩]

theorem signed_iff : (∃ header ∈ applyAwsSigv4 p headers (bearerTokenApplied p token)
      (applyProfileHeaders grokHost p token), header.origin = .sigv4) ↔ Signs p token := by
  rw [applyAwsSigv4_eq]
  split
  · rename_i h
    exact iff_of_true (sigv4_mem _ _) h
  · rename_i h
    refine iff_of_false ?_ h
    rintro ⟨header, hmem, horigin⟩
    exact applied_not_sigv4 hmem horigin

/-- A header of the profile is replaced by a SigV4 header of its name only. -/
theorem mem_foldl_insert (inserted request : List Sent) (h : header ∈ request) :
    header ∈ inserted.foldl insertHeader request ∨
      ∃ other ∈ inserted.foldl insertHeader request, other ∈ inserted ∧ other.name = header.name := by
  induction inserted using List.reverseRecOn with
  | nil => exact .inl h
  | append_singleton inserted last ih =>
    rw [List.foldl_append, List.foldl_cons, List.foldl_nil]
    by_cases hname : last.name = header.name
    · exact .inr ⟨last, List.mem_append_right _ List.mem_cons_self,
        List.mem_append_right _ List.mem_cons_self, hname⟩
    · rcases ih with hmem | ⟨other, hmem, hinserted, hother⟩
      · exact .inl (List.mem_append_left _ (List.mem_filter.mpr ⟨hmem, by simpa using fun heq => hname heq.symm⟩))
      · refine .inr ⟨other, List.mem_append_left _ (List.mem_filter.mpr ⟨hmem, ?_⟩),
          List.mem_append_left _ hinserted, hother⟩
        rw [hother]
        simpa using fun heq => hname heq.symm

theorem origin_sigv4Headers (h : header ∈ sigv4Headers headers) : header.origin = .sigv4 := by
  unfold sigv4Headers at h
  rcases List.mem_append.mp h with h | h
  · simp only [List.mem_cons, List.not_mem_nil, or_false] at h
    rcases h with rfl | rfl <;> rfl
  · split at h
    · cases h
    · rw [List.mem_singleton.mp h]

theorem mem_foldl_origin (inserted request : List Sent) (hnew : ∀ other ∈ inserted, other.origin = .sigv4)
    (h : header ∈ inserted.foldl insertHeader request) : header ∈ request ∨ header.origin = .sigv4 := by
  induction inserted generalizing request with
  | nil => exact .inl h
  | cons other rest ih =>
    rcases ih _ (fun x hx => hnew x (List.mem_cons_of_mem _ hx)) h with hmem | horigin
    · rcases mem_insertHeader hmem with hrequest | rfl
      · exact .inl hrequest
      · exact .inr (hnew _ List.mem_cons_self)
    · exact .inr horigin

theorem names_grok (h : header ∈ grokHeaders grokHost p) : header.name ∈ grokNames grokHost p := by
  unfold grokHeaders at h
  unfold grokNames
  cases hbase : p.baseUrl with
  | none =>
    rw [hbase] at h
    cases h
  | some base =>
    rw [hbase] at h
    dsimp only at h
    split at h
    · rename_i hhost
      rw [Option.map_some, Option.getD_some, if_pos hhost, List.mem_filter]
      rcases List.mem_append.mp h with h | h
      · split at h
        · cases h
        · rename_i habsent
          rw [List.mem_singleton.mp h]
          exact ⟨List.mem_cons_self, by rw [Bool.not_eq_true] at habsent; exact congrArg not habsent⟩
      · split at h
        · cases h
        · rename_i habsent
          rw [List.mem_singleton.mp h]
          exact ⟨List.mem_cons_of_mem _ List.mem_cons_self,
            by rw [Bool.not_eq_true] at habsent; exact congrArg not habsent⟩
    · cases h

theorem names_others (h : header ∈ grokHeaders grokHost p ++ (fingerprintHeaders p ++ betasHeaders p)) :
    header.name ∈ extraNames grokHost p := by
  unfold extraNames
  simp only [List.mem_append]
  rcases List.mem_append.mp h with h | h
  · exact .inl (names_grok h)
  rcases List.mem_append.mp h with h | h
  · unfold fingerprintHeaders at h
    rcases List.mem_append.mp h with h | h
    · obtain ⟨value, hvalue, rfl⟩ := Option.map_eq_some_iff.mp (Option.mem_toList.mp h)
      rw [hvalue]
      exact .inr (.inl List.mem_cons_self)
    · obtain ⟨value, hvalue, rfl⟩ := Option.map_eq_some_iff.mp (Option.mem_toList.mp h)
      rw [hvalue]
      exact .inr (.inr (.inl List.mem_cons_self))
  · unfold betasHeaders at h
    split at h
    · cases h
    · rename_i hvalues
      rw [List.mem_singleton.mp h, if_neg hvalues]
      exact .inr (.inr (.inr List.mem_cons_self))

theorem isProfileAuthHeader_iff {name : String} :
    isProfileAuthHeader p name = true ↔ asciiLower name ∈ credentialNames p := by
  have hnames : asciiLower "authorization" = "authorization" ∧ asciiLower "x-api-key" = "x-api-key" := by
    decide
  unfold isProfileAuthHeader credentialNames eqIgnoreCase
  rw [hnames.1, hnames.2]
  split <;> simp [or_assoc]

/-- A credential name is on no more headers of the request than the profile sets it. -/
theorem countP_profileHeaders {name : String} (hname : name ∈ credentialNames p) :
    (profileHeaders p).countP (fun header => header.name = name) ≤ p.headers.countP (setsName name) := by
  unfold profileHeaders
  rw [List.countP_filterMap]
  refine List.countP_mono_left fun source _ hsource => ?_
  unfold profileHeader at hsource
  split at hsource
  · cases hsource
  · split at hsource
    · split at hsource
      · cases hsource
      · rename_i hblank
        have heq : asciiLower source.1 = name := by simpa [sent] using hsource
        simpa [setsName] using And.intro heq ((Bool.not_eq_true _).mp hblank)
    · rename_i hauth
      rw [isProfileAuthHeader_iff] at hauth
      have heq : asciiLower source.1 = name := by simpa [sent] using hsource
      exact absurd (heq ▸ hname) hauth

theorem profileHeader_name {source : String × String} (h : profileHeader p source = some header) :
    header.name = asciiLower source.1 := by
  unfold profileHeader at h
  split at h
  · cases h
  · split at h
    · split at h
      · cases h
      · cases h
        rfl
    · cases h
      rfl

theorem profileHeader_origin {source : String × String} (h : profileHeader p source = some header)
    (hauth : isProfileAuthHeader p source.1 = true) : header.origin = .credential := by
  unfold profileHeader at h
  split at h
  · cases h
  · split at h
    · cases h
    · cases h
      rfl

theorem countP_profileHeaders_zero {name : String} (hname : name ∈ credentialNames p)
    (h : ¬ KeptCredential p) : (profileHeaders p).countP (fun header => header.name = name) = 0 := by
  refine List.countP_eq_zero.mpr fun header hmem heq => h (keptCredential_iff.mpr ?_)
  obtain ⟨source, _, hheader⟩ := List.mem_filterMap.mp hmem
  have hlower : asciiLower source.1 = name :=
    (profileHeader_name hheader).symm.trans (of_decide_eq_true heq)
  have hauth : isProfileAuthHeader p source.1 = true :=
    isProfileAuthHeader_iff.mpr (by rw [hlower]; exact hname)
  exact List.any_eq_true.mpr ⟨header, hmem, decide_eq_true (profileHeader_origin hheader hauth)⟩

theorem length_tokenHeaders : (tokenHeaders p token).length ≤ 1 := by
  unfold tokenHeaders tokenHeader
  repeat' split
  all_goals simp

theorem countP_applied {name : String} (hname : name ∈ credentialNames p)
    (hset : p.headers.countP (setsName name) ≤ 1) (hextra : name ∉ extraNames grokHost p) :
    (applyProfileHeaders grokHost p token).countP (fun header => header.name = name) ≤ 1 := by
  have hothers : (grokHeaders grokHost p ++ (fingerprintHeaders p ++ betasHeaders p)).countP
      (fun header => header.name = name) = 0 :=
    List.countP_eq_zero.mpr fun header hmem heq => hextra (of_decide_eq_true heq ▸ names_others hmem)
  have hcount : (applyProfileHeaders grokHost p token).countP (fun header => header.name = name) =
      (profileHeaders p).countP (fun header => header.name = name) +
        (tokenHeaders p token).countP fun header => header.name = name := by
    unfold applyProfileHeaders
    simp only [List.countP_append] at hothers ⊢
    omega
  rw [hcount]
  by_cases hkept : KeptCredential p
  · rw [tokenHeaders_kept hkept]
    exact Nat.le_trans (countP_profileHeaders hname) hset
  · rw [countP_profileHeaders_zero hname hkept, Nat.zero_add]
    exact Nat.le_trans List.countP_le_length length_tokenHeaders

theorem bearer_iff {token : String} : (match scheme p with
      | .none => false
      | .bearer => true
      | .xApiKey => startsWithOat token
      | .header name => eqIgnoreCase name "authorization") = true ↔
    ∃ header ∈ tokenHeader p token, header.name = "authorization" := by
  unfold tokenHeader
  have hname : asciiLower "authorization" = "authorization" ∧ asciiLower "x-api-key" ≠ "authorization" := by
    decide
  cases scheme p with
  | none => simp
  | bearer => simpa [sent] using hname.1
  | xApiKey =>
    cases hoat : startsWithOat token with
    | true => simpa [sent, hoat] using hname.1
    | false => simpa [sent, hoat] using hname.2
  | header name => simp [sent, eqIgnoreCase, hname.1]

theorem bearerTokenApplied_iff (h : ¬ KeptCredential p) : bearerTokenApplied p token = true ↔
    (∃ value, token = some value ∧ isBlank value = false) ∧
      ∃ header ∈ applyProfileHeaders grokHost p token,
        header.origin = .token ∧ header.name = "authorization" := by
  have hsent : (∃ header ∈ applyProfileHeaders grokHost p token,
        header.origin = .token ∧ header.name = "authorization") ↔
      ∃ header ∈ tokenHeaders p token, header.name = "authorization" := by
    constructor
    · rintro ⟨header, hmem, horigin, hname⟩
      rcases mem_applied hmem with hp | ho | ht
      · rcases origin_profileHeaders hp with h | h <;> rw [h] at horigin <;> cases horigin
      · rcases origin_others ho with h | h | h <;> rw [h] at horigin <;> cases horigin
      · exact ⟨header, ht, hname⟩
    · rintro ⟨header, hmem, hname⟩
      refine ⟨header, ?_, origin_tokenHeaders hmem, hname⟩
      unfold applyProfileHeaders
      simp only [List.mem_append]
      exact .inr (.inr (.inr (.inr hmem)))
  rw [hsent]
  unfold tokenHeaders bearerTokenApplied
  rw [if_neg (keptCredential_iff.not.mp h)]
  cases token with
  | none => simp
  | some token =>
    cases hblank : isBlank token with
    | true => simp [Option.filter_some, hblank]
    | false =>
      simp only [Option.filter_some, hblank, Bool.not_false, if_true, Option.some.injEq,
        exists_eq_left', true_and]
      exact bearer_iff

theorem covered_of_applied (h : bearerTokenApplied p token = true) : TokenGiven p token := by
  cases token with
  | none => cases h
  | some token =>
    refine ⟨rfl, fun hscheme => ?_⟩
    unfold bearerTokenApplied at h
    rw [hscheme] at h
    split at h <;> cases h

/-- Beside a credential of the profile no token is written. -/
theorem no_token_of_kept (h : KeptCredential p) :
    ∀ other ∈ applyProfileHeaders grokHost p token, other.origin ≠ .token := by
  intro other hother
  rcases mem_applied hother with ho | ho | ho
  · rcases origin_profileHeaders ho with h | h <;> rw [h] <;> decide
  · rcases origin_others ho with h | h | h <;> rw [h] <;> decide
  · rw [tokenHeaders_kept h] at ho
    cases ho

/-- Signing leaves a header where it is, or puts a SigV4 header of its name there. -/
theorem kept_or_signed (hmem : header ∈ request) :
    header ∈ insertSigv4 request headers ∨
      ∃ other ∈ insertSigv4 request headers, other.origin = .sigv4 ∧ other.name = header.name := by
  rcases mem_foldl_insert (sigv4Headers headers) _ hmem with h | ⟨other, h, hnew, hname⟩
  · exact .inl h
  · exact .inr ⟨other, h, origin_sigv4Headers hnew, hname⟩

theorem built_one_credential : OneCredential grokHost p token (applyAwsSigv4 p headers
      (bearerTokenApplied p token) (applyProfileHeaders grokHost p token)) where
  once name hname hset hextra := by
    rw [applyAwsSigv4_eq]
    split
    · unfold insertSigv4
      rw [countP_foldl_insert]
      split
      · exact Nat.le_refl 1
      · exact countP_applied hname hset hextra
    · exact countP_applied hname hset hextra
  unchanged source hset hsource := by
    have hkept : KeptCredential p := ⟨source, hset, hsource⟩
    have hmem : sent .credential source.1 source.2 ∈ applyProfileHeaders grokHost p token :=
      List.mem_append_left _ (credential_mem hset hsource)
    rw [applyAwsSigv4_eq]
    split
    · refine ⟨fun other hother => ?_, kept_or_signed hmem⟩
      rcases mem_foldl_origin _ _ (fun _ => origin_sigv4Headers) hother with h | h
      · exact no_token_of_kept hkept other h
      · rw [h]
        decide
    · exact ⟨no_token_of_kept hkept, .inl hmem⟩
  signed := signed_iff
  covered hservice hunsigned := by
    have hsigns : ¬ Signs p token := by
      rw [← @signed_iff grokHost p token headers]
      rintro ⟨header, hmem, horigin⟩
      exact hunsigned header hmem horigin
    have happlied : bearerTokenApplied p token = true := by
      rw [← Bool.not_eq_false]
      exact fun h => hsigns ⟨hservice, h⟩
    by_contra hno
    rw [applyAwsSigv4_eq, if_neg hsigns] at hno
    have hnone : ∀ header ∈ applyProfileHeaders grokHost p token,
        header.origin ≠ .credential ∧ header.origin ≠ .token :=
      fun header hmem => not_or.mp fun horigin => hno ⟨header, hmem, horigin⟩
    exact no_credential_iff.mp hnone (.inr (covered_of_applied happlied))
  predicted hnone := bearerTokenApplied_iff fun ⟨source, hset, hkept⟩ => by
    rw [hnone source hset] at hkept
    cases hkept

/-- Every request that is built has one credential, with the signature unless a bearer
token was applied. -/
theorem one_credential (grokHost : String → Bool) (valid : Sent → Bool) (p : Profile)
    (token : Option String) (headers : AwsSigV4Headers) (request : List Sent)
    (h : builtRequest grokHost valid p token headers = some request) :
    OneCredential grokHost p token request := by
  unfold builtRequest at h
  split at h
  · cases h
    exact built_one_credential
  · cases h

/-- A profile with its own API key and no token, and an AWS service. -/
def keyedBedrock : Profile where
  headers := [("x-api-key", "k")]
  authScheme := some .none
  awsService := some "bedrock"
  fingerprint := none
  betas := ⟨"anthropic-beta", []⟩
  baseUrl := none

def keyedRequest : List Sent :=
  [⟨"x-api-key", "k", .credential⟩, ⟨"authorization", "AWS4-HMAC-SHA256 x", .sigv4⟩,
    ⟨"x-amz-date", "20260101T000000Z", .sigv4⟩]

theorem one_credential_keyed : OneCredential (fun _ => false) keyedBedrock none keyedRequest :=
  one_credential (fun _ => false) (fun _ => true) keyedBedrock none
    ⟨"AWS4-HMAC-SHA256 x", "20260101T000000Z", ""⟩ keyedRequest (by decide +kernel)

/-- The signature stands beside the key of the profile. -/
theorem keyed_request_signed : builtRequest (fun _ => false) (fun _ => true) keyedBedrock none
      ⟨"AWS4-HMAC-SHA256 x", "20260101T000000Z", ""⟩ = some keyedRequest ∧
    ¬ ((∃ header ∈ keyedRequest, header.origin = .sigv4) ↔ awsServiceSet keyedBedrock = true ∧
      ∀ header ∈ keyedRequest, header.origin ≠ .credential ∧ header.origin ≠ .token) := by
  decide +kernel

end Wiremux.RequestCredentials
