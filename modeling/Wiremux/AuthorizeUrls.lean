import Wiremux.FormQueries
import Wiremux.JsonValue

set_option autoImplicit false

/-!
# The authorize URL

`build_auth_url` puts the parameters of the engine behind a `?` of its own. A URL that has
a query already reads the first of them as a part of its last parameter, and one that has
a fragment reads none.
-/
namespace Wiremux.AuthorizeUrls
open ChatDecoding (splitOnce)
open JsonValue (asciiLowerChar)
open PercentEncoding FormQueries

def keptByte (byte : UInt8) : Bool :=
  (0x41 ≤ byte && byte ≤ 0x5A) || (0x61 ≤ byte && byte ≤ 0x7A) || (0x30 ≤ byte && byte ≤ 0x39) ||
    byte == 0x2D || byte == 0x2E || byte == 0x5F || byte == 0x7E

structure PkceChallenge where
  codeVerifier : List Char
  codeChallenge : List Char
  state : List Char

def reservedNames : List (List Char) :=
  ["redirect_uri", "response_type", "client_id", "code_challenge", "code_challenge_method", "state",
    "code_verifier", "grant_type", "scope", "client_secret", "access_token", "refresh_token",
    "id_token", "password", "client_assertion", "client_assertion_type", "assertion", "device_code",
    "code"].map String.toList

def isReservedAuthorizeParam (key : List Char) : Bool :=
  reservedNames.contains (key.map asciiLowerChar)

def behindAmpersand (param : Param) : List Char := '&' :: pairText keptByte param

def buildAuthUrl (authorizeUrl clientId redirectUri : List Char) (scope : Option (List Char))
    (pkce : PkceChallenge) (extraParams : List Param) : List Char :=
  authorizeUrl ++ ("?client_id=".toList ++ (percentEncode keptByte clientId ++
    ("&response_type=code".toList ++
      ("&redirect_uri=".toList ++ (percentEncode keptByte redirectUri ++
        ("&code_challenge=".toList ++ (percentEncode keptByte pkce.codeChallenge ++
          ("&code_challenge_method=S256".toList ++
            ("&state=".toList ++ (percentEncode keptByte pkce.state ++
              ((scope.map fun s => "&scope=".toList ++ percentEncode keptByte s).getD [] ++
                (extraParams.filter fun param => !isReservedAuthorizeParam param.1).flatMap
                  behindAmpersand)))))))))))

def clientParam (clientId : List Char) : Param := ("client_id".toList, clientId)

theorem clientParam_name (clientId : List Char) : (clientParam clientId).1 = "client_id".toList := rfl

def otherParams (redirectUri : List Char) (pkce : PkceChallenge) : List Param :=
  [("response_type".toList, "code".toList), ("redirect_uri".toList, redirectUri),
    ("code_challenge".toList, pkce.codeChallenge), ("code_challenge_method".toList, "S256".toList),
    ("state".toList, pkce.state)]

def scopeName : List Char := "scope".toList

def scopeParams (scope : Option (List Char)) : List Param :=
  (scope.map fun s => [(scopeName, s)]).getD []

def keptExtras (extraParams : List Param) : List Param :=
  extraParams.filter fun param => !isReservedAuthorizeParam param.1

def laterParams (redirectUri : List Char) (scope : Option (List Char)) (pkce : PkceChallenge)
    (extraParams : List Param) : List Param :=
  otherParams redirectUri pkce ++ (scopeParams scope ++ keptExtras extraParams)

variable {authorizeUrl clientId redirectUri : List Char} {scope : Option (List Char)}
  {pkce : PkceChallenge} {extraParams : List Param} {param : Param} {name : List Char}

theorem keptByte_safe : FormSafe keptByte where
  ascii := by
    have h : ∀ n : Fin 256, keptByte (UInt8.ofNat n) = true → (n : Nat) < 0x80 := by
      decide +kernel
    intro byte hkept
    refine h ⟨byte.toNat, byte.toNat_lt⟩ ?_
    rw [UInt8.ofNat_toNat]
    exact hkept
  percent := by decide
  marks := List.all_iff_forall_prop.mp (by decide)

theorem behindAmpersand_kept (h : percentEncode keptByte name = name) (value : List Char) :
    behindAmpersand (name, value) = '&' :: (name ++ '=' :: percentEncode keptByte value) := by
  rw [behindAmpersand, pairText, h]

theorem others_text (redirectUri : List Char) (pkce : PkceChallenge) :
    (otherParams redirectUri pkce).flatMap behindAmpersand =
      "&response_type=code".toList ++ ("&redirect_uri=".toList ++
        (percentEncode keptByte redirectUri ++ ("&code_challenge=".toList ++
          (percentEncode keptByte pkce.codeChallenge ++ ("&code_challenge_method=S256".toList ++
            ("&state=".toList ++ percentEncode keptByte pkce.state)))))) := by
  have hcode : percentEncode keptByte "code".toList = "code".toList := by decide
  have hsha : percentEncode keptByte "S256".toList = "S256".toList := by decide
  have htype : "&response_type=code".toList =
      '&' :: ("response_type".toList ++ '=' :: "code".toList) := by decide
  have hredirect : "&redirect_uri=".toList = '&' :: ("redirect_uri".toList ++ ['=']) := by decide
  have hchallenge : "&code_challenge=".toList = '&' :: ("code_challenge".toList ++ ['=']) := by decide
  have hmethod : "&code_challenge_method=S256".toList =
      '&' :: ("code_challenge_method".toList ++ '=' :: "S256".toList) := by decide
  have hstate : "&state=".toList = '&' :: ("state".toList ++ ['=']) := by decide
  rw [otherParams, List.flatMap_cons, List.flatMap_cons, List.flatMap_cons, List.flatMap_cons,
    List.flatMap_singleton, behindAmpersand_kept (by decide), behindAmpersand_kept (by decide),
    behindAmpersand_kept (by decide), behindAmpersand_kept (by decide),
    behindAmpersand_kept (by decide), hcode, hsha, htype, hredirect, hchallenge, hmethod, hstate]
  simp only [List.cons_append, List.append_assoc, List.nil_append]

theorem scope_text (scope : Option (List Char)) : (scopeParams scope).flatMap behindAmpersand =
    (scope.map fun s => "&scope=".toList ++ percentEncode keptByte s).getD [] := by
  have hscope : "&scope=".toList = '&' :: (scopeName ++ ['=']) := by decide
  cases scope with
  | none => rfl
  | some s =>
    rw [Option.map_some, Option.getD_some, hscope, scopeParams, Option.map_some, Option.getD_some,
      List.flatMap_singleton, behindAmpersand_kept (by decide)]
    simp only [List.cons_append, List.append_assoc, List.nil_append]

theorem buildAuthUrl_eq (authorizeUrl clientId redirectUri : List Char) (scope : Option (List Char))
    (pkce : PkceChallenge) (extraParams : List Param) :
    buildAuthUrl authorizeUrl clientId redirectUri scope pkce extraParams =
      authorizeUrl ++ '?' :: queryText keptByte
        (clientParam clientId :: laterParams redirectUri scope pkce extraParams) := by
  have hclient : percentEncode keptByte "client_id".toList = "client_id".toList := by decide
  have hmark : "?client_id=".toList = '?' :: ("client_id".toList ++ ['=']) := by decide
  have hquery : queryText keptByte
      (clientParam clientId :: laterParams redirectUri scope pkce extraParams) =
      pairText keptByte (clientParam clientId) ++
        (laterParams redirectUri scope pkce extraParams).flatMap behindAmpersand :=
    queryText_flatMap _ _
  have hpair : pairText keptByte (clientParam clientId) =
      "client_id".toList ++ '=' :: percentEncode keptByte clientId :=
    congrArg (fun front => front ++ '=' :: percentEncode keptByte clientId) hclient
  rw [hquery, hpair, laterParams, List.flatMap_append, List.flatMap_append, others_text, scope_text,
    buildAuthUrl, hmark, keptExtras]
  simp only [List.cons_append, List.append_assoc, List.nil_append]

def hasName (name : List Char) (param : Param) : Bool := param.1 == name

def engineParams (clientId redirectUri : List Char) (pkce : PkceChallenge) : List Param :=
  clientParam clientId :: otherParams redirectUri pkce

/-- What the authorization server has to read from a query. -/
structure CarriesOnce (engine extraParams params : List Param) : Prop where
  once : ∀ param ∈ engine, params.filter (hasName param.1) = [param]
  scope : (params.filter (hasName scopeName)).length ≤ 1
  extras : ∀ param ∈ extraParams, isReservedAuthorizeParam param.1 = false → param ∈ params
  reserved : ∀ param ∈ params, isReservedAuthorizeParam param.1 = true →
    param.1 ∈ engine.map Prod.fst ∨ param.1 = scopeName

theorem filter_absent {params : List Param} (h : ∀ param ∈ params, param.1 ≠ name) :
    params.filter (hasName name) = [] := by
  refine List.filter_eq_nil_iff.mpr fun param hparam => ?_
  rw [hasName, beq_iff_eq]
  exact h param hparam

theorem filter_otherParams (h : param ∈ otherParams redirectUri pkce) :
    (otherParams redirectUri pkce).filter (hasName param.1) = [param] := by
  simp only [otherParams, List.mem_cons, List.not_mem_nil, or_false] at h
  rcases h with rfl | rfl | rfl | rfl | rfl <;> rfl

def otherNames : List (List Char) :=
  ["response_type", "redirect_uri", "code_challenge", "code_challenge_method", "state"].map
    String.toList

theorem otherParams_names (redirectUri : List Char) (pkce : PkceChallenge) :
    (otherParams redirectUri pkce).map Prod.fst = otherNames := rfl

theorem otherNames_reserved : ∀ name ∈ otherNames, isReservedAuthorizeParam name = true ∧
    name ≠ scopeName ∧ name ≠ "client_id".toList :=
  List.all_iff_forall_prop.mp (by decide)

theorem otherParams_reserved (h : param ∈ otherParams redirectUri pkce) :
    isReservedAuthorizeParam param.1 = true ∧ param.1 ≠ scopeName ∧ param.1 ≠ "client_id".toList :=
  otherNames_reserved param.1 (List.mem_map_of_mem h)

theorem filter_scopeParams (h : name ≠ scopeName) (scope : Option (List Char)) :
    (scopeParams scope).filter (hasName name) = [] := by
  cases scope with
  | none => rfl
  | some s =>
    refine filter_absent fun param hparam => ?_
    rw [List.mem_singleton.mp hparam]
    exact h.symm

theorem filter_keptExtras (h : isReservedAuthorizeParam name = true) (extraParams : List Param) :
    (keptExtras extraParams).filter (hasName name) = [] := by
  refine filter_absent fun param hparam => ?_
  have hkept := (List.mem_filter.mp hparam).2
  rintro rfl
  rw [h] at hkept
  cases hkept

theorem filter_later_other (h : param ∈ otherParams redirectUri pkce) :
    (laterParams redirectUri scope pkce extraParams).filter (hasName param.1) = [param] := by
  obtain ⟨hreserved, hscope, -⟩ := otherParams_reserved h
  rw [laterParams, List.filter_append, List.filter_append, filter_otherParams h,
    filter_scopeParams hscope, filter_keptExtras hreserved]
  rfl

theorem filter_later_client :
    (laterParams redirectUri scope pkce extraParams).filter (hasName "client_id".toList) = [] := by
  have hother : (otherParams redirectUri pkce).filter (hasName "client_id".toList) = [] :=
    filter_absent fun param hparam => (otherParams_reserved hparam).2.2
  rw [laterParams, List.filter_append, List.filter_append, hother,
    filter_scopeParams (by decide), filter_keptExtras (by decide)]
  rfl

theorem filter_later_scope :
    (laterParams redirectUri scope pkce extraParams).filter (hasName scopeName) = scopeParams scope := by
  have hother : (otherParams redirectUri pkce).filter (hasName scopeName) = [] :=
    filter_absent fun param hparam => (otherParams_reserved hparam).2.1
  have hscope : (scopeParams scope).filter (hasName scopeName) = scopeParams scope := by
    refine List.filter_eq_self.mpr fun param hparam => ?_
    cases scope with
    | none => cases hparam
    | some s =>
      rw [List.mem_singleton.mp hparam]
      rfl
  rw [laterParams, List.filter_append, List.filter_append, hother, hscope,
    filter_keptExtras (by decide), List.append_nil, List.nil_append]

theorem later_reserved (h : param ∈ laterParams redirectUri scope pkce extraParams)
    (hreserved : isReservedAuthorizeParam param.1 = true) :
    param.1 ∈ (otherParams redirectUri pkce).map Prod.fst ∨ param.1 = scopeName := by
  rcases List.mem_append.mp h with h | h
  · exact .inl (List.mem_map_of_mem h)
  · right
    rcases List.mem_append.mp h with h | h
    · cases scope with
      | none => cases h
      | some s => rw [List.mem_singleton.mp h]
    · have hkept := (List.mem_filter.mp h).2
      rw [hreserved] at hkept
      cases hkept

theorem mem_later_extra (h : param ∈ extraParams) (hfree : isReservedAuthorizeParam param.1 = false) :
    param ∈ laterParams redirectUri scope pkce extraParams := by
  refine List.mem_append_right _ (List.mem_append_right _ (List.mem_filter.mpr ⟨h, ?_⟩))
  rw [hfree]
  rfl

theorem carriesOnce_engine : CarriesOnce (engineParams clientId redirectUri pkce) extraParams
    (clientParam clientId :: laterParams redirectUri scope pkce extraParams) where
  once := by
    intro param hparam
    rcases List.mem_cons.mp hparam with rfl | hparam
    · rw [List.filter_cons_of_pos (by exact beq_self_eq_true _)]
      exact congrArg _ filter_later_client
    · rw [List.filter_cons_of_neg, filter_later_other hparam]
      rw [hasName, beq_iff_eq]
      exact (otherParams_reserved hparam).2.2.symm
  scope := by
    have hclient : ¬ hasName scopeName (clientParam clientId) = true :=
      Bool.eq_false_iff.mp (by rfl)
    rw [List.filter_cons_of_neg hclient, filter_later_scope]
    cases scope with
    | none => exact Nat.zero_le 1
    | some s => exact Nat.le_refl 1
  extras := fun param hparam hfree => List.mem_cons_of_mem _ (mem_later_extra hparam hfree)
  reserved := by
    intro param hparam hreserved
    rcases List.mem_cons.mp hparam with rfl | hparam
    · exact .inl List.mem_cons_self
    · rcases later_reserved hparam hreserved with hname | hname
      · exact .inl (List.mem_cons_of_mem _ hname)
      · exact .inr hname

def ownParts (authorizeUrl : List Char) : List (List Char) := (urlQuery authorizeUrl).splitOn '&'

/-- The parameters of the URL's own query, but the last. -/
def ownParams (authorizeUrl : List Char) : List Param := partParams (ownParts authorizeUrl).dropLast

/-- The name of the last one, where it has a value. -/
def lastName (authorizeUrl : List Char) : List (List Char) :=
  match splitOnce ['='] ((ownParts authorizeUrl).getLast?.getD []) with
  | some (name, _) => [formDecode name]
  | none => []

/-- The own query names the client once, and nothing else that is reserved: only the scope,
where none is asked for. -/
structure OwnFits (clientId : List Char) (scope : Option (List Char)) (own : List Param)
    (last : List (List Char)) : Prop where
  client : own.filter (hasName "client_id".toList) = [clientParam clientId]
  named : ∀ param ∈ own, isReservedAuthorizeParam param.1 = true →
    param.1 = "client_id".toList ∨ param.1 = scopeName
  lastNamed : ∀ name ∈ last, isReservedAuthorizeParam name = true → name = scopeName
  scope : (own.filter (hasName scopeName)).length + last.count scopeName +
    (scopeParams scope).length ≤ 1

def gluedParam (authorizeUrl clientId : List Char) : Param :=
  formPair ((ownParts authorizeUrl).getLast?.getD [] ++ '?' :: pairText keptByte (clientParam clientId))

theorem question_free (h : '?' ∈ name) : isReservedAuthorizeParam name = false := by
  rw [Bool.eq_false_iff]
  intro hreserved
  have hmem : name.map asciiLowerChar ∈ reservedNames := List.contains_iff_mem.mp hreserved
  have hnone : ∀ reserved ∈ reservedNames, '?' ∉ reserved := List.all_iff_forall_prop.mp (by decide)
  exact hnone _ hmem (List.mem_map.mpr ⟨'?', h, by decide⟩)

/-- The glued pair has the name of the last parameter, or a name that nothing reserves. -/
theorem gluedParam_name (authorizeUrl clientId : List Char) :
    lastName authorizeUrl = [(gluedParam authorizeUrl clientId).1] ∨
      (lastName authorizeUrl = [] ∧ '?' ∈ (gluedParam authorizeUrl clientId).1) := by
  unfold lastName gluedParam
  cases hsplit : splitOnce ['='] ((ownParts authorizeUrl).getLast?.getD []) with
  | none => exact .inr ⟨rfl, formPair_glued_name keptByte_safe hsplit _⟩
  | some halves =>
    obtain ⟨name, value⟩ := halves
    rw [formPair_glued_value keptByte_safe hsplit]
    exact .inl rfl

theorem gluedParam_ne_client (authorizeUrl clientId : List Char) :
    gluedParam authorizeUrl clientId ≠ clientParam clientId := by
  unfold gluedParam
  intro heq
  cases hsplit : splitOnce ['='] ((ownParts authorizeUrl).getLast?.getD []) with
  | none =>
    have hname := formPair_glued_name keptByte_safe hsplit (clientParam clientId)
    have hplain : '?' ∉ "client_id".toList := by decide
    rw [heq, clientParam_name] at hname
    exact hplain hname
  | some halves =>
    obtain ⟨name, value⟩ := halves
    have hglued := formPair_glued_value keptByte_safe hsplit (clientParam clientId)
    have hvalue : clientId = formDecode value ++ '?' :: ((clientParam clientId).1 ++ '=' :: clientId) :=
      congrArg Prod.snd (heq.symm.trans hglued)
    have hlength := congrArg List.length hvalue
    simp only [List.length_append, List.length_cons] at hlength
    omega

section
variable {own : List Param} {glued : Param} {last : List (List Char)}

theorem filter_behind (name : List Char) :
    (own ++ glued :: laterParams redirectUri scope pkce extraParams).filter (hasName name) =
      own.filter (hasName name) ++ ([glued].filter (hasName name) ++
        (laterParams redirectUri scope pkce extraParams).filter (hasName name)) := by
  rw [← List.filter_append, ← List.filter_append]
  rfl

section
variable (honce : CarriesOnce (engineParams clientId redirectUri pkce) extraParams
  (own ++ glued :: laterParams redirectUri scope pkce extraParams))
include honce

theorem first_client : own.filter (hasName "client_id".toList) ++
    [glued].filter (hasName "client_id".toList) = [clientParam clientId] := by
  have hfirst := honce.once (clientParam clientId) List.mem_cons_self
  rwa [clientParam_name, filter_behind, filter_later_client, List.append_nil] at hfirst

theorem glued_ne_client (hclient : glued ≠ clientParam clientId) : glued.1 ≠ "client_id".toList := by
  intro heq
  have hfirst := first_client honce
  have hpos : hasName "client_id".toList glued = true := beq_iff_eq.mpr heq
  rw [List.filter_cons_of_pos hpos, List.filter_nil] at hfirst
  have hmem : glued ∈ [clientParam clientId] := hfirst ▸ List.mem_append_right _ List.mem_cons_self
  exact hclient (List.mem_singleton.mp hmem)

theorem other_absent {param : Param} (hparam : param ∈ own ++ [glued]) : param.1 ∉ otherNames := by
  intro hother
  rw [← otherParams_names redirectUri pkce] at hother
  obtain ⟨engine, hengine, hsame⟩ := List.mem_map.mp hother
  have hone := honce.once engine (List.mem_cons_of_mem _ hengine)
  rw [filter_behind, filter_later_other hengine, ← List.append_assoc, ← List.filter_append] at hone
  have hfound : param ∈ (own ++ [glued]).filter (hasName engine.1) :=
    List.mem_filter.mpr ⟨hparam, beq_iff_eq.mpr hsame.symm⟩
  have hlength := congrArg List.length hone
  have hpos := List.length_pos_of_mem hfound
  simp only [List.length_append, List.length_singleton] at hlength
  omega

theorem named_before {param : Param} (hparam : param ∈ own ++ [glued])
    (hreserved : isReservedAuthorizeParam param.1 = true) :
    param.1 = "client_id".toList ∨ param.1 = scopeName := by
  have hmem : param ∈ own ++ glued :: laterParams redirectUri scope pkce extraParams := by
    rcases List.mem_append.mp hparam with hmem | hmem
    · exact List.mem_append_left _ hmem
    · rw [List.mem_singleton.mp hmem]
      exact List.mem_append_right _ List.mem_cons_self
  rcases honce.reserved param hmem hreserved with hname | hname
  · rcases List.mem_cons.mp hname with hname | hname
    · exact .inl hname
    · exact absurd hname (other_absent honce hparam)
  · exact .inr hname

end

section
variable (hname : last = [glued.1] ∨ (last = [] ∧ '?' ∈ glued.1))
include hname

theorem glued_reserved (h : isReservedAuthorizeParam glued.1 = true) : last = [glued.1] := by
  rcases hname with hlast | ⟨-, hquestion⟩
  · exact hlast
  · rw [question_free hquestion] at h
    cases h

/-- A reserved name is that of the glued pair as often as it is the last one. -/
theorem filter_glued (hreserved : isReservedAuthorizeParam name = true) :
    ([glued].filter (hasName name)).length = last.count name := by
  by_cases hglued : glued.1 = name
  · have hlast := glued_reserved hname (hglued ▸ hreserved)
    have hpos : hasName name glued = true := beq_iff_eq.mpr hglued
    rw [List.filter_cons_of_pos hpos, hlast, hglued, List.count_singleton_self]
    rfl
  · have hneg : ¬ hasName name glued = true := fun h => hglued (beq_iff_eq.mp h)
    rw [List.filter_cons_of_neg hneg, List.filter_nil, List.length_nil, eq_comm,
      List.count_eq_zero]
    intro hmem
    rcases hname with hlast | ⟨hlast, -⟩
    · rw [hlast] at hmem
      exact hglued (List.mem_singleton.mp hmem).symm
    · rw [hlast] at hmem
      cases hmem

/-- The scopes of a glued query are those before it and the one that is asked for. -/
theorem scopes_length :
    ((own ++ glued :: laterParams redirectUri scope pkce extraParams).filter (hasName scopeName)).length =
      (own.filter (hasName scopeName)).length + last.count scopeName + (scopeParams scope).length := by
  have hreserved : isReservedAuthorizeParam scopeName = true := by decide
  rw [filter_behind, filter_later_scope, List.length_append, List.length_append,
    filter_glued hname hreserved, Nat.add_assoc]

theorem ownFits_of_carries (hclient : glued ≠ clientParam clientId)
    (honce : CarriesOnce (engineParams clientId redirectUri pkce) extraParams
      (own ++ glued :: laterParams redirectUri scope pkce extraParams)) :
    OwnFits clientId scope own last where
  client := by
    have hneg : ¬ hasName "client_id".toList glued = true :=
      fun h => glued_ne_client honce hclient (beq_iff_eq.mp h)
    have hfirst := first_client honce
    rwa [List.filter_cons_of_neg hneg, List.filter_nil, List.append_nil] at hfirst
  named := fun param hparam => named_before honce (List.mem_append_left _ hparam)
  lastNamed := by
    intro name hmem hreserved
    rcases hname with hlast | ⟨hlast, -⟩
    · rw [hlast] at hmem
      rw [List.mem_singleton.mp hmem] at hreserved ⊢
      have hbefore := named_before honce (List.mem_append_right _ List.mem_cons_self) hreserved
      exact hbefore.resolve_left (glued_ne_client honce hclient)
    · rw [hlast] at hmem
      cases hmem
  scope := scopes_length hname ▸ honce.scope

section
variable (hfits : OwnFits clientId scope own last)
include hfits

theorem glued_scope (hreserved : isReservedAuthorizeParam glued.1 = true) : glued.1 = scopeName := by
  refine hfits.lastNamed glued.1 ?_ hreserved
  rw [glued_reserved hname hreserved]
  exact List.mem_cons_self

theorem filter_glued_other (hreserved : isReservedAuthorizeParam name = true) (hne : name ≠ scopeName) :
    [glued].filter (hasName name) = [] := by
  refine filter_absent fun param hparam => ?_
  rw [List.mem_singleton.mp hparam]
  rintro rfl
  exact hne (glued_scope hname hfits hreserved)

theorem carries_of_ownFits : CarriesOnce (engineParams clientId redirectUri pkce) extraParams
    (own ++ glued :: laterParams redirectUri scope pkce extraParams) where
  once := by
    intro param hparam
    rcases List.mem_cons.mp hparam with rfl | hparam
    · rw [clientParam_name, filter_behind, hfits.client, filter_later_client,
        filter_glued_other hname hfits (by decide) (by decide)]
      rfl
    · obtain ⟨hreserved, hnotScope, hnotClient⟩ := otherParams_reserved hparam
      have hnone : own.filter (hasName param.1) = [] := by
        refine filter_absent fun other hother heq => ?_
        rcases hfits.named other hother (heq ▸ hreserved) with hnamed | hnamed
        · exact hnotClient (heq ▸ hnamed)
        · exact hnotScope (heq ▸ hnamed)
      rw [filter_behind, hnone, filter_glued_other hname hfits hreserved hnotScope,
        filter_later_other hparam]
      rfl
  scope := (scopes_length hname).symm ▸ hfits.scope
  extras := by
    intro param hparam hfree
    exact List.mem_append_right _ (List.mem_cons_of_mem _ (mem_later_extra hparam hfree))
  reserved := by
    intro param hparam hreserved
    rcases List.mem_append.mp hparam with hparam | hparam
    · rcases hfits.named param hparam hreserved with hnamed | hnamed
      · rw [hnamed]
        exact .inl List.mem_cons_self
      · exact .inr hnamed
    · rcases List.mem_cons.mp hparam with rfl | hparam
      · exact .inr (glued_scope hname hfits hreserved)
      · rcases later_reserved hparam hreserved with hnamed | hnamed
        · exact .inl (List.mem_cons_of_mem _ hnamed)
        · exact .inr hnamed

end

theorem carriesOnce_glued (hclient : glued ≠ clientParam clientId) :
    CarriesOnce (engineParams clientId redirectUri pkce) extraParams
      (own ++ glued :: laterParams redirectUri scope pkce extraParams) ↔
        OwnFits clientId scope own last :=
  ⟨ownFits_of_carries hname hclient, carries_of_ownFits hname⟩

end

end

/-- No query and no fragment; or an own query that fits; or a fragment, and an own query that
is one of the engine's already. -/
def QueryFits (authorizeUrl clientId redirectUri : List Char) (scope : Option (List Char))
    (pkce : PkceChallenge) (extraParams : List Param) : Prop :=
  if '#' ∈ urlText authorizeUrl then
    CarriesOnce (engineParams clientId redirectUri pkce) extraParams
      (formParams (urlQuery authorizeUrl))
  else if '?' ∈ urlText authorizeUrl then
    OwnFits clientId scope (ownParams authorizeUrl) (lastName authorizeUrl)
  else True

theorem carriesOnce_iff (authorizeUrl clientId redirectUri : List Char) (scope : Option (List Char))
    (pkce : PkceChallenge) (extraParams : List Param) :
    CarriesOnce (engineParams clientId redirectUri pkce) extraParams (formParams (urlQuery
        (buildAuthUrl authorizeUrl clientId redirectUri scope pkce extraParams))) ↔
      QueryFits authorizeUrl clientId redirectUri scope pkce extraParams := by
  have hplain := queryText_urlPlain keptByte_safe
    (clientParam clientId :: laterParams redirectUri scope pkce extraParams)
  have hlater : laterParams redirectUri scope pkce extraParams ≠ [] := List.cons_ne_nil _ _
  rw [buildAuthUrl_eq, QueryFits]
  split
  · rw [urlQuery_fragment hplain ‹_›]
  · split
    · rw [urlQuery_second hplain ‹_› ‹_›, formParams_behind keptByte_safe _ hlater]
      exact carriesOnce_glued (gluedParam_name authorizeUrl clientId)
        (gluedParam_ne_client authorizeUrl clientId)
    · rw [urlQuery_first hplain ‹_› ‹_›,
        formParams_queryText keptByte_safe (List.cons_ne_nil _ _)]
      exact iff_of_true carriesOnce_engine trivial

end Wiremux.AuthorizeUrls
