import Wiremux.CatalogUrls

set_option autoImplicit false

/-!
# Profiles of a vendor catalog

The rows of a public catalog, and the profile text that is written for a row. Only an id
of lower-case letters, digits and hyphens gets one.
-/
namespace Wiremux.CatalogProfiles
open JsonValue (Value)
open UpstreamUrls CatalogUrls

structure CatalogVendor where
  id : List Char
  displayName : List Char
  api : Option (List Char)
  env : List (List Char)
  npm : Option (List Char)
deriving DecidableEq

inductive CatalogKind where
  | modelsDev | liteLlm
deriving DecidableEq

def vendorErr (id reason : List Char) : List Char := id ++ (": ".toList ++ reason)

def strOf (row : Value) (key : String) : Option (List Char) :=
  ((row.get? key).bind Value.asStr?).map String.toList

def nonBlank (text : List Char) : Option (List Char) :=
  if (trim text).isEmpty then none else some (trim text)

def envNames (row : Value) : List (List Char) :=
  match row.get? "env" with
  | some (.array items) => (items.filterMap fun item => item.asStr?.map String.toList).filter (!·.isEmpty)
  | some (.string s) => if s.toList.isEmpty then [] else [s.toList]
  | _ => []

def modelsDevRow (key : String) (row : Value) : CatalogVendor :=
  let id := (strOf row "id").getD key.toList
  { id := id
    displayName := (strOf row "name").getD id
    api := (strOf row "api").bind nonBlank
    env := envNames row
    npm := (strOf row "npm").bind nonBlank }

def liteLlmRow (key : String) (row : Value) : CatalogVendor where
  id := key.toList
  displayName := key.toList
  api := (strOf row "base_url").bind nonBlank
  env := (((strOf row "api_key_env").bind nonBlank).map fun name => [name]).getD []
  npm := none

def rowsOf (make : String → Value → CatalogVendor) (fields : List (String × Value)) :
    List CatalogVendor :=
  fields.filterMap fun field => if field.2.isObject then some (make field.1 field.2) else none

def parseModelsDev : Value → Except (List Char) (List CatalogVendor)
  | .object fields => .ok (rowsOf modelsDevRow fields)
  | _ => .error "models.dev catalog must be a JSON object".toList

def parseLiteLlm : Value → Except (List Char) (List CatalogVendor)
  | .object fields => .ok (rowsOf liteLlmRow fields)
  | _ => .error "LiteLLM providers.json must be a JSON object".toList

def parseCatalog (fromStr : List Char → Except (List Char) Value) (kind : CatalogKind)
    (text : List Char) : Except (List Char) (List CatalogVendor) :=
  match fromStr text with
  | .error e => .error ("catalog is not JSON: ".toList ++ e)
  | .ok value =>
    match kind with
    | .modelsDev => parseModelsDev value
    | .liteLlm => parseLiteLlm value

structure ProfileDraft where
  wire : EmitWire
  baseUrl : List Char
  chatPath : List Char
  authScheme : List Char
  accessEnv : List (List Char)
  headers : List (List Char × List Char)
  extraBody : List (List Char × List Char)
  awsService : Option (List Char)
  awsRegion : Option (List Char)
  gcpKeyEnv : Option (List Char)

def skipReasonOpt (id : List Char) : Option (List Char) :=
  if id == "github-copilot".toList || contains "copilot".toList id then
    some "subscription / product-terms host; no shipped Copilot preset".toList
  else none

def openaiCompatNpms : List (List Char) :=
  ["@ai-sdk/openai-compatible", "@ai-sdk/openai", "@ai-sdk/groq", "@ai-sdk/togetherai",
    "@ai-sdk/mistral", "@ai-sdk/cerebras", "@ai-sdk/perplexity", "@ai-sdk/xai", "@ai-sdk/deepinfra",
    "@openrouter/ai-sdk-provider", "@ai-sdk/cohere"].map String.toList

def openaiCompatNpm (npm : List Char) : Bool := openaiCompatNpms.contains npm

def openaiCompatRow (vendor : CatalogVendor) : Bool :=
  if "azure".toList.isPrefixOf vendor.id || vendor.id == "amazon-bedrock".toList ||
      "google-vertex".toList.isPrefixOf vendor.id then false
  else match vendor.npm with
    | some npm => openaiCompatNpm npm
    | none => true

def emitWire (vendor : CatalogVendor) : Except (List Char) EmitWire :=
  match vendor.npm with
  | none => .ok .chatCompletions
  | some npm =>
    if npm == "@ai-sdk/anthropic".toList then .ok .messages
    else if npm == "@ai-sdk/google".toList then .ok .gemini
    else if npm == "@ai-sdk/cohere".toList then .ok .chatCompletions
    else if openaiCompatNpm npm then .ok .chatCompletions
    else .error (vendorErr vendor.id
      ("npm package `".toList ++ (npm ++ "` is not a known HTTP dialect".toList)))

/-- A package, the ids that go with it, and its API root. -/
def wellKnownApis : List (String × List String × String) :=
  [("@ai-sdk/groq", ["groq"], "https://api.groq.com/openai/v1"),
    ("@ai-sdk/togetherai", ["togetherai", "together"], "https://api.together.xyz/v1"),
    ("@ai-sdk/mistral", ["mistral"], "https://api.mistral.ai/v1"),
    ("@ai-sdk/cerebras", ["cerebras"], "https://api.cerebras.ai/v1"),
    ("@ai-sdk/perplexity", ["perplexity"], "https://api.perplexity.ai"),
    ("@ai-sdk/xai", ["xai"], "https://api.x.ai/v1"),
    ("@ai-sdk/deepinfra", ["deepinfra"], "https://api.deepinfra.com/v1"),
    ("@ai-sdk/cohere", ["cohere"], "https://api.cohere.ai/compatibility/v1")]

def wellKnownApi (id : List Char) (npm : Option (List Char)) : Option (List Char) :=
  (wellKnownApis.find? fun row =>
    npm == some row.1.toList || (row.2.1.map String.toList).contains id).map fun row => row.2.2.toList

def endpointFor (vendor : CatalogVendor) (wire : EmitWire) :
    Except (List Char) (List Char × List Char) :=
  match (vendor.api.bind nonBlank).orElse fun _ => wellKnownApi vendor.id vendor.npm with
  | none => .error (vendorErr vendor.id
      "no api URL in catalog and no well-known OpenAI-compat endpoint".toList)
  | some raw => (splitOpenaiCompatApi (rewriteCatalogPlaceholders raw) wire).mapError
      (vendorErr vendor.id)

def dropUrlPlaceholderEnv (env : List (List Char)) (baseUrl chatPath : List Char) :
    List (List Char) :=
  env.filter fun name => !contains (envMark ++ (name ++ ['\x7d'])) (baseUrl ++ chatPath)

def azureDraft (vendor : CatalogVendor) : Except (List Char) ProfileDraft :=
  match vendor.env.find? (contains "RESOURCE_NAME".toList) with
  | none => .error (vendorErr vendor.id "catalog env has no RESOURCE_NAME".toList)
  | some resource =>
    let key := (vendor.env.find? fun name =>
      "API_KEY".toList.isSuffixOf name || "_KEY".toList.isSuffixOf name).getD "AZURE_API_KEY".toList
    .ok
      { wire := .chatCompletions
        baseUrl := "https://\x7benv:".toList ++ (resource ++ "\x7d.openai.azure.com".toList)
        chatPath :=
          "/openai/deployments/{model}/chat/completions?api-version=2024-10-21".toList
        authScheme := "header:api-key".toList
        accessEnv := [key]
        headers := []
        extraBody := []
        awsService := none
        awsRegion := none
        gcpKeyEnv := none }

def requireVertexProject (vendor : CatalogVendor) : Except (List Char) Unit :=
  if vendor.env.any (fun name => name == "GOOGLE_VERTEX_PROJECT".toList ||
      contains "PROJECT".toList name) then .ok ()
  else .error (vendorErr vendor.id "catalog env has no GOOGLE_VERTEX_PROJECT".toList)

def vertexAccessEnv (vendor : CatalogVendor) : List (List Char) :=
  "GOOGLE_OAUTH_ACCESS_TOKEN".toList :: vendor.env.filter fun name =>
    contains "API_KEY".toList name || contains "TOKEN".toList name

def vertexBaseUrl : List Char :=
  "https://\x7benv:GOOGLE_VERTEX_LOCATION\x7d-aiplatform.googleapis.com".toList

def vertexChatPath (publisher method : List Char) : List Char :=
  "/v1/projects/\x7benv:GOOGLE_VERTEX_PROJECT\x7d/locations/\x7benv:GOOGLE_VERTEX_LOCATION\x7d".toList ++
    ("/publishers/".toList ++ (publisher ++ ("/models/{model}:".toList ++ method)))

def anthropicVersion : List Char := "vertex-2023-10-16".toList

def vertexGeminiDraft (vendor : CatalogVendor) : Except (List Char) ProfileDraft :=
  (requireVertexProject vendor).map fun _ =>
    { wire := .gemini
      baseUrl := vertexBaseUrl
      chatPath := vertexChatPath "google".toList "generateContent".toList
      authScheme := "bearer".toList
      accessEnv := vertexAccessEnv vendor
      headers := []
      extraBody := []
      awsService := none
      awsRegion := none
      gcpKeyEnv := some "GOOGLE_APPLICATION_CREDENTIALS".toList }

def vertexAnthropicDraft (vendor : CatalogVendor) : Except (List Char) ProfileDraft :=
  (requireVertexProject vendor).map fun _ =>
    { wire := .messages
      baseUrl := vertexBaseUrl
      chatPath := vertexChatPath "anthropic".toList "rawPredict".toList
      authScheme := "bearer".toList
      accessEnv := vertexAccessEnv vendor
      headers := [("anthropic-version".toList, anthropicVersion)]
      extraBody := [("anthropic_version".toList, anthropicVersion)]
      awsService := none
      awsRegion := none
      gcpKeyEnv := some "GOOGLE_APPLICATION_CREDENTIALS".toList }

def dedup : List (List Char) → List (List Char)
  | [] => []
  | [name] => [name]
  | name :: next :: rest => if name = next then dedup (next :: rest) else name :: dedup (next :: rest)

def bedrockDraft (vendor : CatalogVendor) : ProfileDraft where
  wire := .converse
  baseUrl := "https://bedrock-runtime.\x7benv:AWS_REGION\x7d.amazonaws.com".toList
  chatPath := "/model/{model}/converse".toList
  authScheme := "bearer".toList
  accessEnv := dedup ("AWS_BEARER_TOKEN_BEDROCK".toList :: vendor.env.filter fun name =>
    contains "BEARER".toList name || contains "TOKEN".toList name)
  headers := []
  extraBody := []
  awsService := some "bedrock".toList
  awsRegion := some "\x7benv:AWS_REGION\x7d".toList
  gcpKeyEnv := none

/-- A row with an endpoint of its own, or a well-known one. -/
def compatDraft (vendor : CatalogVendor) (wire : EmitWire) (baseUrl chatPath : List Char) :
    ProfileDraft where
  wire := wire
  baseUrl := baseUrl
  chatPath := chatPath
  authScheme :=
    if wire == .messages && vendor.api.isSome then "bearer".toList else wire.authScheme
  accessEnv := dropUrlPlaceholderEnv vendor.env baseUrl chatPath
  headers := []
  extraBody := []
  awsService := none
  awsRegion := none
  gcpKeyEnv := none

def draftFor (vendor : CatalogVendor) : Except (List Char) ProfileDraft :=
  match skipReasonOpt vendor.id with
  | some reason => .error (vendorErr vendor.id reason)
  | none =>
    if vendor.id == "azure".toList || vendor.id == "azure-cognitive-services".toList then
      azureDraft vendor
    else if vendor.id == "google-vertex".toList then vertexGeminiDraft vendor
    else if vendor.id == "google-vertex-anthropic".toList then vertexAnthropicDraft vendor
    else if vendor.id == "amazon-bedrock".toList then .ok (bedrockDraft vendor)
    else do
      let wire ← emitWire vendor
      let (baseUrl, chatPath) ← endpointFor vendor wire
      return compatDraft vendor wire baseUrl chatPath

def isLowerOrDigit (c : Char) : Bool := ('a' ≤ c && c ≤ 'z') || isDigit c

def refuseBadId (id : List Char) : Except (List Char) Unit :=
  if id.isEmpty || (SseWriting.utf8 id).length > 64 then
    .error (vendorErr id "id must be 1..=64 characters".toList)
  else match id with
  | [] => .error (vendorErr id "empty id".toList)
  | first :: rest =>
    if !isLowerOrDigit first then .error (vendorErr id "id must start with [a-z0-9]".toList)
    else if !rest.all (fun c => isLowerOrDigit c || c == '-') then
      .error (vendorErr id "id must match [a-z0-9][a-z0-9-]*".toList)
    else .ok ()

def tomlChar : Char → List Char
  | '\\' => ['\\', '\\']
  | '"' => ['\\', '"']
  | '\n' => ['\\', 'n']
  | '\r' => ['\\', 'r']
  | '\t' => ['\\', 't']
  | c => [c]

def tomlString (s : List Char) : List Char := '"' :: (s.flatMap tomlChar ++ ['"'])

def tomlAccessEnv : List (List Char) → List Char
  | [name] => tomlString name
  | names => '[' :: ((", ".toList).intercalate (names.map tomlString) ++ [']'])

def tomlLine (key value : List Char) : List Char := key ++ (" = ".toList ++ (value ++ ['\n']))

def tomlOptional (key : List Char) (value : Option (List Char)) : List Char :=
  (value.map fun value => tomlLine key (tomlString value)).getD []

def tomlTable (header : List Char) (rows : List (List Char × List Char)) : List Char :=
  if rows.isEmpty then [] else header ++ rows.flatMap fun row => tomlLine row.1 (tomlString row.2)

def renderProfile (id display : List Char) (draft : ProfileDraft) : List Char :=
  "schema_version = 1\n".toList ++ (tomlLine "id".toList (tomlString id) ++
    (tomlLine "display_name".toList (tomlString display) ++
      (tomlLine "wire".toList (tomlString draft.wire.tomlName) ++
        (tomlLine "base_url".toList (tomlString draft.baseUrl) ++
          (tomlLine "chat_path".toList (tomlString draft.chatPath) ++
            (tomlLine "auth_scheme".toList (tomlString draft.authScheme) ++
              (tomlLine "access_env".toList (tomlAccessEnv draft.accessEnv) ++
                (tomlOptional "aws_service".toList draft.awsService ++
                  (tomlOptional "gcp_key_env".toList draft.gcpKeyEnv ++
                    (tomlOptional "aws_region".toList draft.awsRegion ++
                      (tomlTable "\n[headers]\n".toList draft.headers ++
                        tomlTable "\n[fingerprint.extra_body]\n".toList draft.extraBody)))))))))))

def profileToml (vendor : CatalogVendor) : Except (List Char) (List Char) := do
  let draft ← draftFor vendor
  refuseBadId vendor.id
  if draft.accessEnv.isEmpty then .error (vendorErr vendor.id "catalog row has no env key".toList)
  else
    let display := if (trim vendor.displayName).isEmpty then vendor.id else vendor.displayName
    return renderProfile vendor.id display draft

def GoodId (id : List Char) : Prop :=
  id ≠ [] ∧ ∀ c ∈ id, (isLowerOrDigit c || c == '-') = true

theorem refuseBadId_ok {id : List Char} {done : Unit} (h : refuseBadId id = .ok done) : GoodId id := by
  unfold refuseBadId at h
  split at h
  · cases h
  split at h
  · cases h
  rename_i first rest _
  split at h
  · cases h
  rename_i hfirst
  split at h
  · cases h
  rename_i hrest
  refine ⟨List.cons_ne_nil _ _, fun c hc => ?_⟩
  rcases List.mem_cons.mp hc with rfl | hc
  · simp only [Bool.not_eq_true', Bool.not_eq_false] at hfirst
    rw [hfirst, Bool.true_or]
  · simp only [Bool.not_eq_true', Bool.not_eq_false] at hrest
    exact List.all_eq_true.mp hrest c hc

theorem profileToml_id {vendor : CatalogVendor} {toml : List Char}
    (h : profileToml vendor = .ok toml) : GoodId vendor.id := by
  unfold profileToml at h
  cases hdraft : draftFor vendor with
  | error reason =>
    rw [hdraft] at h
    cases h
  | ok draft =>
    rw [hdraft] at h
    cases hid : refuseBadId vendor.id with
    | error reason =>
      change (refuseBadId vendor.id >>= _) = _ at h
      rw [hid] at h
      cases h
    | ok done => exact refuseBadId_ok hid

end Wiremux.CatalogProfiles
