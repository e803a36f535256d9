import Wiremux.IniSections

set_option autoImplicit false

/-!
# Keys of a shared profile

`merged_profile_section` fills the section of the credentials file with the keys that
only the config file has, and static keys are read from the result.
-/
namespace Wiremux.SharedProfiles
open IniSections

inductive File
  | credentials
  | config
deriving DecidableEq

/-- An entry with the file it comes from. -/
structure Held where
  file : File
  entry : Entry

def profileName (name : Text) : Text := "profile ".toList ++ name

def credsSection (name text : Text) : Option (List Entry) :=
  iniSection text name <|> iniSection text (profileName name)

def configSection (name text : Text) : Option (List Entry) :=
  iniSection text (profileName name) <|> iniSection text name

def held (file : File) (entries : List Entry) : List Held := entries.map (Held.mk file)

def fill (first second : List Entry) : List Held :=
  held .credentials first ++
    held .config (second.filter fun entry => first.all fun other => other.key ≠ entry.key)

def mergedProfileSection (creds config : Option Text) (name : Text) : Option (List Held) :=
  match creds.bind (credsSection name), config.bind (configSection name) with
  | none, none => none
  | some first, none => some (held .credentials first)
  | none, some second => some (held .config second)
  | some first, some second => some (fill first second)

def findKey (key : String) (entries : List Held) : Option Held :=
  entries.find? fun item => item.entry.key = key.toList

/-- The keys of `AwsCredentials`, each with its place. -/
structure StaticKeys where
  access : Held
  secret : Held
  token : Option Held

def accessKey : String := "aws_access_key_id"

def secretKey : String := "aws_secret_access_key"

def tokenKey : String := "aws_session_token"

def nonBlank (item : Held) : Bool := !item.entry.value.isEmpty

def staticKeysFromSection (entries : List Held) : Option StaticKeys := do
  let access ← (findKey accessKey entries).filter nonBlank
  let secret ← (findKey secretKey entries).filter nonBlank
  some { access, secret, token := findKey tokenKey entries }

/-- The part of `creds_from_shared_profile` that returns static keys. -/
def sharedStaticKeys (creds config : Option Text) (name : Text) : Option StaticKeys :=
  (mergedProfileSection creds config name).bind staticKeysFromSection

def sectionOf (text : Text) (row : ℕ) : Option Text := sectionAt headerName ((lines text).take row)

/-- Each key that is returned stands in the wanted section. -/
def KeysInSection (text name : Text) : Prop :=
  ∀ out, iniSection text name = some out →
    ∀ entry ∈ out, sectionOf text entry.row = some (UpstreamUrls.trim name)

def textOf (creds config : Option Text) : File → Option Text
  | .credentials => creds
  | .config => config

/-- The file of an item, and the section that its line stands in. -/
def place (creds config : Option Text) (item : Held) : File × Option (Option Text) :=
  (item.file, (textOf creds config item.file).map fun text => sectionOf text item.entry.row)

/-- The keys of a text are in their sections, by either spelling of the name, and
static keys have one place. -/
structure FromOneSection (creds config : Option Text) (name : Text) : Prop where
  sections : ∀ file, ∀ text ∈ textOf creds config file,
    KeysInSection text name ∧ KeysInSection text (profileName name)
  keys : ∀ keys, sharedStaticKeys creds config name = some keys →
    place creds config keys.secret = place creds config keys.access ∧
    ∀ token ∈ keys.token, place creds config token = place creds config keys.access

/-- Before the last line of each key of a section, the header is read as it is, or names
that section. -/
def HeadersRead (text name : Text) : Prop :=
  ∀ entry, LastKey (UpstreamUrls.trim name) (lines text) entry →
    ∀ header ∈ lastHeader ((lines text).take entry.row),
      HeaderRead (UpstreamUrls.trim name) header

def hasKey (key : String) (entries : Option (List Entry)) : Prop :=
  ∃ entry ∈ entries.getD [], entry.key = key.toList

/-- A key with a value, in the first section that has it. -/
def given (key : String) (first second : Option (List Entry)) : Prop :=
  ∃ entry, ((first.getD []).find? (·.key = key.toList) <|>
    (second.getD []).find? (·.key = key.toList)) = some entry ∧ entry.value ≠ []

/-- The section of the credentials file has both keys or none, and it has a session
token exactly when it has the keys, if there is a token at all. -/
def OneFile (first second : Option (List Entry)) : Prop :=
  given accessKey first second → given secretKey first second →
    (hasKey secretKey first ↔ hasKey accessKey first) ∧
    (hasKey tokenKey first ∨ hasKey tokenKey second →
      (hasKey tokenKey first ↔ hasKey accessKey first))

variable {creds config : Option Text} {name : Text}

theorem keysInSection_iff (text name : Text) : KeysInSection text name ↔ HeadersRead text name := by
  constructor
  · intro h entry hlast
    cases hout : iniSection text name with
    | none => exact absurd hlast (iniSection_none hout entry)
    | some out =>
      exact (section_iff hlast.1).mp (h out hout entry ((mem_iniSection hout entry).mpr hlast))
  · intro h out hout entry hentry
    have hlast := (mem_iniSection hout entry).mp hentry
    exact (section_iff hlast.1).mpr (h entry hlast)

def merged (first second : Option (List Entry)) : List Held := fill (first.getD []) (second.getD [])

theorem fill_nil (second : List Entry) : fill [] second = held .config second := by
  rw [fill, List.filter_eq_self.mpr]
  · rfl
  · exact fun _ _ => rfl

theorem mergedProfileSection_some {entries : List Held}
    (h : mergedProfileSection creds config name = some entries) :
    entries = merged (creds.bind (credsSection name)) (config.bind (configSection name)) := by
  unfold mergedProfileSection at h
  split at h
  · cases h
  · rename_i first hfirst hsecond
    cases h
    rw [hfirst, hsecond]
    change _ = held .credentials first ++ []
    rw [List.append_nil]
  · rename_i second hfirst hsecond
    cases h
    rw [hfirst, hsecond]
    exact (fill_nil second).symm
  · rename_i first second hfirst hsecond
    cases h
    rw [hfirst, hsecond]
    rfl

theorem mergedProfileSection_none (h : mergedProfileSection creds config name = none) :
    creds.bind (credsSection name) = none ∧ config.bind (configSection name) = none := by
  unfold mergedProfileSection at h
  split at h
  · rename_i hfirst hsecond
    exact ⟨hfirst, hsecond⟩
  all_goals cases h

theorem findKey_held (key : String) (file : File) (entries : List Entry) :
    findKey key (held file entries) =
      (entries.find? (·.key = key.toList)).map (Held.mk file) := by
  rw [findKey, held, List.find?_map]
  rfl

theorem findKey_merged (key : String) (first second : Option (List Entry)) :
    findKey key (merged first second) =
      (((first.getD []).find? (·.key = key.toList)).map (Held.mk .credentials)).or
        (((second.getD []).find? (·.key = key.toList)).map (Held.mk .config)) := by
  unfold merged fill
  generalize first.getD [] = front
  generalize second.getD [] = back
  rw [findKey, List.find?_append]
  change (findKey key (held .credentials front)).or (findKey key (held .config _)) = _
  rw [findKey_held, findKey_held]
  cases hfront : front.find? (·.key = key.toList) with
  | some entry => rfl
  | none =>
    have hnone : ∀ other ∈ front, other.key ≠ key.toList := by
      simpa using hfront
    have hfind : (back.filter fun entry => front.all fun other => other.key ≠ entry.key).find?
        (·.key = key.toList) = back.find? (·.key = key.toList) := by
      rw [List.find?_filter]
      refine congrArg (fun p => List.find? p back) (funext fun entry => ?_)
      by_cases hkey : entry.key = key.toList
      · simpa [hkey] using hnone
      · simp [hkey]
    rw [hfind]

theorem hasKey_iff (key : String) (entries : Option (List Entry)) :
    hasKey key entries ↔ ((entries.getD []).find? (·.key = key.toList)).isSome = true := by
  rw [List.find?_isSome]
  simp [hasKey]

theorem file_findKey {key : String} {first second : Option (List Entry)} {item : Held}
    (h : findKey key (merged first second) = some item) :
    item.file = .credentials ↔ hasKey key first := by
  rw [findKey_merged] at h
  rw [hasKey_iff]
  cases hfirst : (first.getD []).find? (·.key = key.toList) with
  | some entry =>
    rw [hfirst] at h
    cases h
    exact iff_of_true rfl rfl
  | none =>
    rw [hfirst] at h
    change ((second.getD []).find? _).map _ = some item at h
    obtain ⟨entry, _, rfl⟩ := Option.map_eq_some_iff.mp h
    exact iff_of_false (fun h => by cases h) Bool.false_ne_true

theorem findKey_isSome (key : String) (first second : Option (List Entry)) :
    (findKey key (merged first second)).isSome = true ↔ hasKey key first ∨ hasKey key second := by
  rw [findKey_merged, hasKey_iff, hasKey_iff]
  cases (first.getD []).find? (·.key = key.toList) <;>
    cases (second.getD []).find? (·.key = key.toList) <;> simp

theorem given_iff (key : String) (first second : Option (List Entry)) :
    given key first second ↔
      ∃ item, (findKey key (merged first second)).filter nonBlank = some item := by
  have hblank : ∀ item : Held, nonBlank item = true ↔ item.entry.value ≠ [] := by
    intro item
    unfold nonBlank
    cases item.entry.value <;> simp
  rw [findKey_merged]
  unfold given
  cases (first.getD []).find? (·.key = key.toList) with
  | some entry =>
    constructor
    · rintro ⟨_, hentry, hvalue⟩
      cases hentry
      exact ⟨_, Option.filter_eq_some_iff.mpr ⟨rfl, (hblank _).mpr hvalue⟩⟩
    · rintro ⟨item, hitem⟩
      obtain ⟨hsome, hvalue⟩ := Option.filter_eq_some_iff.mp hitem
      cases hsome
      exact ⟨entry, rfl, (hblank _).mp hvalue⟩
  | none =>
    cases (second.getD []).find? (·.key = key.toList) with
    | none =>
      constructor
      · rintro ⟨_, hentry, _⟩
        cases hentry
      · rintro ⟨_, hitem⟩
        cases hitem
    | some entry =>
      constructor
      · rintro ⟨_, hentry, hvalue⟩
        cases hentry
        exact ⟨_, Option.filter_eq_some_iff.mpr ⟨rfl, (hblank _).mpr hvalue⟩⟩
      · rintro ⟨item, hitem⟩
        obtain ⟨hsome, hvalue⟩ := Option.filter_eq_some_iff.mp hitem
        cases hsome
        exact ⟨entry, rfl, (hblank _).mp hvalue⟩

theorem mem_of_findKey {key : String} {entries : List Held} {item : Held}
    (h : findKey key entries = some item) : item ∈ entries := List.mem_of_find?_eq_some h

theorem staticKeys_eq {entries : List Held} {keys : StaticKeys}
    (h : staticKeysFromSection entries = some keys) :
    (findKey accessKey entries).filter nonBlank = some keys.access ∧
      (findKey secretKey entries).filter nonBlank = some keys.secret ∧
      findKey tokenKey entries = keys.token := by
  unfold staticKeysFromSection at h
  obtain ⟨access, haccess, hrest⟩ := Option.bind_eq_some_iff.mp h
  obtain ⟨secret, hsecret, hkeys⟩ := Option.bind_eq_some_iff.mp hrest
  cases hkeys
  exact ⟨haccess, hsecret, rfl⟩

theorem staticKeys_some {entries : List Held} {access secret : Held}
    (haccess : (findKey accessKey entries).filter nonBlank = some access)
    (hsecret : (findKey secretKey entries).filter nonBlank = some secret) :
    staticKeysFromSection entries = some ⟨access, secret, findKey tokenKey entries⟩ := by
  unfold staticKeysFromSection
  rw [haccess, hsecret]
  rfl

theorem sharedStaticKeys_eq (creds config : Option Text) (name : Text) :
    sharedStaticKeys creds config name = staticKeysFromSection
      (merged (creds.bind (credsSection name)) (config.bind (configSection name))) := by
  unfold sharedStaticKeys
  cases h : mergedProfileSection creds config name with
  | none =>
    obtain ⟨hfirst, hsecond⟩ := mergedProfileSection_none h
    rw [hfirst, hsecond]
    rfl
  | some entries =>
    rw [← mergedProfileSection_some h]
    rfl

theorem mem_merged {first second : Option (List Entry)} {item : Held}
    (h : item ∈ merged first second) :
    (item.file = .credentials ∧ item.entry ∈ first.getD []) ∨
      (item.file = .config ∧ item.entry ∈ second.getD []) := by
  rcases List.mem_append.mp h with h | h
  · obtain ⟨entry, hentry, rfl⟩ := List.mem_map.mp h
    exact .inl ⟨rfl, hentry⟩
  · obtain ⟨entry, hentry, rfl⟩ := List.mem_map.mp h
    exact .inr ⟨rfl, (List.mem_filter.mp hentry).1⟩

theorem one_section {text : Text} {other : Text} {out : List Entry}
    (hsections : KeysInSection text name ∧ KeysInSection text other)
    (h : (iniSection text name <|> iniSection text other) = some out) :
    ∃ want, ∀ entry ∈ out, sectionOf text entry.row = some want := by
  cases hname : iniSection text name with
  | some found =>
    rw [hname] at h
    cases h
    exact ⟨_, hsections.1 _ hname⟩
  | none =>
    rw [hname] at h
    exact ⟨_, hsections.2 _ h⟩

theorem place_eq (hsections : ∀ file, ∀ text ∈ textOf creds config file,
      KeysInSection text name ∧ KeysInSection text (profileName name)) {item other : Held}
    (hitem : item ∈ merged (creds.bind (credsSection name)) (config.bind (configSection name)))
    (hother : other ∈ merged (creds.bind (credsSection name)) (config.bind (configSection name)))
    (hfile : item.file = other.file) : place creds config item = place creds config other := by
  rcases mem_merged hitem with ⟨hi, hmemi⟩ | ⟨hi, hmemi⟩
  · rcases mem_merged hother with ⟨ho, hmemo⟩ | ⟨ho, _⟩
    · cases hcreds : creds with
      | none =>
        rw [hcreds] at hmemi
        cases hmemi
      | some text =>
        rw [hcreds, Option.bind_some] at hmemi hmemo
        cases hout : credsSection name text with
        | none =>
          rw [hout] at hmemi
          cases hmemi
        | some out =>
          rw [hout] at hmemi hmemo
          obtain ⟨want, hwant⟩ := one_section (hsections .credentials text hcreds) hout
          unfold place
          rw [hi, ho]
          change (_, some (sectionOf text item.entry.row)) = (_, some (sectionOf text other.entry.row))
          rw [hwant _ hmemi, hwant _ hmemo]
    · rw [hi, ho] at hfile
      cases hfile
  · rcases mem_merged hother with ⟨ho, _⟩ | ⟨ho, hmemo⟩
    · rw [hi, ho] at hfile
      cases hfile
    · cases hconfig : config with
      | none =>
        rw [hconfig] at hmemi
        cases hmemi
      | some text =>
        rw [hconfig, Option.bind_some] at hmemi hmemo
        cases hout : configSection name text with
        | none =>
          rw [hout] at hmemi
          cases hmemi
        | some out =>
          rw [hout] at hmemi hmemo
          obtain ⟨want, hwant⟩ := one_section (hsections .config text hconfig).symm hout
          unfold place
          rw [hi, ho]
          change (_, some (sectionOf text item.entry.row)) = (_, some (sectionOf text other.entry.row))
          rw [hwant _ hmemi, hwant _ hmemo]

theorem file_eq_iff (item other : Held) :
    item.file = other.file ↔ (item.file = .credentials ↔ other.file = .credentials) := by
  cases item.file <;> cases other.file <;> decide

/-- Static keys come from one section of one file exactly when the headers are read and
the credentials file alone has, or has not, all of them. -/
theorem one_section_iff (creds config : Option Text) (name : Text) :
    FromOneSection creds config name ↔
      (∀ file, ∀ text ∈ textOf creds config file,
        HeadersRead text name ∧ HeadersRead text (profileName name)) ∧
      OneFile (creds.bind (credsSection name)) (config.bind (configSection name)) := by
  have hkeys := sharedStaticKeys_eq creds config name
  constructor
  · intro h
    refine ⟨fun file text htext => ?_, ?_⟩
    · rw [← keysInSection_iff, ← keysInSection_iff]
      exact h.sections file text htext
    · intro haccess hsecret
      obtain ⟨access, haccess⟩ := (given_iff _ _ _).mp haccess
      obtain ⟨secret, hsecret⟩ := (given_iff _ _ _).mp hsecret
      have hfrom := h.keys _ (hkeys.trans (staticKeys_some haccess hsecret))
      have ha := file_findKey (Option.filter_eq_some_iff.mp haccess).1
      have hs := file_findKey (Option.filter_eq_some_iff.mp hsecret).1
      refine ⟨?_, fun htoken => ?_⟩
      · rw [← ha, ← hs]
        exact (file_eq_iff _ _).mp (congrArg Prod.fst hfrom.1)
      · obtain ⟨token, hsome⟩ := Option.isSome_iff_exists.mp ((findKey_isSome _ _ _).mpr htoken)
        rw [← ha, ← file_findKey hsome]
        exact (file_eq_iff _ _).mp (congrArg Prod.fst (hfrom.2 token hsome))
  · rintro ⟨hheaders, hone⟩
    have hsections : ∀ file, ∀ text ∈ textOf creds config file,
        KeysInSection text name ∧ KeysInSection text (profileName name) := by
      intro file text htext
      rw [keysInSection_iff, keysInSection_iff]
      exact hheaders file text htext
    refine ⟨hsections, fun keys h => ?_⟩
    rw [hkeys] at h
    obtain ⟨haccess, hsecret, htoken⟩ := staticKeys_eq h
    obtain ⟨hboth, hthird⟩ := hone ((given_iff _ _ _).mpr ⟨_, haccess⟩)
      ((given_iff _ _ _).mpr ⟨_, hsecret⟩)
    have hfindAccess := (Option.filter_eq_some_iff.mp haccess).1
    have hfindSecret := (Option.filter_eq_some_iff.mp hsecret).1
    refine ⟨?_, fun token hsome => ?_⟩
    · refine place_eq hsections (mem_of_findKey hfindSecret) (mem_of_findKey hfindAccess) ?_
      rw [file_eq_iff, file_findKey hfindSecret, file_findKey hfindAccess]
      exact hboth
    · have hfindToken := htoken.trans hsome
      refine place_eq hsections (mem_of_findKey hfindToken) (mem_of_findKey hfindAccess) ?_
      rw [file_eq_iff, file_findKey hfindToken, file_findKey hfindAccess]
      refine hthird ((findKey_isSome _ _ _).mp ?_)
      rw [hfindToken]
      rfl

def commentedFile : Text := "[a]\nregion = x\n[b] # other\naws_access_key_id = AKIA".toList

theorem commented_header_missed : ¬ ∀ creds config name, FromOneSection creds config name := by
  intro h
  have hkeys := ((h (some commentedFile) none "a".toList).sections .credentials commentedFile rfl).1
  have hout : iniSection commentedFile "a".toList = some
      [⟨"region".toList, "x".toList, 1⟩, ⟨accessKey.toList, "AKIA".toList, 3⟩] := by
    decide +kernel
  have hsection : sectionOf commentedFile 3 = some "a".toList :=
    hkeys _ hout _ (List.mem_cons_of_mem _ List.mem_cons_self)
  have hother : sectionOf commentedFile 3 = some "b".toList := by decide +kernel
  rw [hother] at hsection
  cases hsection

end Wiremux.SharedProfiles
