import Wiremux.ProfileIngest

set_option autoImplicit false

/-!
# All or nothing

A call that fails before it renames leaves every profile as it was. One whose rename
fails has replaced the profiles before it, and nothing puts them back.
-/
namespace Wiremux.IngestAtomicity
open FileTree StagedCommit CatalogProfiles ProfileIngest

variable {env : Surroundings} {disk : Disk} {map : List CatalogVendor} {dir id : List Char}
  {req : IngestRequest} {plan plan' : Plan} {action : IngestAction} {body : Option (List Char)}
  {path : FilePath} {toml text : List Char} {index k : ℕ} {faults : StepFaults}
  {pending : List (FilePath × List Char)}

/-- A vendor of the catalog, and the text that is generated for it. -/
def TextOf (map : List CatalogVendor) (dir : List Char) (path : FilePath) (toml : List Char) : Prop :=
  ∃ id vendor, path = profilePath dir id ∧ rowOf map id = some vendor ∧ profileToml vendor = .ok toml

theorem rowOf_id {vendor : CatalogVendor} (h : rowOf map id = some vendor) : vendor.id = id := by
  have hid := List.find?_some h
  exact beq_iff_eq.mp hid

/-- A write is planned for a row of the catalog, with its text; the id can name a file. -/
theorem ingestOne_wrote (h : ingestOne env disk map id dir req = .ok (.wrote path, body)) :
    ∃ vendor toml, body = some toml ∧ path = profilePath dir id ∧ rowOf map id = some vendor ∧
      profileToml vendor = .ok toml ∧ GoodId id := by
  unfold ingestOne at h
  split at h
  · cases h
  split at h
  · cases h
  rename_i vendor hrow
  split at h
  · cases h
  cases htoml : profileToml vendor with
  | error reason =>
    rw [htoml] at h
    cases h
  | ok toml =>
    rw [htoml] at h
    cases hparse : env.parseProfileStr toml with
    | error reason =>
      change (Except.mapError _ (env.parseProfileStr toml) >>= _) = _ at h
      rw [hparse] at h
      cases h
    | ok done =>
      change (Except.mapError _ (env.parseProfileStr toml) >>= _) = _ at h
      rw [hparse] at h
      change (if (disk (profilePath dir id)).isSome && !req.force then _ else _) = _ at h
      split at h
      · cases h
      split at h
      · cases h
      cases h
      refine ⟨vendor, toml, rfl, rfl, hrow, htoml, ?_⟩
      rw [← rowOf_id hrow]
      exact profileToml_id htoml

/-- The actions that write are the pending files, each with the text of its vendor. -/
structure Planned (map : List CatalogVendor) (dir : List Char) (plan : Plan) : Prop where
  texts : ∀ write ∈ plan.pending, TextOf map dir write.1 write.2
  actions : ∀ path, .wrote path ∈ plan.actions ↔ path ∈ plan.pending.map Prod.fst

theorem planOne_planned (hplan : Planned map dir plan)
    (h : planOne env disk map dir req plan id = .ok plan') : Planned map dir plan' := by
  unfold planOne at h
  split at h
  · cases h
    exact ⟨hplan.texts, hplan.actions⟩
  · rename_i action hone
    cases h
    refine ⟨hplan.texts, fun path => ?_⟩
    rw [← hplan.actions path, List.mem_append, List.mem_singleton]
    constructor
    · rintro (hmem | rfl)
      · exact hmem
      · obtain ⟨_, _, hbody, -⟩ := ingestOne_wrote hone
        cases hbody
    · exact Or.inl
  · rename_i path toml hone
    cases h
    obtain ⟨vendor, toml', hbody, hpath, hrow, htoml, -⟩ := ingestOne_wrote hone
    cases hbody
    constructor
    · intro write hwrite
      rcases List.mem_append.mp hwrite with hwrite | hwrite
      · exact hplan.texts write hwrite
      · rw [List.mem_singleton.mp hwrite]
        exact ⟨id, vendor, hpath, hrow, htoml⟩
    · intro other
      rw [List.mem_append, List.map_append, List.mem_append, hplan.actions other,
        List.mem_singleton, List.map_singleton, List.mem_singleton]
      constructor
      · rintro (hmem | heq)
        · exact .inl hmem
        · cases heq
          exact .inr rfl
      · rintro (hmem | rfl)
        · exact .inl hmem
        · exact .inr rfl
  · cases h

theorem planAll_planned {ids : List (List Char)}
    (h : planAll env disk map dir req ids = .ok plan) : Planned map dir plan := by
  have hrun : ∀ (ids : List (List Char)) (before after : Plan), Planned map dir before →
      ids.foldlM (planOne env disk map dir req) before = .ok after → Planned map dir after := by
    intro ids
    induction ids with
    | nil =>
      intro before after hbefore hfold
      cases hfold
      exact hbefore
    | cons id ids ih =>
      intro before after hbefore hfold
      rw [List.foldlM_cons] at hfold
      cases hone : planOne env disk map dir req before id with
      | error error =>
        rw [hone] at hfold
        cases hfold
      | ok next =>
        rw [hone] at hfold
        exact ih next after (planOne_planned hbefore hone) hfold
  refine hrun ids ⟨[], [], []⟩ plan ⟨fun write hwrite => ?_, fun path => ?_⟩ h
  · cases hwrite
  · constructor
    · intro hmem
      cases hmem
    · intro hmem
      cases hmem

theorem ingestPlan_ok (h : ingestPlan env faults disk text req = .ok plan) :
    ∃ rows dir, parseCatalog env.fromStr req.kind text = .ok rows ∧
      targetDir env req = some dir ∧ Planned (byId rows) dir plan := by
  unfold ingestPlan at h
  split at h
  · cases h
  rename_i rows hrows
  dsimp only at h
  split at h
  · cases h
  split at h
  · cases h
  rename_i dir hdir
  split at h
  · cases h
  refine ⟨rows, dir, hrows, hdir, ?_⟩
  cases hall : planAll env disk (byId rows) dir req (wantedIds req (byId rows)) with
  | error error =>
    rw [hall] at h
    cases h
  | ok gathered =>
    rw [hall] at h
    change settle gathered = .ok plan at h
    unfold settle at h
    split at h
    · cases h
      exact planAll_planned hall
    · cases h

def isProfile (path : FilePath) : Bool := ".toml".toList.isSuffixOf path.name

theorem isProfile_profilePath (dir id : List Char) : isProfile (profilePath dir id) = true :=
  List.isSuffixOf_iff_suffix.mpr (List.suffix_append id ".toml".toList)

theorem profilePath_inj {other : List Char} (h : profilePath dir id = profilePath dir other) :
    id = other :=
  List.append_cancel_right (congrArg FilePath.name h)

theorem temp_not_profile (path : FilePath) (index : ℕ) :
    isProfile (ingestTempPath path index) = false := by
  rw [Bool.eq_false_iff]
  intro hprofile
  obtain ⟨front, hfront⟩ := List.isSuffixOf_iff_suffix.mp hprofile
  have hlast := congrArg List.getLast? hfront
  change (front ++ ".toml".toList).getLast? =
    (path.name ++ ('.' :: (Nat.toDigits 10 index ++ ".ingest-tmp".toList))).getLast? at hlast
  rw [List.getLast?_append, List.getLast?_append, List.getLast?_cons, List.getLast?_append] at hlast
  change some 'l' = some 'p' at hlast
  cases hlast

theorem ingestTempPath_index {other : FilePath} {i j : ℕ}
    (h : ingestTempPath path i = ingestTempPath other j) : i = j := by
  have hname : (path.name ++ '.' :: Nat.toDigits 10 i) ++ ".ingest-tmp".toList =
      (other.name ++ '.' :: Nat.toDigits 10 j) ++ ".ingest-tmp".toList := by
    rw [List.append_assoc, List.append_assoc]
    exact congrArg FilePath.name h
  have hdigits : ∀ n : ℕ, ∀ front : List Char,
      (front ++ '.' :: Nat.toDigits 10 n).reverse.takeWhile (· != '.') =
        (Nat.toDigits 10 n).reverse := by
    intro n front
    have hplain : ∀ c ∈ (Nat.toDigits 10 n).reverse, (c != '.') = true := by
      intro c hc
      have hdigit := Nat.isDigit_of_mem_toDigits (by decide) (by decide) (List.mem_reverse.mp hc)
      rw [bne_iff_ne]
      rintro rfl
      exact absurd hdigit (by decide)
    rw [List.reverse_append, List.reverse_cons, List.append_assoc,
      List.takeWhile_append_of_pos hplain, List.singleton_append,
      List.takeWhile_cons_of_neg (by decide), List.append_nil]
  have hcut := congrArg (fun name => name.reverse.takeWhile (· != '.'))
    (List.append_cancel_right hname)
  rw [hdigits, hdigits] at hcut
  have hvalue := congrArg (Nat.ofDigitChars 10 · 0) (List.reverse_injective hcut)
  simpa [Nat.ofDigitChars_toDigits] using hvalue

theorem stagedFrom_getElem? (index k : ℕ) (pending : List (FilePath × List Char)) :
    (stagedFrom index pending)[k]? =
      pending[k]?.map fun write => ⟨ingestTempPath write.1 (index + k), write.1, write.2⟩ := by
  induction pending generalizing index k with
  | nil => rfl
  | cons write rest ih =>
    obtain ⟨path, body⟩ := write
    cases k with
    | zero => rfl
    | succ k =>
      rw [stagedFrom, List.getElem?_cons_succ, List.getElem?_cons_succ, ih, Nat.add_right_comm,
        Nat.add_assoc]

theorem mem_stagedFrom {item : Staged FilePath (List Char)} (h : item ∈ stagedFrom index pending) :
    (∃ k, item.temp = ingestTempPath item.target (index + k)) ∧ (item.target, item.body) ∈ pending := by
  obtain ⟨k, hk⟩ := List.mem_iff_getElem?.mp h
  rw [stagedFrom_getElem?] at hk
  obtain ⟨write, hwrite, rfl⟩ := Option.map_eq_some_iff.mp hk
  exact ⟨⟨k, rfl⟩, List.mem_iff_getElem?.mpr ⟨k, hwrite⟩⟩

theorem targets_stagedFrom (index : ℕ) (pending : List (FilePath × List Char)) :
    (stagedFrom index pending).map Staged.target = pending.map Prod.fst := by
  induction pending generalizing index with
  | nil => rfl
  | cons write rest ih =>
    obtain ⟨path, body⟩ := write
    rw [stagedFrom, List.map_cons, List.map_cons, ih]

theorem temps_nodup (index : ℕ) (pending : List (FilePath × List Char)) :
    ((stagedFrom index pending).map Staged.temp).Nodup := by
  induction pending generalizing index with
  | nil => exact List.nodup_nil
  | cons write rest ih =>
    obtain ⟨path, body⟩ := write
    rw [stagedFrom, List.map_cons, List.nodup_cons]
    refine ⟨fun hmem => ?_, ih (index + 1)⟩
    obtain ⟨item, hitem, htemp⟩ := List.mem_map.mp hmem
    obtain ⟨⟨k, hk⟩, -⟩ := mem_stagedFrom hitem
    have hindex := ingestTempPath_index (hk.symm.trans htemp)
    omega

theorem Planned.profile (h : Planned map dir plan) {write : FilePath × List Char}
    (hwrite : write ∈ plan.pending) : isProfile write.1 = true := by
  obtain ⟨id, _, hpath, -⟩ := h.texts write hwrite
  rw [hpath]
  exact isProfile_profilePath dir id

theorem Planned.separate (h : Planned map dir plan) : Separate (stagedFrom 0 plan.pending) where
  temps := temps_nodup 0 plan.pending
  apart := by
    intro item hitem other hother heq
    obtain ⟨⟨k, hk⟩, -⟩ := mem_stagedFrom hother
    have hprofile := h.profile (mem_stagedFrom hitem).2
    change isProfile item.target = true at hprofile
    rw [heq, hk, temp_not_profile] at hprofile
    cases hprofile
  bodies := by
    intro item hitem other hother heq
    obtain ⟨id, vendor, hpath, hrow, htoml⟩ := h.texts _ (mem_stagedFrom hitem).2
    obtain ⟨id', vendor', hpath', hrow', htoml'⟩ := h.texts _ (mem_stagedFrom hother).2
    have hid : id = id' := profilePath_inj (hpath.symm.trans (heq.trans hpath'))
    subst hid
    rw [hrow] at hrow'
    cases hrow'
    exact Except.ok.inj (htoml.symm.trans htoml')

/-- The files that a call is going to write, with their texts. -/
def plannedWrites (env : Surroundings) (faults : StepFaults) (disk : Disk) (text : List Char)
    (req : IngestRequest) : List (FilePath × List Char) :=
  match ingestPlan env faults disk text req with
  | .ok plan => plan.pending
  | .error _ => []

def staged (env : Surroundings) (faults : StepFaults) (disk : Disk) (text : List Char)
    (req : IngestRequest) : List (Staged FilePath (List Char)) :=
  stagedFrom 0 (plannedWrites env faults disk text req)

/-- A temp file that the call has come to write. -/
def TempOfCall (faults : StepFaults) (disk : Disk) (items : List (Staged FilePath (List Char)))
    (temp : FilePath) : Prop :=
  ∃ k item, items[k]? = some item ∧ item.temp = temp ∧ WritesUpTo faults.toFaults disk 0 k items

/-- The text of a vendor of the catalog is in its file. -/
def HoldsText (env : Surroundings) (text : List Char) (req : IngestRequest) (path : FilePath)
    (after : Disk) : Prop :=
  ∃ rows dir id vendor toml, parseCatalog env.fromStr req.kind text = .ok rows ∧
    targetDir env req = some dir ∧ path = profilePath dir id ∧ rowOf (byId rows) id = some vendor ∧
    profileToml vendor = .ok toml ∧ after path = some (.file toml)

/-- What `ingest_catalog` returns and leaves on the disk. -/
def AllOrNothing (env : Surroundings) (faults : StepFaults) (disk : Disk) (text : List Char)
    (req : IngestRequest) : Prop :=
  match ingestCatalog env faults disk text req with
  | (.error _, after) =>
    (∀ path, isProfile path = true → after path = disk path) ∧
      ∀ temp, TempOfCall faults disk (staged env faults disk text req) temp → ¬ IsFile after temp
  | (.ok actions, after) =>
    (∀ path, .wrote path ∈ actions → HoldsText env text req path after) ∧
      ∀ path, .wrote path ∉ actions → after path = disk path

/-- Where every temp file is written: a rename that fails comes after profiles that already
had their text, and where none fails, no temp name was taken. -/
def Undisturbed (faults : StepFaults) (disk : Disk) (items : List (Staged FilePath (List Char))) :
    Prop :=
  WritesUpTo faults.toFaults disk 0 items.length items →
    (∀ k item, items[k]? = some item → RenamesUpTo faults.toFaults disk 0 k items →
      ¬ Renames (faults.rename k) disk item.target →
      ∀ earlier ∈ items.take k, disk earlier.target = some (.file earlier.body)) ∧
    (RenamesUpTo faults.toFaults disk 0 items.length items →
      ∀ item ∈ items, disk item.temp = none)

theorem Planned.wrote (h : Planned map dir plan) :
    .wrote path ∈ plan.actions ↔ path ∈ (stagedFrom 0 plan.pending).map Staged.target := by
  rw [targets_stagedFrom]
  exact h.actions path

theorem not_temp_of_profile {items : List (Staged FilePath (List Char))}
    (hitems : items = stagedFrom 0 pending) (h : isProfile path = true) :
    path ∉ items.map Staged.temp := by
  intro hmem
  obtain ⟨item, hitem, rfl⟩ := List.mem_map.mp hmem
  obtain ⟨⟨k, hk⟩, -⟩ := mem_stagedFrom (hitems ▸ hitem)
  rw [hk, temp_not_profile] at h
  cases h

section
variable (hplan : ingestPlan env faults disk text req = .ok plan)
include hplan

theorem staged_eq : staged env faults disk text req = stagedFrom 0 plan.pending := by
  unfold staged plannedWrites
  rw [hplan]

theorem ingestCatalog_error {error : FilePath × FileError} {after : Disk}
    (h : commit faults.toFaults disk (stagedFrom 0 plan.pending) = (.error error, after)) :
    ingestCatalog env faults disk text req = (.error (ioError error), after) := by
  unfold ingestCatalog
  rw [hplan]
  dsimp only
  rw [commitPendingWrites_eq, h]
  rfl

theorem ingestCatalog_ok {after : Disk}
    (h : commit faults.toFaults disk (stagedFrom 0 plan.pending) = (.ok (), after)) :
    ingestCatalog env faults disk text req = (.ok plan.actions, after) := by
  unfold ingestCatalog
  rw [hplan]
  dsimp only
  rw [commitPendingWrites_eq, h]
  rfl

theorem allOrNothing_unwritten
    (hwrites : ¬ WritesUpTo faults.toFaults disk 0 (stagedFrom 0 plan.pending).length
      (stagedFrom 0 plan.pending)) : AllOrNothing env faults disk text req := by
  obtain ⟨error, after, hcommit, htemps, hframe⟩ := commit_unwritten hwrites
  rw [AllOrNothing, ingestCatalog_error hplan hcommit, staged_eq hplan]
  constructor
  · intro path hprofile
    exact hframe path (not_temp_of_profile rfl hprofile)
  · rintro temp ⟨k, item, hitem, rfl, hbefore⟩
    exact htemps k item hitem hbefore

theorem allOrNothing_stopped {item : Staged FilePath (List Char)}
    (hwrites : WritesUpTo faults.toFaults disk 0 (stagedFrom 0 plan.pending).length
      (stagedFrom 0 plan.pending))
    (hitem : (stagedFrom 0 plan.pending)[k]? = some item)
    (hbefore : RenamesUpTo faults.toFaults disk 0 k (stagedFrom 0 plan.pending))
    (hstop : ¬ Renames (faults.rename k) disk item.target) :
    AllOrNothing env faults disk text req ↔
      ∀ earlier ∈ (stagedFrom 0 plan.pending).take k,
        disk earlier.target = some (.file earlier.body) := by
  obtain ⟨_, _, _, _, hplanned⟩ := ingestPlan_ok hplan
  obtain ⟨error, after, hcommit, htemps, htargets, hframe⟩ :=
    commit_stopped hplanned.separate hwrites hitem hbefore hstop
  have hprofiles : ∀ earlier ∈ (stagedFrom 0 plan.pending).take k,
      isProfile earlier.target = true := fun earlier hearlier =>
    hplanned.profile (mem_stagedFrom (List.mem_of_mem_take hearlier)).2
  rw [AllOrNothing, ingestCatalog_error hplan hcommit, staged_eq hplan]
  constructor
  · rintro ⟨hkept, -⟩ earlier hearlier
    rw [← hkept earlier.target (hprofiles earlier hearlier)]
    exact htargets earlier hearlier
  · intro hold
    constructor
    · intro path hprofile
      by_cases hmem : path ∈ ((stagedFrom 0 plan.pending).take k).map Staged.target
      · obtain ⟨earlier, hearlier, rfl⟩ := List.mem_map.mp hmem
        rw [htargets earlier hearlier, hold earlier hearlier]
      · exact hframe path (not_temp_of_profile rfl hprofile) hmem
    · rintro temp ⟨i, other, hother, rfl, -⟩
      exact htemps other (List.mem_of_getElem? hother)

theorem allOrNothing_done
    (hwrites : WritesUpTo faults.toFaults disk 0 (stagedFrom 0 plan.pending).length
      (stagedFrom 0 plan.pending))
    (hrenames : RenamesUpTo faults.toFaults disk 0 (stagedFrom 0 plan.pending).length
      (stagedFrom 0 plan.pending)) :
    AllOrNothing env faults disk text req ↔
      ∀ item ∈ stagedFrom 0 plan.pending, disk item.temp = none := by
  obtain ⟨rows, dir, hrows, hdir, hplanned⟩ := ingestPlan_ok hplan
  obtain ⟨after, hcommit, htemps, htargets, hframe⟩ :=
    commit_done hplanned.separate hwrites hrenames
  rw [AllOrNothing, ingestCatalog_ok hplan hcommit]
  constructor
  · rintro ⟨-, hkept⟩ item hitem
    rw [← hkept item.temp, htemps item hitem]
    intro hwrote
    obtain ⟨other, hother, heq⟩ := List.mem_map.mp (hplanned.wrote.mp hwrote)
    exact hplanned.separate.apart other hother item hitem heq
  · intro hfree
    constructor
    · intro path hwrote
      obtain ⟨item, hitem, rfl⟩ := List.mem_map.mp (hplanned.wrote.mp hwrote)
      obtain ⟨id, vendor, hpath, hrow, htoml⟩ := hplanned.texts _ (mem_stagedFrom hitem).2
      exact ⟨rows, dir, id, vendor, item.body, hrows, hdir, hpath, hrow, htoml, htargets item hitem⟩
    · intro path hwrote
      by_cases htemp : path ∈ (stagedFrom 0 plan.pending).map Staged.temp
      · obtain ⟨item, hitem, rfl⟩ := List.mem_map.mp htemp
        rw [htemps item hitem, hfree item hitem]
      · exact hframe path htemp fun hmem => hwrote (hplanned.wrote.mpr hmem)

end

/-- A call is all or nothing exactly where no rename fails behind a profile that it replaced. -/
theorem ingest_all_or_nothing_iff (env : Surroundings) (faults : StepFaults) (disk : Disk)
    (text : List Char) (req : IngestRequest) : AllOrNothing env faults disk text req ↔
      Undisturbed faults disk (staged env faults disk text req) := by
  cases hplan : ingestPlan env faults disk text req with
  | error error =>
    have hnone : staged env faults disk text req = [] := by
      unfold staged plannedWrites
      rw [hplan]
      rfl
    unfold AllOrNothing ingestCatalog
    rw [hnone, hplan]
    constructor
    · rintro - -
      refine ⟨fun k item hitem => ?_, fun _ item hitem => ?_⟩
      · cases hitem
      · cases hitem
    · rintro -
      refine ⟨fun path _ => rfl, fun temp htemp => ?_⟩
      obtain ⟨k, item, hitem, -⟩ := htemp
      cases hitem
  | ok plan =>
    rw [staged_eq hplan]
    by_cases hwrites : WritesUpTo faults.toFaults disk 0 (stagedFrom 0 plan.pending).length
        (stagedFrom 0 plan.pending)
    · by_cases hrenames : RenamesUpTo faults.toFaults disk 0 (stagedFrom 0 plan.pending).length
          (stagedFrom 0 plan.pending)
      · rw [allOrNothing_done hplan hwrites hrenames]
        constructor
        · intro hfree _
          refine ⟨fun k item hitem _ hstop => ?_, fun _ => hfree⟩
          have hlength := (List.getElem?_eq_some_iff.mp hitem).1
          have hpasses := hrenames k hlength item hitem
          rw [Nat.zero_add] at hpasses
          exact absurd hpasses hstop
        · exact fun hclear => (hclear hwrites).2 hrenames
      · obtain ⟨k, item, hitem, hbefore, hstop⟩ := first_stop hrenames
        rw [allOrNothing_stopped hplan hwrites hitem hbefore (by rwa [Nat.zero_add] at hstop)]
        constructor
        · intro hold _
          refine ⟨fun i other hother hbefore' hstop' => ?_, fun hall => absurd hall hrenames⟩
          have hsame : i = k := stop_unique hother hitem hbefore' hbefore
            (by rwa [Nat.zero_add]) hstop
          rw [hsame]
          exact hold
        · intro hclear
          exact (hclear hwrites).1 k item hitem hbefore (by rwa [Nat.zero_add] at hstop)
    · exact iff_of_true (allOrNothing_unwritten hplan hwrites) fun hall => absurd hall hwrites

def groqCatalog : JsonValue.Value :=
  .object [("groq", .object [("id", .string "groq"), ("name", .string "Groq"),
      ("env", .array [.string "GROQ_API_KEY"]), ("npm", .string "@ai-sdk/groq")]),
    ("mistral", .object [("id", .string "mistral"), ("name", .string "Mistral"),
      ("env", .array [.string "MISTRAL_API_KEY"]), ("npm", .string "@ai-sdk/mistral")])]

/-- The same catalog as text. -/
def groqText : List Char :=
  ("\x7b\"groq\":\x7b\"id\":\"groq\",\"name\":\"Groq\",\"env\":[\"GROQ_API_KEY\"]," ++
    "\"npm\":\"@ai-sdk/groq\"\x7d,\"mistral\":\x7b\"id\":\"mistral\",\"name\":\"Mistral\"," ++
    "\"env\":[\"MISTRAL_API_KEY\"],\"npm\":\"@ai-sdk/mistral\"\x7d\x7d").toList

def plainSurroundings : Surroundings where
  fromStr := fun text => if text = groqText then .ok groqCatalog else .error "expected value".toList
  parseProfileStr := fun _ => .ok ()
  shippedIds := []
  userDir := none

def noFaults : StepFaults where
  write := fun _ => none
  rename := fun _ => none
  createDir := none

def profiles : List Char := "profiles".toList

/-- A profile of the first vendor, and a directory where that of the second goes. -/
def blockedDisk : Disk := fun path =>
  if path = profilePath profiles "groq".toList then some (.file "id = \"groq\"".toList)
  else if path = profilePath profiles "mistral".toList then some .directory
  else none

def bothVendors : IngestRequest where
  kind := .modelsDev
  vendors := ["groq".toList, "mistral".toList]
  allCompatible := false
  dir := some profiles
  dryRun := false
  force := true

def replacesFirst : Except IngestError (List IngestAction) × Disk → Bool
  | (.error _, after) =>
    after (profilePath profiles "groq".toList) != blockedDisk (profilePath profiles "groq".toList)
  | (.ok _, _) => false

/-- The call fails at the second vendor and has replaced the profile of the first. -/
theorem blocked_replaces_first :
    ¬ AllOrNothing plainSurroundings noFaults blockedDisk groqText bothVendors := by
  have hcall : replacesFirst (ingestCatalog plainSurroundings noFaults blockedDisk groqText
      bothVendors) = true := by decide +kernel
  unfold AllOrNothing
  split
  · rename_i after heq
    rw [heq] at hcall
    rintro ⟨hkept, -⟩
    exact bne_iff_ne.mp hcall (hkept _ (isProfile_profilePath profiles "groq".toList))
  · rename_i heq
    rw [heq] at hcall
    cases hcall

end Wiremux.IngestAtomicity
