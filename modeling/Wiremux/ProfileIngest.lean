import Wiremux.CatalogProfiles
import Wiremux.StagedCommit

set_option autoImplicit false

/-!
# Profile ingest

`ingest_catalog` plans the profile of every vendor, and writes them once every vendor
went through. The commit is a staged one.
-/
namespace Wiremux.ProfileIngest
open FileTree StagedCommit CatalogProfiles

/-- A file name in a directory. -/
structure FilePath where
  dir : List Char
  name : List Char
deriving DecidableEq

def FilePath.display (path : FilePath) : List Char :=
  if path.dir.isEmpty then path.name
  else if path.dir.getLast? = some '/' then path.dir ++ path.name
  else path.dir ++ '/' :: path.name

abbrev Disk := Tree FilePath (List Char)

inductive IngestAction where
  | wrote (path : FilePath)
  | dryRun (path : FilePath)
  | skipped (vendor reason : List Char)
deriving DecidableEq

inductive IngestError where
  | message (text : List Char)
  | io (path : List Char) (source : FileError)
deriving DecidableEq

structure IngestRequest where
  kind : CatalogKind
  vendors : List (List Char)
  allCompatible : Bool
  dir : Option (List Char)
  dryRun : Bool
  force : Bool

/-- What comes from other crates and from the environment. -/
structure Surroundings where
  /-- `serde_json::from_str`. -/
  fromStr : List Char → Except (List Char) JsonValue.Value
  /-- `wiremux_auth::parse_profile_str`. -/
  parseProfileStr : List Char → Except (List Char) Unit
  /-- `list_profiles` of the shipped presets; none where that fails. -/
  shippedIds : List (List Char)
  /-- The last user overlay directory. -/
  userDir : Option (List Char)

/-- What stops a step of the file system. -/
structure StepFaults extends Faults (List Char) where
  createDir : Option FileError

def popularVendors : List (List Char) :=
  ["groq", "deepseek", "togetherai", "fireworks-ai", "mistral", "cerebras"].map String.toList

def insertRow (row : CatalogVendor) : List CatalogVendor → List CatalogVendor
  | [] => [row]
  | other :: rest =>
    if other.id = row.id then row :: rest
    else if row.id < other.id then row :: other :: rest
    else other :: insertRow row rest

def byId (rows : List CatalogVendor) : List CatalogVendor :=
  rows.foldl (fun map row => insertRow row map) []

def rowOf (map : List CatalogVendor) (id : List Char) : Option CatalogVendor :=
  map.find? fun row => row.id == id

def wantedIds (req : IngestRequest) (map : List CatalogVendor) : List (List Char) :=
  if req.allCompatible then
    (map.filter fun row => openaiCompatRow row && (profileToml row).toBool &&
      (skipReasonOpt row.id).isNone).map CatalogVendor.id
  else if req.vendors.isEmpty then popularVendors
  else req.vendors

def profilePath (dir id : List Char) : FilePath := ⟨dir, id ++ ".toml".toList⟩

def ingestOne (env : Surroundings) (disk : Disk) (map : List CatalogVendor) (id dir : List Char)
    (req : IngestRequest) : Except (List Char) (IngestAction × Option (List Char)) :=
  match skipReasonOpt id with
  | some reason => .ok (.skipped id reason, none)
  | none =>
    match rowOf map id with
    | none => .error (vendorErr id "not in catalog".toList)
    | some vendor =>
      if env.shippedIds.contains id && !req.force then
        .ok (.skipped id "already shipped (pass --force to write a user overlay)".toList, none)
      else do
        let toml ← profileToml vendor
        (env.parseProfileStr toml).mapError fun e =>
          vendorErr id ("emitted TOML failed parse: ".toList ++ e)
        let path := profilePath dir id
        if (disk path).isSome && !req.force then
          return (.skipped id ("already exists (".toList ++ (path.display ++ [')'])), none)
        else if req.dryRun then return (.dryRun path, none)
        else return (.wrote path, some toml)

def reasonIsHard (reason : List Char) : Bool :=
  "not a simple".toList.isPrefixOf reason || "subscription".toList.isPrefixOf reason

/-- What the loop over the vendors has gathered. -/
structure Plan where
  actions : List IngestAction
  pending : List (FilePath × List Char)
  hard : List (List Char)

/-- A vendor that was asked for by name must not be skipped for a hard reason. -/
def hardSkip (req : IngestRequest) (id : List Char) : IngestAction → List (List Char)
  | .skipped _ reason =>
    if req.vendors.contains id && reasonIsHard reason then [vendorErr id reason] else []
  | _ => []

def planOne (env : Surroundings) (disk : Disk) (map : List CatalogVendor) (dir : List Char)
    (req : IngestRequest) (plan : Plan) (id : List Char) : Except IngestError Plan :=
  match ingestOne env disk map id dir req with
  | .error error => .ok { plan with hard := plan.hard ++ [error] }
  | .ok (action, none) =>
    .ok { plan with actions := plan.actions ++ [action], hard := plan.hard ++ hardSkip req id action }
  | .ok (.wrote path, some toml) =>
    .ok { plan with actions := plan.actions ++ [.wrote path], pending := plan.pending ++ [(path, toml)] }
  | .ok (_, some _) => .error (.message (vendorErr id "planned a write without a path".toList))

def planAll (env : Surroundings) (disk : Disk) (map : List CatalogVendor) (dir : List Char)
    (req : IngestRequest) (ids : List (List Char)) : Except IngestError Plan :=
  ids.foldlM (planOne env disk map dir req) ⟨[], [], []⟩

def notWritten : IngestAction → Option (List Char)
  | .wrote path | .dryRun path => some ("not written: ".toList ++ path.display)
  | .skipped _ _ => none

/-- A hard failure of any vendor is one of all. -/
def settle (plan : Plan) : Except IngestError Plan :=
  if plan.hard.isEmpty then .ok plan
  else .error (.message (['\n'].intercalate (plan.hard ++ plan.actions.filterMap notWritten)))

def targetDir (env : Surroundings) (req : IngestRequest) : Option (List Char) :=
  req.dir.orElse fun _ => env.userDir

def createDirAll (faults : StepFaults) (req : IngestRequest) (dir : List Char) : Except IngestError Unit :=
  if req.dryRun then .ok ()
  else match faults.createDir with
    | some source => .error (.io dir source)
    | none => .ok ()

def noUserDir : List Char :=
  "no user profile dir (set --dir, HOME, or WIREMUX_PROFILE_DIR)".toList

def ingestPlan (env : Surroundings) (faults : StepFaults) (disk : Disk) (text : List Char)
    (req : IngestRequest) : Except IngestError Plan :=
  match parseCatalog env.fromStr req.kind text with
  | .error e => .error (.message e)
  | .ok rows =>
    let map := byId rows
    let wanted := wantedIds req map
    if wanted.isEmpty then .error (.message "no catalog rows matched".toList)
    else match targetDir env req with
    | none => .error (.message noUserDir)
    | some dir =>
      match createDirAll faults req dir with
      | .error error => .error error
      | .ok _ => (planAll env disk map dir req wanted).bind settle

def ingestTempPath (path : FilePath) (index : ℕ) : FilePath :=
  ⟨path.dir, path.name ++ '.' :: (Nat.toDigits 10 index ++ ".ingest-tmp".toList)⟩

def writeTemps (faults : Faults (List Char)) : ℕ → Disk → List FilePath →
    List (FilePath × List Char) → Except IngestError (List FilePath) × Disk
  | _, disk, temps, [] => (.ok temps, disk)
  | index, disk, temps, (path, body) :: rest =>
    let tmp := ingestTempPath path index
    match write (faults.write index) disk tmp body with
    | (.error source, disk) =>
      (.error (.io path.display source), removeFile (temps.foldl removeFile disk) tmp)
    | (.ok _, disk) => writeTemps faults (index + 1) disk (temps ++ [tmp]) rest

def renameTemps (faults : Faults (List Char)) (temps : List FilePath) : ℕ → Disk →
    List ((FilePath × List Char) × FilePath) → Except IngestError Unit × Disk
  | _, disk, [] => (.ok (), disk)
  | index, disk, ((path, _), tmp) :: rest =>
    match rename (faults.rename index) disk tmp path with
    | (.error source, disk) => (.error (.io path.display source), temps.foldl removeFile disk)
    | (.ok _, disk) => renameTemps faults temps (index + 1) disk rest

def commitPendingWrites (faults : Faults (List Char)) (disk : Disk)
    (pending : List (FilePath × List Char)) : Except IngestError Unit × Disk :=
  match writeTemps faults 0 disk [] pending with
  | (.error error, disk) => (.error error, disk)
  | (.ok temps, disk) => renameTemps faults temps 0 disk (pending.zip temps)

def ingestCatalog (env : Surroundings) (faults : StepFaults) (disk : Disk) (text : List Char)
    (req : IngestRequest) : Except IngestError (List IngestAction) × Disk :=
  match ingestPlan env faults disk text req with
  | .error error => (.error error, disk)
  | .ok plan =>
    match commitPendingWrites faults.toFaults disk plan.pending with
    | (.error error, disk) => (.error error, disk)
    | (.ok _, disk) => (.ok plan.actions, disk)

def stagedFrom : ℕ → List (FilePath × List Char) → List (Staged FilePath (List Char))
  | _, [] => []
  | index, (path, body) :: rest => ⟨ingestTempPath path index, path, body⟩ :: stagedFrom (index + 1) rest

def ioError (error : FilePath × FileError) : IngestError := .io error.1.display error.2

variable {faults : Faults (List Char)} {disk : Disk} {temps : List FilePath} {index : ℕ}
  {pending : List (FilePath × List Char)}

theorem writeTemps_eq : writeTemps faults index disk temps pending =
    (((writeAll faults index disk temps (stagedFrom index pending)).1.mapError ioError).map
        fun _ => temps ++ (stagedFrom index pending).map Staged.temp,
      (writeAll faults index disk temps (stagedFrom index pending)).2) := by
  induction pending generalizing index disk temps with
  | nil =>
    change (Except.ok temps, disk) = (Except.ok (temps ++ []), disk)
    rw [List.append_nil]
  | cons item rest ih =>
    obtain ⟨path, body⟩ := item
    rw [writeTemps, stagedFrom, writeAll]
    dsimp only
    cases hwrite : write (faults.write index) disk (ingestTempPath path index) body with
    | mk result disk' =>
      cases result with
      | error source => rfl
      | ok done =>
        dsimp only
        rw [ih, List.append_assoc, List.map_cons, List.singleton_append]

theorem renameTemps_eq : renameTemps faults temps index disk
      (pending.zip ((stagedFrom index pending).map Staged.temp)) =
    ((renameAll faults temps index disk (stagedFrom index pending)).1.mapError ioError,
      (renameAll faults temps index disk (stagedFrom index pending)).2) := by
  induction pending generalizing index disk with
  | nil => rfl
  | cons item rest ih =>
    obtain ⟨path, body⟩ := item
    rw [stagedFrom, List.map_cons, List.zip_cons_cons, renameTemps, renameAll]
    dsimp only
    cases hrename : rename (faults.rename index) disk (ingestTempPath path index) path with
    | mk result disk' =>
      cases result with
      | error source => rfl
      | ok done => exact ih

theorem commitPendingWrites_eq (faults : Faults (List Char)) (disk : Disk)
    (pending : List (FilePath × List Char)) : commitPendingWrites faults disk pending =
    ((commit faults disk (stagedFrom 0 pending)).1.mapError ioError,
      (commit faults disk (stagedFrom 0 pending)).2) := by
  unfold commitPendingWrites commit
  rw [writeTemps_eq]
  cases hwrite : writeAll faults 0 disk [] (stagedFrom 0 pending) with
  | mk result disk' =>
    cases result with
    | error error => rfl
    | ok done => exact renameTemps_eq

end Wiremux.ProfileIngest
