import Mathlib.Logic.Function.Basic
import Mathlib.Data.List.Basic

set_option autoImplicit false

/-!
# Files of a directory tree

What each path holds, and the steps that change it: a write that may stop half
way, a removal whose failure is ignored, and a rename that is atomic. No step
makes or removes a directory.
-/
namespace Wiremux.FileTree

inductive Entry (α : Type*) where
  | file (content : α)
  | directory
deriving DecidableEq

abbrev Tree (κ α : Type*) := κ → Option (Entry α)

inductive FileError where
  | isDirectory
  | notFound
  | other (text : String)
deriving DecidableEq

/-- A write fails before the file is opened, or after it was opened and cut. -/
inductive WriteFault (α : Type*) where
  | refused (error : FileError)
  | cutShort (kept : α) (error : FileError)

variable {κ α : Type*} [DecidableEq κ]

def write (fault : Option (WriteFault α)) (tree : Tree κ α) (path : κ) (body : α) :
    Except FileError Unit × Tree κ α :=
  match tree path, fault with
  | some .directory, _ => (.error .isDirectory, tree)
  | _, none => (.ok (), Function.update tree path (some (.file body)))
  | _, some (.refused error) => (.error error, tree)
  | _, some (.cutShort kept error) => (.error error, Function.update tree path (some (.file kept)))

def removeFile (tree : Tree κ α) (path : κ) : Tree κ α :=
  match tree path with
  | some (.file _) => Function.update tree path none
  | _ => tree

def rename (fault : Option FileError) (tree : Tree κ α) (source target : κ) :
    Except FileError Unit × Tree κ α :=
  match fault, tree source, tree target with
  | some error, _, _ => (.error error, tree)
  | none, none, _ => (.error .notFound, tree)
  | none, some .directory, _ => (.error .isDirectory, tree)
  | none, some (.file _), some .directory => (.error .isDirectory, tree)
  | none, some (.file content), _ =>
    (.ok (), Function.update (Function.update tree source none) target (some (.file content)))

def IsFile (tree : Tree κ α) (path : κ) : Prop := ∃ content, tree path = some (.file content)

def IsDirectory (tree : Tree κ α) (path : κ) : Prop := tree path = some .directory

def Writes (fault : Option (WriteFault α)) (tree : Tree κ α) (path : κ) : Prop :=
  fault = none ∧ ¬ IsDirectory tree path

/-- The rename goes through, where the source is a file. -/
def Renames (fault : Option FileError) (tree : Tree κ α) (target : κ) : Prop :=
  fault = none ∧ ¬ IsDirectory tree target

variable {tree : Tree κ α} {path other source target : κ} {body content : α}
  {fault : Option (WriteFault α)} {stop : Option FileError}

theorem update_directory {entry : Option (Entry α)} (hpath : ¬ IsDirectory tree path)
    (hentry : entry ≠ some .directory) :
    IsDirectory (Function.update tree path entry) other ↔ IsDirectory tree other := by
  unfold IsDirectory at hpath ⊢
  by_cases h : other = path
  · subst h
    rw [Function.update_self]
    exact ⟨fun hdir => absurd hdir hentry, fun hdir => absurd hdir hpath⟩
  · rw [Function.update_of_ne h]

theorem write_ok (h : Writes fault tree path) (body : α) :
    write fault tree path body = (.ok (), Function.update tree path (some (.file body))) := by
  obtain ⟨rfl, hdir⟩ := h
  unfold write
  split
  · exact absurd ‹_› hdir
  · rfl
  · rename_i hfault _
    cases hfault
  · rename_i hfault _
    cases hfault

theorem write_error (h : ¬ Writes fault tree path) (body : α) :
    ∃ error, (write fault tree path body).1 = .error error := by
  unfold write
  split
  · exact ⟨_, rfl⟩
  · rename_i hdir
    exact absurd ⟨rfl, hdir⟩ h
  · exact ⟨_, rfl⟩
  · exact ⟨_, rfl⟩

theorem write_frame (h : other ≠ path) : (write fault tree path body).2 other = tree other := by
  unfold write
  split
  · rfl
  · exact Function.update_of_ne h _ _
  · rfl
  · exact Function.update_of_ne h _ _

theorem removeFile_cases (tree : Tree κ α) (path : κ) :
    removeFile tree path = Function.update tree path none ∨
      (removeFile tree path = tree ∧ ¬ IsFile tree path) := by
  unfold removeFile
  split
  · exact .inl rfl
  · rename_i hnot
    refine .inr ⟨rfl, ?_⟩
    rintro ⟨content, hfile⟩
    exact hnot content hfile

theorem removeFile_frame (h : other ≠ path) : removeFile tree path other = tree other := by
  rcases removeFile_cases tree path with hremoved | ⟨hkept, -⟩
  · rw [hremoved, Function.update_of_ne h]
  · rw [hkept]

theorem removeFile_self (tree : Tree κ α) (path : κ) : ¬ IsFile (removeFile tree path) path := by
  rcases removeFile_cases tree path with hremoved | ⟨hkept, hnot⟩
  · rintro ⟨content, hfile⟩
    rw [hremoved, Function.update_self] at hfile
    cases hfile
  · rwa [hkept]

theorem not_isFile_removeFile (h : ¬ IsFile tree other) : ¬ IsFile (removeFile tree path) other := by
  by_cases hpath : other = path
  · subst hpath
    exact removeFile_self tree other
  · rintro ⟨content, hfile⟩
    rw [removeFile_frame hpath] at hfile
    exact h ⟨content, hfile⟩

def removeFiles (tree : Tree κ α) (paths : List κ) : Tree κ α := paths.foldl removeFile tree

theorem removeFiles_frame {paths : List κ} (h : other ∉ paths) :
    removeFiles tree paths other = tree other := by
  unfold removeFiles
  induction paths generalizing tree with
  | nil => rfl
  | cons path paths ih =>
    obtain ⟨hpath, hpaths⟩ := not_or.mp (mt List.mem_cons.mpr h)
    rw [List.foldl_cons, ih hpaths, removeFile_frame hpath]

theorem not_isFile_removeFiles {paths : List κ} (h : ¬ IsFile tree other) :
    ¬ IsFile (removeFiles tree paths) other := by
  unfold removeFiles
  induction paths generalizing tree with
  | nil => exact h
  | cons path paths ih =>
    rw [List.foldl_cons]
    exact ih (not_isFile_removeFile h)

theorem removeFiles_removes {paths : List κ} (h : path ∈ paths) :
    ¬ IsFile (removeFiles tree paths) path := by
  induction paths generalizing tree with
  | nil => cases h
  | cons first paths ih =>
    by_cases hfirst : path = first
    · subst hfirst
      have hgone : ¬ IsFile (removeFiles (removeFile tree path) paths) path :=
        not_isFile_removeFiles (removeFile_self tree path)
      exact hgone
    · exact ih ((List.mem_cons.mp h).resolve_left hfirst)

theorem rename_ok (hfile : tree source = some (.file content)) (h : Renames stop tree target) :
    rename stop tree source target = (.ok (), Function.update (Function.update tree source none)
      target (some (.file content))) := by
  obtain ⟨rfl, hdir⟩ := h
  unfold IsDirectory at hdir
  unfold rename
  rw [hfile]
  cases htarget : tree target with
  | none => rfl
  | some entry =>
    cases entry with
    | file _ => rfl
    | directory => exact absurd htarget hdir

theorem rename_error (hfile : tree source = some (.file content)) (h : ¬ Renames stop tree target) :
    ∃ error, rename stop tree source target = (.error error, tree) := by
  cases stop with
  | some error => exact ⟨error, rfl⟩
  | none =>
    have htarget : tree target = some .directory := by
      by_contra hdir
      exact h ⟨rfl, hdir⟩
    refine ⟨.isDirectory, ?_⟩
    unfold rename
    rw [hfile, htarget]

end Wiremux.FileTree
