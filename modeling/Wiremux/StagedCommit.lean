import Mathlib.Data.List.Induction
import Mathlib.Data.List.Nodup
import Wiremux.FileTree

set_option autoImplicit false

/-!
# Staged writes

Every body is written to a temp file of its own and then renamed to its target. A
write that fails leaves the targets alone; a rename that fails comes after the
renames before it.
-/
namespace Wiremux.StagedCommit
open FileTree

structure Staged (κ α : Type*) where
  temp : κ
  target : κ
  body : α

/-- What stops the steps, by their index. -/
structure Faults (α : Type*) where
  write : ℕ → Option (WriteFault α)
  rename : ℕ → Option FileError

variable {κ α : Type*} [DecidableEq κ]

def writeAll (faults : Faults α) : ℕ → Tree κ α → List κ → List (Staged κ α) →
    Except (κ × FileError) Unit × Tree κ α
  | _, tree, _, [] => (.ok (), tree)
  | index, tree, temps, item :: rest =>
    match write (faults.write index) tree item.temp item.body with
    | (.error error, tree) =>
      (.error (item.target, error), removeFile (removeFiles tree temps) item.temp)
    | (.ok _, tree) => writeAll faults (index + 1) tree (temps ++ [item.temp]) rest

def renameAll (faults : Faults α) (temps : List κ) : ℕ → Tree κ α → List (Staged κ α) →
    Except (κ × FileError) Unit × Tree κ α
  | _, tree, [] => (.ok (), tree)
  | index, tree, item :: rest =>
    match rename (faults.rename index) tree item.temp item.target with
    | (.error error, tree) => (.error (item.target, error), removeFiles tree temps)
    | (.ok _, tree) => renameAll faults temps (index + 1) tree rest

def commit (faults : Faults α) (tree : Tree κ α) (items : List (Staged κ α)) :
    Except (κ × FileError) Unit × Tree κ α :=
  match writeAll faults 0 tree [] items with
  | (.error error, tree) => (.error error, tree)
  | (.ok _, tree) => renameAll faults (items.map Staged.temp) 0 tree items

/-- No two items share a temp file, no target is one, and one target has one body. -/
structure Separate (items : List (Staged κ α)) : Prop where
  temps : (items.map Staged.temp).Nodup
  apart : ∀ item ∈ items, ∀ other ∈ items, item.target ≠ other.temp
  bodies : ∀ item ∈ items, ∀ other ∈ items, item.target = other.target → item.body = other.body

omit [DecidableEq κ] in
theorem Separate.sublist {items front : List (Staged κ α)} (h : Separate items)
    (hsub : front.Sublist items) : Separate front where
  temps := h.temps.sublist (hsub.map _)
  apart := fun item hitem other hother => h.apart item (hsub.subset hitem) other (hsub.subset hother)
  bodies := fun item hitem other hother =>
    h.bodies item (hsub.subset hitem) other (hsub.subset hother)

/-- The step of each of the first `count` items, numbered from `index` on. -/
def UpTo (step : ℕ → Staged κ α → Prop) (index count : ℕ) (items : List (Staged κ α)) : Prop :=
  ∀ i, i < count → ∀ item ∈ items[i]?, step (index + i) item

def WritesUpTo (faults : Faults α) (tree : Tree κ α) : ℕ → ℕ → List (Staged κ α) → Prop :=
  UpTo fun i item => Writes (faults.write i) tree item.temp

def RenamesUpTo (faults : Faults α) (tree : Tree κ α) : ℕ → ℕ → List (Staged κ α) → Prop :=
  UpTo fun i item => Renames (faults.rename i) tree item.target

/-- The tree with every body in its temp file. -/
def written (tree : Tree κ α) (items : List (Staged κ α)) : Tree κ α :=
  items.foldl (fun tree item => Function.update tree item.temp (some (.file item.body))) tree

def renamed (tree : Tree κ α) (items : List (Staged κ α)) : Tree κ α :=
  items.foldl (fun tree item => Function.update (Function.update tree item.temp none) item.target
    (some (.file item.body))) tree

variable {faults : Faults α} {tree tree' after : Tree κ α} {item : Staged κ α}
  {items rest : List (Staged κ α)} {temps : List κ} {index count : ℕ} {path : κ}
  {error : κ × FileError} {step : ℕ → Staged κ α → Prop}

omit [DecidableEq κ] in
theorem upTo_cons : UpTo step index (count + 1) (item :: rest) ↔
    step index item ∧ UpTo step (index + 1) count rest := by
  constructor
  · intro h
    refine ⟨h 0 (Nat.zero_lt_succ _) item rfl, fun i hi other hother => ?_⟩
    rw [Nat.add_right_comm, Nat.add_assoc]
    exact h (i + 1) (Nat.succ_lt_succ hi) other hother
  · rintro ⟨hfirst, hrest⟩ i hi other hother
    cases i with
    | zero =>
      cases hother
      exact hfirst
    | succ i =>
      rw [← Nat.add_assoc, Nat.add_right_comm]
      exact hrest i (Nat.lt_of_succ_lt_succ hi) other hother

omit [DecidableEq κ] in
theorem upTo_zero (step : ℕ → Staged κ α → Prop) (index : ℕ) (items : List (Staged κ α)) :
    UpTo step index 0 items := fun i hi => absurd hi (Nat.not_lt_zero i)

omit [DecidableEq κ] in
theorem upTo_succ (h : UpTo step index count items) (hstep : ∀ item ∈ items[count]?, step (index + count) item) :
    UpTo step index (count + 1) items := by
  intro i hi item hitem
  rcases Nat.lt_succ_iff_lt_or_eq.mp hi with hlt | rfl
  · exact h i hlt item hitem
  · exact hstep item hitem

omit [DecidableEq κ] in
theorem first_stop (h : ¬ UpTo step index count items) :
    ∃ k item, items[k]? = some item ∧ UpTo step index k items ∧ ¬ step (index + k) item := by
  induction count with
  | zero => exact absurd (upTo_zero step index items) h
  | succ count ih =>
    by_cases hbefore : UpTo step index count items
    · by_contra hnone
      refine h (upTo_succ hbefore fun item hitem => ?_)
      by_contra hstop
      exact hnone ⟨count, item, hitem, hbefore, hstop⟩
    · exact ih hbefore

omit [DecidableEq κ] in
theorem stop_unique {i j : ℕ} {first second : Staged κ α} (hi : items[i]? = some first)
    (hj : items[j]? = some second) (hbefore : UpTo step index i items)
    (hbefore' : UpTo step index j items) (hstop : ¬ step (index + i) first)
    (hstop' : ¬ step (index + j) second) : i = j := by
  by_contra hne
  rcases Nat.lt_or_gt_of_ne hne with hlt | hgt
  · exact hstop (hbefore' i hlt first hi)
  · exact hstop' (hbefore j hgt second hj)

def SameDirectories (tree tree' : Tree κ α) : Prop :=
  ∀ path, IsDirectory tree path ↔ IsDirectory tree' path

omit [DecidableEq κ] in
theorem SameDirectories.writes (h : SameDirectories tree tree') :
    WritesUpTo faults tree index count items ↔ WritesUpTo faults tree' index count items := by
  unfold WritesUpTo UpTo Writes
  simp only [h _]

omit [DecidableEq κ] in
theorem SameDirectories.renames (h : SameDirectories tree tree') :
    RenamesUpTo faults tree index count items ↔ RenamesUpTo faults tree' index count items := by
  unfold RenamesUpTo UpTo Renames
  simp only [h _]

theorem sameDirectories_write (h : ¬ IsDirectory tree path) (body : α) :
    SameDirectories (Function.update tree path (some (.file body))) tree :=
  fun _ => update_directory h (by intro heq; cases heq)

theorem sameDirectories_written (h : ∀ item ∈ items, ¬ IsDirectory tree item.temp) :
    SameDirectories (written tree items) tree := by
  unfold written
  induction items generalizing tree with
  | nil => exact fun _ => Iff.rfl
  | cons item items ih =>
    have hstep := sameDirectories_write (h item List.mem_cons_self) item.body
    have hrest := @ih (Function.update tree item.temp (some (.file item.body)))
      fun other hother hdir => h other (List.mem_cons_of_mem _ hother) ((hstep _).mp hdir)
    exact fun path => (hrest path).trans (hstep path)

theorem sameDirectories_rename {temp target : κ} (htemp : ¬ IsDirectory tree temp)
    (htarget : ¬ IsDirectory tree target) (body : α) :
    SameDirectories (Function.update (Function.update tree temp none) target (some (.file body)))
      tree := by
  have hremoved : ∀ other, IsDirectory (Function.update tree temp none) other ↔
      IsDirectory tree other := fun other => update_directory htemp (by intro heq; cases heq)
  intro other
  rw [update_directory (fun hdir => htarget ((hremoved target).mp hdir)) (by intro heq; cases heq)]
  exact hremoved other

theorem writeAll_ok (h : WritesUpTo faults tree index items.length items) :
    writeAll faults index tree temps items = (.ok (), written tree items) := by
  induction items generalizing tree index temps with
  | nil => rfl
  | cons item rest ih =>
    obtain ⟨hfirst, hrest⟩ := upTo_cons.mp h
    rw [writeAll, write_ok hfirst]
    exact ih ((sameDirectories_write hfirst.2 item.body).writes.mpr hrest)

theorem writeAll_error (h : ¬ WritesUpTo faults tree index items.length items) :
    ∃ error, (writeAll faults index tree temps items).1 = .error error := by
  induction items generalizing tree index temps with
  | nil => exact absurd (upTo_zero _ _ _) h
  | cons item rest ih =>
    rw [writeAll]
    by_cases hfirst : Writes (faults.write index) tree item.temp
    · rw [write_ok hfirst]
      refine ih fun hrest => h (upTo_cons.mpr ⟨hfirst, ?_⟩)
      exact (sameDirectories_write hfirst.2 item.body).writes.mp hrest
    · obtain ⟨error, herror⟩ := write_error hfirst item.body
      split
      · exact ⟨_, rfl⟩
      · rename_i hok
        rw [hok] at herror
        cases herror

/-- A failing write changes temp files only, and leaves none of those it has come to. -/
theorem writeAll_undone (h : writeAll faults index tree temps items = (.error error, after)) :
    (∀ path ∈ temps, ¬ IsFile after path) ∧
    (∀ i item, items[i]? = some item → WritesUpTo faults tree index i items →
      ¬ IsFile after item.temp) ∧
    ∀ path, path ∉ temps → path ∉ items.map Staged.temp → after path = tree path := by
  induction items generalizing tree index temps with
  | nil => cases h
  | cons item rest ih =>
    rw [writeAll] at h
    split at h
    · rename_i error' tree' hwrite
      cases h
      refine ⟨fun path hpath => not_isFile_removeFile (removeFiles_removes hpath), ?_, ?_⟩
      · intro i other hother hbefore
        cases i with
        | zero =>
          cases hother
          exact removeFile_self _ _
        | succ i =>
          have hfirst := (upTo_cons.mp hbefore).1
          rw [write_ok hfirst] at hwrite
          cases hwrite
      · intro path htemps hpath
        obtain ⟨hself, -⟩ := not_or.mp (mt List.mem_cons.mpr hpath)
        rw [removeFile_frame hself, removeFiles_frame htemps]
        have hframe : (write (faults.write index) tree item.temp item.body).2 path = tree path :=
          write_frame hself
        rw [hwrite] at hframe
        exact hframe
    · rename_i tree' hwrite
      have hfirst : Writes (faults.write index) tree item.temp := by
        by_contra hnot
        obtain ⟨error', herror⟩ := write_error hnot item.body
        rw [hwrite] at herror
        cases herror
      rw [write_ok hfirst] at hwrite
      cases hwrite
      have hdirs := sameDirectories_write hfirst.2 item.body
      obtain ⟨htemps, hrest, hframe⟩ := ih h
      refine ⟨fun path hpath => htemps path (List.mem_append_left _ hpath), ?_, ?_⟩
      · intro i other hother hbefore
        cases i with
        | zero =>
          cases hother
          exact htemps _ (List.mem_append_right _ List.mem_cons_self)
        | succ i =>
          exact hrest i other hother (hdirs.writes.mpr (upTo_cons.mp hbefore).2)
      · intro path hpath hitems
        obtain ⟨hself, hothers⟩ := not_or.mp (mt List.mem_cons.mpr hitems)
        rw [hframe path _ hothers, Function.update_of_ne hself]
        intro hmem
        rcases List.mem_append.mp hmem with hmem | hmem
        · exact hpath hmem
        · exact hself (List.mem_singleton.mp hmem)

theorem written_frame (h : path ∉ items.map Staged.temp) : written tree items path = tree path := by
  unfold written
  induction items generalizing tree with
  | nil => rfl
  | cons item rest ih =>
    obtain ⟨hself, hrest⟩ := not_or.mp (mt List.mem_cons.mpr h)
    rw [List.foldl_cons, ih hrest, Function.update_of_ne hself]

theorem written_temp (h : (items.map Staged.temp).Nodup) (hitem : item ∈ items) :
    written tree items item.temp = some (.file item.body) := by
  induction items generalizing tree with
  | nil => cases hitem
  | cons first rest ih =>
    obtain ⟨hfirst, hrest⟩ := List.nodup_cons.mp h
    rcases List.mem_cons.mp hitem with rfl | hitem
    · have hframe : written (Function.update tree item.temp (some (.file item.body))) rest item.temp =
          Function.update tree item.temp (some (.file item.body)) item.temp := written_frame hfirst
      rw [Function.update_self] at hframe
      exact hframe
    · exact ih hrest hitem

theorem renamed_frame (htarget : path ∉ items.map Staged.target)
    (htemp : path ∉ items.map Staged.temp) : renamed tree items path = tree path := by
  unfold renamed
  induction items generalizing tree with
  | nil => rfl
  | cons item rest ih =>
    obtain ⟨htarget, htargets⟩ := not_or.mp (mt List.mem_cons.mpr htarget)
    obtain ⟨htemp, htemps⟩ := not_or.mp (mt List.mem_cons.mpr htemp)
    rw [List.foldl_cons, ih htargets htemps, Function.update_of_ne htarget,
      Function.update_of_ne htemp]

theorem renamed_append (tree : Tree κ α) (front back : List (Staged κ α)) :
    renamed tree (front ++ back) = renamed (renamed tree front) back := List.foldl_append

theorem renamed_concat (tree : Tree κ α) (front : List (Staged κ α)) (item : Staged κ α) :
    renamed tree (front ++ [item]) = Function.update (Function.update (renamed tree front)
      item.temp none) item.target (some (.file item.body)) := renamed_append tree front [item]

theorem renamed_target (h : Separate items) (hitem : item ∈ items) :
    renamed tree items item.target = some (.file item.body) := by
  induction items using List.reverseRecOn with
  | nil => cases hitem
  | append_singleton front last ih =>
    have hlast : last ∈ front ++ [last] := List.mem_append_right _ List.mem_cons_self
    rw [renamed_concat]
    by_cases htarget : item.target = last.target
    · rw [htarget, Function.update_self, h.bodies item hitem last hlast htarget]
    · have hfront : item ∈ front := by
        rcases List.mem_append.mp hitem with hitem | hitem
        · exact hitem
        · exact absurd (congrArg Staged.target (List.mem_singleton.mp hitem)) htarget
      rw [Function.update_of_ne htarget, Function.update_of_ne (h.apart item hitem last hlast)]
      exact ih (h.sublist (List.sublist_append_left front [last])) hfront

theorem renamed_temp (h : Separate items) (hitem : item ∈ items) :
    renamed tree items item.temp = none := by
  induction items using List.reverseRecOn with
  | nil => cases hitem
  | append_singleton front last ih =>
    have hlast : last ∈ front ++ [last] := List.mem_append_right _ List.mem_cons_self
    rw [renamed_concat, Function.update_of_ne (h.apart last hlast item hitem).symm]
    by_cases htemp : item.temp = last.temp
    · rw [htemp, Function.update_self]
    · have hfront : item ∈ front := by
        rcases List.mem_append.mp hitem with hitem | hitem
        · exact hitem
        · exact absurd (congrArg Staged.temp (List.mem_singleton.mp hitem)) htemp
      rw [Function.update_of_ne htemp]
      exact ih (h.sublist (List.sublist_append_left front [last])) hfront

/-- The temp files hold the bodies. -/
def Holds (tree : Tree κ α) (items : List (Staged κ α)) : Prop :=
  ∀ item ∈ items, tree item.temp = some (.file item.body)

theorem Holds.moved (h : Holds tree (item :: rest)) (hsep : Separate (item :: rest)) :
    Holds (Function.update (Function.update tree item.temp none) item.target
      (some (.file item.body))) rest := by
  intro other hother
  have hmem : other ∈ item :: rest := List.mem_cons_of_mem _ hother
  have htemp : other.temp ≠ item.temp := fun heq =>
    (List.nodup_cons.mp hsep.temps).1 (heq ▸ List.mem_map_of_mem hother)
  rw [Function.update_of_ne (hsep.apart item List.mem_cons_self other hmem).symm,
    Function.update_of_ne htemp]
  exact h other hmem

omit [DecidableEq κ] in
theorem Holds.not_directory (h : Holds tree items) (hitem : item ∈ items) :
    ¬ IsDirectory tree item.temp := by
  intro hdir
  have heq := (h item hitem).symm.trans hdir
  cases heq

theorem renameAll_ok (hsep : Separate items) (hfile : Holds tree items)
    (h : RenamesUpTo faults tree index items.length items) :
    renameAll faults temps index tree items = (.ok (), renamed tree items) := by
  induction items generalizing tree index with
  | nil => rfl
  | cons item rest ih =>
    obtain ⟨hfirst, hrest⟩ := upTo_cons.mp h
    rw [renameAll, rename_ok (hfile item List.mem_cons_self) hfirst]
    have hdirs := sameDirectories_rename (hfile.not_directory List.mem_cons_self) hfirst.2 item.body
    exact ih (hsep.sublist (List.sublist_cons_self item rest)) (hfile.moved hsep)
      (hdirs.renames.mpr hrest)

theorem renameAll_stopped (hsep : Separate items) (hfile : Holds tree items)
    (hitem : items[count]? = some item) (hbefore : RenamesUpTo faults tree index count items)
    (hstop : ¬ Renames (faults.rename (index + count)) tree item.target) :
    ∃ error, renameAll faults temps index tree items =
      (.error (item.target, error), removeFiles (renamed tree (items.take count)) temps) := by
  induction items generalizing tree index count with
  | nil => cases hitem
  | cons first rest ih =>
    have hfirst := hfile first List.mem_cons_self
    rw [renameAll]
    cases count with
    | zero =>
      cases hitem
      obtain ⟨error, herror⟩ := rename_error hfirst hstop
      rw [show index + 0 = index from rfl] at herror
      rw [herror]
      exact ⟨error, rfl⟩
    | succ count =>
      obtain ⟨hpasses, hrest⟩ := upTo_cons.mp hbefore
      have hdirs := sameDirectories_rename (hfile.not_directory List.mem_cons_self) hpasses.2
        first.body
      rw [rename_ok hfirst hpasses]
      refine ih (hsep.sublist (List.sublist_cons_self first rest)) (hfile.moved hsep) hitem
        (hdirs.renames.mpr hrest) ?_
      rw [Nat.add_right_comm, Nat.add_assoc]
      unfold Renames
      rw [hdirs]
      exact hstop

theorem holds_written (h : Separate items) (tree : Tree κ α) : Holds (written tree items) items :=
  fun _ hitem => written_temp h.temps hitem

omit [DecidableEq κ] in
theorem WritesUpTo.not_directory (h : WritesUpTo faults tree index items.length items)
    (hitem : item ∈ items) : ¬ IsDirectory tree item.temp := by
  obtain ⟨i, hi⟩ := List.mem_iff_getElem?.mp hitem
  have hlength : i < items.length := (List.getElem?_eq_some_iff.mp hi).1
  exact (h i hlength item hi).2

theorem commit_unwritten (h : ¬ WritesUpTo faults tree 0 items.length items) :
    ∃ error after, commit faults tree items = (.error error, after) ∧
      (∀ i item, items[i]? = some item → WritesUpTo faults tree 0 i items →
        ¬ IsFile after item.temp) ∧
      ∀ path, path ∉ items.map Staged.temp → after path = tree path := by
  obtain ⟨error, herror⟩ : ∃ error, (writeAll faults 0 tree [] items).1 = .error error :=
    writeAll_error h
  cases hwrite : writeAll faults 0 tree [] items with
  | mk result after =>
    rw [hwrite] at herror
    cases herror
    obtain ⟨-, htemps, hframe⟩ := writeAll_undone hwrite
    refine ⟨error, after, ?_, htemps, fun path hpath => hframe path List.not_mem_nil hpath⟩
    rw [commit, hwrite]

theorem commit_stopped (hsep : Separate items) (hwrites : WritesUpTo faults tree 0 items.length items)
    (hitem : items[count]? = some item) (hbefore : RenamesUpTo faults tree 0 count items)
    (hstop : ¬ Renames (faults.rename count) tree item.target) :
    ∃ error after, commit faults tree items = (.error error, after) ∧
      (∀ other ∈ items, ¬ IsFile after other.temp) ∧
      (∀ other ∈ items.take count, after other.target = some (.file other.body)) ∧
      ∀ path, path ∉ items.map Staged.temp → path ∉ (items.take count).map Staged.target →
        after path = tree path := by
  have hdirs : SameDirectories (written tree items) tree :=
    sameDirectories_written fun other hother => hwrites.not_directory hother
  have hstop' : ¬ Renames (faults.rename (0 + count)) (written tree items) item.target := by
    unfold Renames
    rw [Nat.zero_add, hdirs]
    exact hstop
  obtain ⟨error, herror⟩ : ∃ error, renameAll faults (items.map Staged.temp) 0 (written tree items)
      items = (.error (item.target, error), removeFiles (renamed (written tree items)
        (items.take count)) (items.map Staged.temp)) :=
    renameAll_stopped hsep (holds_written hsep tree) hitem (hdirs.renames.mpr hbefore) hstop'
  have hfront : Separate (items.take count) := hsep.sublist (List.take_sublist count items)
  refine ⟨(item.target, error), removeFiles (renamed (written tree items) (items.take count))
    (items.map Staged.temp), ?_, ?_, ?_, ?_⟩
  · rw [commit, writeAll_ok hwrites]
    exact herror
  · exact fun other hother => removeFiles_removes (List.mem_map_of_mem hother)
  · intro other hother
    have hmem : other ∈ items := List.mem_of_mem_take hother
    rw [removeFiles_frame, renamed_target hfront hother]
    intro htemp
    obtain ⟨clash, hclash, heq⟩ := List.mem_map.mp htemp
    exact hsep.apart other hmem clash hclash heq.symm
  · intro path htemp htarget
    rw [removeFiles_frame htemp, renamed_frame htarget, written_frame htemp]
    exact fun hmem => htemp (List.map_subset _ (List.take_subset count items) hmem)

/-- No step fails: every body is in its target, and no temp file is left. -/
theorem commit_done (hsep : Separate items) (hwrites : WritesUpTo faults tree 0 items.length items)
    (hrenames : RenamesUpTo faults tree 0 items.length items) :
    ∃ after, commit faults tree items = (.ok (), after) ∧
      (∀ item ∈ items, after item.temp = none) ∧
      (∀ item ∈ items, after item.target = some (.file item.body)) ∧
      ∀ path, path ∉ items.map Staged.temp → path ∉ items.map Staged.target →
        after path = tree path := by
  have hdirs : SameDirectories (written tree items) tree :=
    sameDirectories_written fun other hother => hwrites.not_directory hother
  refine ⟨renamed (written tree items) items, ?_, ?_, ?_, ?_⟩
  · rw [commit, writeAll_ok hwrites]
    exact renameAll_ok hsep (holds_written hsep tree) (hdirs.renames.mpr hrenames)
  · exact fun item hitem => renamed_temp hsep hitem
  · exact fun item hitem => renamed_target hsep hitem
  · intro path htemp htarget
    rw [renamed_frame htarget htemp, written_frame htemp]

end Wiremux.StagedCommit
