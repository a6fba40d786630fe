import Haarp.Cache.Decide
import Haarp.Utils.Paths

/-!
# The place of a file

`Cache` looks for a file in one directory of `CACHEDIR` after the other, until it finds it. For netflix
it leaves out the last part of the name, so that all sizes of a film share one file.

`tried_iff`: the paths that it tries, on one disk or another, are those in all directories.
-/

namespace Haarp

/-- The path of a file in one of the directories. -/
def rowPath (directory domain subdir file : Str) : Str :=
  directory ++ domain ++ '/' :: subdir ++ '/' :: file

theorem rowPath_eq (directory domain subdir file : Str) :
    rowPath directory domain subdir file = directory ++ (domain ++ '/' :: subdir ++ '/' :: file) := by
  simp [rowPath]

/-! ## The search -/

/-- The answers of `file_exists` for a file and of `disk_use` for a directory, the latter compared
with the limit. -/
structure Disk where
  file_exists : Str → Bool
  space : Str → Bool

/-- `completefilepath` in one directory; `none` when `Cache` throws, or returns because the name is
none of netflix. -/
def cachePath (domain file directory : Str) : Option Str :=
  if domain = netflix then
    match splitstring file DELIM with
    | a :: b :: _ :: _ =>
      let fnewname := a ++ DELIM ++ b
      (ConvertChar fnewname).map fun subdir => rowPath directory domain subdir fnewname
    | _ => none
  else (ConvertChar file).map fun subdir => rowPath directory domain subdir file

/-- The loop over the directories: the paths that are tried, with what is found there. -/
def triedPaths (disk : Disk) (domain file : Str) : List Str → Option (List (Str × Directory))
  | [] => some []
  | dir :: list_dir =>
    let directory := trimstr dir
    (cachePath domain file directory).bind fun completefilepath =>
      let found : Directory := ⟨disk.file_exists completefilepath, disk.space (directory ++ domain)⟩
      if found.file_exists then some [(completefilepath, found)]
      else (triedPaths disk domain file list_dir).map ((completefilepath, found) :: ·)

/-- The search of `Cache`; the subdirectory of the whole name comes first. -/
def cachePaths (disk : Disk) (cachedir domain file : Str) : Option (List (Str × Directory)) :=
  (ConvertChar file).bind fun _ => triedPaths disk domain file (stringexplode cachedir ['|'])

/-- A path that `Cache` tries for the row, on some disk. -/
def Tried (cachedir domain file path : Str) : Prop :=
  ∃ disk found, cachePaths disk cachedir domain file = some found ∧ path ∈ found.map (·.1)

/-! ## What a search tries -/

section Search

variable {disk : Disk} {domain file : Str} {tail : Str}

theorem triedPaths_subset (htail : ∀ directory, cachePath domain file directory = some (directory ++ tail)) :
    ∀ {dirs : List Str} {found : List (Str × Directory)},
      triedPaths disk domain file dirs = some found →
      ∀ path ∈ found.map (·.1), path ∈ dirs.map fun dir => trimstr dir ++ tail := by
  intro dirs
  induction dirs with
  | nil =>
    intro found h
    cases h
    intro path hpath
    cases hpath
  | cons dir dirs ih =>
    intro found h path hpath
    rw [triedPaths, htail, Option.bind_some] at h
    dsimp only at h
    split at h
    · cases h
      rw [List.map_singleton, List.mem_singleton] at hpath
      rw [hpath]
      exact List.mem_cons_self
    · obtain ⟨found', hfound, rfl⟩ := Option.map_eq_some_iff.mp h
      rcases List.mem_cons.mp hpath with rfl | hpath
      · exact List.mem_cons_self
      · exact List.mem_cons_of_mem _ (ih hfound path hpath)

/-- On an empty disk all directories are searched. -/
theorem triedPaths_empty (htail : ∀ directory, cachePath domain file directory = some (directory ++ tail))
    (dirs : List Str) : ∃ found,
      triedPaths ⟨fun _ => false, fun _ => false⟩ domain file dirs = some found ∧
        found.map (·.1) = dirs.map fun dir => trimstr dir ++ tail := by
  induction dirs with
  | nil => exact ⟨[], rfl, rfl⟩
  | cons dir dirs ih =>
    obtain ⟨found, hfound, hpaths⟩ := ih
    refine ⟨(trimstr dir ++ tail, ⟨false, false⟩) :: found, ?_, ?_⟩
    · rw [triedPaths, htail, Option.bind_some, hfound]
      rfl
    · rw [List.map_cons, List.map_cons, hpaths]

/-- What is tried is a path in one of the directories. -/
theorem triedPaths_ne_nil {dirs : List Str} {found : List (Str × Directory)}
    (h : triedPaths disk domain file dirs = some found) (hne : found ≠ []) :
    dirs ≠ [] ∧ ∃ directory path, cachePath domain file directory = some path := by
  cases dirs with
  | nil =>
    cases h
    exact absurd rfl hne
  | cons dir dirs =>
    rw [triedPaths] at h
    obtain ⟨path, hpath, -⟩ := Option.bind_eq_some_iff.mp h
    exact ⟨List.cons_ne_nil _ _, _, path, hpath⟩

theorem tried_iff {subdir cachedir : Str} (hsubdir : ConvertChar file = some subdir)
    (htail : ∀ directory, cachePath domain file directory = some (directory ++ tail)) (path : Str) :
    Tried cachedir domain file path ↔
      path ∈ (stringexplode cachedir ['|']).map fun dir => trimstr dir ++ tail := by
  constructor
  · intro ⟨disk, found, hfound, hpath⟩
    rw [cachePaths, hsubdir, Option.bind_some] at hfound
    exact triedPaths_subset htail hfound path hpath
  · intro hpath
    obtain ⟨found, hfound, hpaths⟩ := triedPaths_empty htail (stringexplode cachedir ['|'])
    refine ⟨⟨fun _ => false, fun _ => false⟩, found, ?_, hpaths ▸ hpath⟩
    rw [cachePaths, hsubdir, Option.bind_some]
    exact hfound

end Search

end Haarp
