import Haarp.Etc.HaarpClean
import Haarp.Proxy.Planned
import Mathlib.Data.List.MinMax

/-!
# Where a file lies

`Cache` looks for a file in one directory after the other until it finds it, and `delete_by_block`
looks for it in all of them. Both take the directories from `CACHEDIR`, and the paths are the same
(`pathsAgree_of_ne`) but for netflix: there `Cache` leaves out the last part of the name, so that all
sizes of a film share one file, and the cleaner looks for the whole name (`not_pathsAgree_netflix`).
-/

namespace Haarp

open Base

/-- The proxy and the cleaner look for the row in the same places. -/
def PathsAgree (cachedir domain file : Str) : Prop :=
  ∀ path, path ∈ (rowPaths cachedir domain file).getD [] ↔ Tried cachedir domain file path

/-- A call of `Cache` that ends with a match; `c₁` is the connection behind `lockFile`, which may take
the name of the row. -/
structure EndsMatched (db : Db) (asked : Asked) (disk : Disk) (cachedir : Str)
    (c c₁ c' : Connection) : Prop where
  cache : c.cache db asked = some c'
  isMatch : c'.r.isMatch = true
  locked : ∃ lfile, (c.ask asked).lockFile db asked.found = some (lfile, c₁)
  searched : ∃ found, cachePaths disk cachedir c₁.r.domain c₁.r.file = some found ∧
    asked.directories = found.map (·.2)

/-! ## Where they agree -/

theorem rowPaths_eq {cachedir domain file subdir : Str} (hsubdir : ConvertChar file = some subdir) :
    (rowPaths cachedir domain file).getD [] = (stringexplode cachedir ['|']).map fun dir =>
      trimstr dir ++ (domain ++ '/' :: subdir ++ '/' :: file) := by
  rw [rowPaths, hsubdir, stringexplodetrim_eq, Option.map_some, Option.getD_some, List.map_map]
  apply List.map_congr_left
  intro dir _
  exact rowPath_eq _ _ _ _

theorem pathsAgree_of_ne {domain file subdir : Str} (hdomain : domain ≠ netflix)
    (hsubdir : ConvertChar file = some subdir) (cachedir : Str) : PathsAgree cachedir domain file := by
  intro path
  have htail : ∀ directory, cachePath domain file directory =
      some (directory ++ (domain ++ '/' :: subdir ++ '/' :: file)) := by
    intro directory
    rw [cachePath, if_neg hdomain, hsubdir, Option.map_some, rowPath_eq]
  rw [tried_iff hsubdir htail, rowPaths_eq hsubdir]

/-! ## The names of netflix -/

theorem splitAtFirst_length {separator str l r : Str} (h : splitAtFirst separator str = some (l, r)) :
    l.length + separator.length + r.length = str.length := by
  induction str generalizing l with
  | nil => cases h
  | cons c str ih =>
    rw [splitAtFirst] at h
    split at h
    · rename_i hprefix
      obtain ⟨hl, hr⟩ := Prod.mk.inj (Option.some.inj h)
      have hle := (List.isPrefixOf_iff_prefix.mp hprefix).length_le
      rw [← hl, ← hr, List.length_drop, List.length_nil]
      omega
    · obtain ⟨⟨l', r'⟩, hrest, heq⟩ := Option.map_eq_some_iff.mp h
      obtain ⟨rfl, rfl⟩ := Prod.mk.inj heq
      have hlength := ih hrest
      rw [List.length_cons, List.length_cons]
      omega

/-- The parts of a name leave room for the separators between them. -/
theorem splitstringLoop_length (separator : Str) : ∀ (fuel : Nat) (str : Str),
    (splitstringLoop separator fuel str).flatten.length +
      separator.length * (splitstringLoop separator fuel str).length ≤ str.length + separator.length
  | 0, str => by
    rw [splitstringLoop]
    exact Nat.zero_le _
  | fuel + 1, str => by
    rw [splitstringLoop]
    split
    · rename_i l r hsplit
      have hlength := splitAtFirst_length hsplit
      have hrest := splitstringLoop_length separator fuel r
      split
      · omega
      · rw [List.flatten_cons, List.length_append, List.length_cons, Nat.mul_succ]
        omega
    · split
      · simp
      · simp

/-- The name of the file on disk is shorter than that of the row by a separator at least. -/
theorem fnewname_length {file a b c : Str} {parts : List Str}
    (h : splitstring file DELIM = a :: b :: c :: parts) :
    (a ++ DELIM ++ b).length + DELIM.length ≤ file.length := by
  have hlength := splitstringLoop_length DELIM (file.length + 1) file
  rw [← splitstring, h] at hlength
  have hdelim : DELIM.length = 12 := rfl
  simp only [List.flatten_cons, List.length_append, List.length_cons, hdelim] at hlength ⊢
  omega

theorem ConvertChar_length {lineT subdir : Str} (h : ConvertChar lineT = some subdir) :
    5 ≤ subdir.length ∧ subdir.length ≤ 6 := by
  obtain ⟨d, e, rest, rfl, -, -, -, hlower, hupper⟩ := ConvertChar_spec h
  simp only [List.length_cons]
  omega

/-- Two tails of different lengths do not give the same paths. -/
theorem exists_not_tail {dirs : List Str} (hdirs : dirs ≠ []) {long short : Str}
    (hlt : short.length < long.length) :
    ∃ path ∈ dirs.map fun dir => trimstr dir ++ long,
      path ∉ dirs.map fun dir => trimstr dir ++ short := by
  -- the longest directory
  obtain ⟨dir, hdir⟩ := Option.ne_none_iff_exists'.mp
    (fun hnone => hdirs (List.argmax_eq_none.mp hnone) :
      dirs.argmax (fun dir => (trimstr dir).length) ≠ none)
  refine ⟨trimstr dir ++ long, List.mem_map.mpr ⟨dir, List.argmax_mem hdir, rfl⟩, ?_⟩
  intro hmem
  obtain ⟨dir', hdir', heq⟩ := List.mem_map.mp hmem
  have hle := List.le_of_mem_argmax hdir' hdir
  have hlength := congrArg List.length heq
  simp only [List.length_append] at hlength
  omega

theorem not_pathsAgree_netflix {cachedir file subdir : Str} {directory path : Str}
    (hsubdir : ConvertChar file = some subdir) (hdirs : stringexplode cachedir ['|'] ≠ [])
    (hpath : cachePath netflix file directory = some path) : ¬ PathsAgree cachedir netflix file := by
  rw [cachePath, if_pos rfl] at hpath
  split at hpath
  · rename_i a b c parts hparts
    obtain ⟨subdir', hsubdir', -⟩ := Option.map_eq_some_iff.mp hpath
    have htail : ∀ directory, cachePath netflix file directory =
        some (directory ++ (netflix ++ '/' :: subdir' ++ '/' :: (a ++ DELIM ++ b))) := by
      intro directory
      rw [cachePath, if_pos rfl, hparts]
      dsimp only
      rw [hsubdir', Option.map_some, rowPath_eq]
    have hlt : (netflix ++ '/' :: subdir' ++ '/' :: (a ++ DELIM ++ b)).length <
        (netflix ++ '/' :: subdir ++ '/' :: file).length := by
      have hfile := fnewname_length hparts
      have hlower := (ConvertChar_length hsubdir).1
      have hupper := (ConvertChar_length hsubdir').2
      have hdelim : DELIM.length = 12 := rfl
      rw [List.length_append, List.length_append, List.length_append, List.length_append,
        List.length_cons, List.length_cons, List.length_cons, List.length_cons]
      omega
    obtain ⟨path, hrow, htried⟩ := exists_not_tail hdirs hlt
    intro hagree
    rw [← rowPaths_eq hsubdir, hagree path, tried_iff hsubdir htail] at hrow
    exact htried hrow
  · cases hpath

/-! ## The row of a match -/

variable {db : Db} {c c₁ c' : Connection}

theorem fileMissing_row {disco_con_espacio : Bool}
    (h : (c.fileMissing db disco_con_espacio).r.isMatch = true) :
    disco_con_espacio = true ∧ (c.fileMissing db disco_con_espacio).r = c.r := by
  have hreset : ∀ c₁ : Connection, (c₁.resetRow db).r.isMatch = true →
      (c₁.resetRow db).r = c₁.r := by
    intro c₁ hmatch
    unfold Connection.resetRow at hmatch ⊢
    split at hmatch
    · next hupdate =>
      rw [if_pos hupdate]
      dsimp only at hmatch ⊢
      split at hmatch
      · next hok =>
        rw [if_pos hok]
        rfl
      · cases hmatch
    · next hinsert => rw [if_neg hinsert]
  cases disco_con_espacio with
  | false => cases h
  | true =>
    refine ⟨rfl, ?_⟩
    unfold Connection.fileMissing at h ⊢
    dsimp only at h ⊢
    rw [if_pos rfl] at h ⊢
    rw [hreset _ h]
    split <;> rfl

theorem fileFound_row {selected : Option (Option SelectedRow)}
    (h : c.fileFound db selected = some c') (hmatch : c'.r.isMatch = true) : c'.r = c.r := by
  have hgaveUp : ∀ c₁ : Connection, c'.r = (c₁.giveUp.liberateEdition db).r → c'.r = c.r := by
    intro c₁ hr
    rw [hr, isMatch_liberated] at hmatch
    cases hmatch
  unfold Connection.fileFound at h
  dsimp only at h
  split at h
  · cases h
    exact hgaveUp _ rfl
  · cases h
    exact hgaveUp _ rfl
  · rcases fileStored_cases h with hgiveUp | hsame
    · exact hgaveUp _ (congrArg Transfer.r hgiveUp)
    · exact hsame.r

/-- A connection with a match has searched a directory, and its row is the one it has searched for. -/
theorem useEntry_row {asked : Asked} (h : c.useEntry db asked = some c') (hmatch : c'.r.isMatch = true) :
    c'.r = c.r ∧ asked.directories ≠ [] := by
  unfold Connection.useEntry at h
  dsimp only at h
  split at h
  · cases h
    cases hmatch
  · next file_in_cache disco_con_espacio hsearch =>
    obtain ⟨c₁, hsized, h⟩ := Option.bind_eq_some_iff.mp h
    have h₁ : c₁.r = c.r := by
      split at hsized
      · obtain ⟨filesizeneto, -, rfl⟩ := Option.map_eq_some_iff.mp hsized
        rfl
      · cases hsized
        rfl
    have hdirs : asked.directories = [] → file_in_cache = false ∧ disco_con_espacio = false := by
      intro hnil
      rw [hnil, searchDirectories] at hsearch
      obtain ⟨hfile, hspace⟩ := Prod.mk.inj (Option.some.inj hsearch)
      exact ⟨hfile.symm, hspace.symm⟩
    split at h
    · cases h
      cases hmatch
    · split at h
      · cases h
        obtain ⟨hspace, hr⟩ := fileMissing_row hmatch
        refine ⟨hr.trans h₁, fun hnil => ?_⟩
        rw [(hdirs hnil).2] at hspace
        cases hspace
      · next hfile =>
        refine ⟨(fileFound_row h hmatch).trans h₁, fun hnil => ?_⟩
        exact hfile (by rw [(hdirs hnil).1]; decide)

namespace EndsMatched

variable {asked : Asked} {disk : Disk} {cachedir : Str}

theorem row (h : EndsMatched db asked disk cachedir c c₁ c') :
    c'.r = c₁.r ∧ asked.directories ≠ [] := by
  obtain ⟨lfile, hlocked⟩ := h.locked
  have hmatch := h.isMatch
  cases cache_cases h.cache with
  | unasked unmatched result =>
    rw [result, unmatched] at hmatch
    cases hmatch
  | refused matched locked notTaken result =>
    rw [result] at hmatch
    cases hmatch
  | used matched locked taken uses =>
    rw [Connection.lockFile, locked] at hlocked
    obtain ⟨-, rfl⟩ := Prod.mk.inj (Option.some.inj hlocked)
    exact useEntry_row uses hmatch

/-- **The proxy and the cleaner agree** on every row but those of netflix. -/
theorem pathsAgree_iff (h : EndsMatched db asked disk cachedir c c₁ c') :
    PathsAgree cachedir c'.r.domain c'.r.file ↔ c'.r.domain ≠ netflix := by
  obtain ⟨hr, hdirs⟩ := h.row
  obtain ⟨found, hfound, hasked⟩ := h.searched
  rw [← hr] at hfound
  obtain ⟨subdir, hsubdir, htried⟩ := Option.bind_eq_some_iff.mp hfound
  have hne : found ≠ [] := by
    rintro rfl
    exact hdirs hasked
  obtain ⟨hexplode, directory, path, hpath⟩ := triedPaths_ne_nil htried hne
  constructor
  · intro hagree hdomain
    rw [hdomain] at hagree hpath
    exact not_pathsAgree_netflix hsubdir hexplode hpath hagree
  · intro hdomain
    exact pathsAgree_of_ne hdomain hsubdir cachedir

end EndsMatched

/-! ## Two rows -/

/-- A request for a file that has a row and is in no directory. -/
def missingAsked (domain file : Str) : Asked :=
  { plugin := some ⟨true, domain, file, 0, 0, 0, false⟩
    found := some (some ⟨file, some false, false⟩)
    directories := [⟨false, true⟩], selected := none }

def freeDisk : Disk := ⟨fun _ => false, fun _ => true⟩

def haarpDir : Str := ['/', 'h', 'a', 'a', 'r', 'p', '/']

/-- The connections behind `lockFile` and behind `Cache`. -/
def missingLocked (domain file : Str) : Connection :=
  (((Connection.new.ask (missingAsked domain file)).lockFile succeeds
    (missingAsked domain file).found).getD (0, .new)).2

def missingEnd (domain file : Str) : Connection :=
  (Connection.new.cache succeeds (missingAsked domain file)).getD .new

/-- `a.flv` of youtube. -/
theorem EndsMatched.pathsAgree_iff_flv :
    PathsAgree haarpDir (missingEnd youtube ['a', '.', 'f', 'l', 'v']).r.domain
        (missingEnd youtube ['a', '.', 'f', 'l', 'v']).r.file ↔
      (missingEnd youtube ['a', '.', 'f', 'l', 'v']).r.domain ≠ netflix :=
  have h : EndsMatched succeeds (missingAsked youtube ['a', '.', 'f', 'l', 'v']) freeDisk haarpDir .new
      (missingLocked youtube ['a', '.', 'f', 'l', 'v'])
      (missingEnd youtube ['a', '.', 'f', 'l', 'v']) :=
    { cache := by decide +kernel, isMatch := by decide +kernel, locked := ⟨1, by decide +kernel⟩
      searched := ⟨[("/haarp/youtube/2/7_39/a.flv".toList, ⟨false, true⟩)], by decide +kernel⟩ }
  EndsMatched.pathsAgree_iff h

/-- A film: the row has the identifier, the sum of the first part and the size. -/
def filmName : Str := ['1'] ++ DELIM ++ ['a', 'b'] ++ DELIM ++ ['2']

/-- The files of netflix are not deleted. -/
theorem not_pathsAgree_film :
    EndsMatched succeeds (missingAsked netflix filmName) freeDisk haarpDir .new
        (missingLocked netflix filmName) (missingEnd netflix filmName) ∧
      ¬ PathsAgree haarpDir (missingEnd netflix filmName).r.domain
        (missingEnd netflix filmName).r.file := by
  have hpaths : cachePaths freeDisk haarpDir netflix filmName =
      some [("/haarp/netflix/5/3_96/1_-DELHAARP-_ab".toList, ⟨false, true⟩)] := by decide +kernel
  have hrow : (missingEnd netflix filmName).r.domain = netflix ∧
      (missingEnd netflix filmName).r.file = filmName := by decide +kernel
  constructor
  · exact
      { cache := by decide +kernel, isMatch := by decide +kernel, locked := ⟨1, by decide +kernel⟩
        searched := ⟨_, hpaths, rfl⟩ }
  · rw [hrow.1, hrow.2]
    have hsubdir : ConvertChar filmName = some ['4', '/', '1', '_', '0', '4'] := by decide +kernel
    have hpath : cachePath netflix filmName haarpDir =
        some "/haarp/netflix/5/3_96/1_-DELHAARP-_ab".toList := by decide +kernel
    exact not_pathsAgree_netflix hsubdir (by decide +kernel) hpath

end Haarp
