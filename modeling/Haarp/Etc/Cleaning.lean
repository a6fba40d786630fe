import Haarp.Base.Sweep
import Haarp.Etc.Dates
import Haarp.Etc.HaarpClean

/-!
# The run of the cleaner

`main` of `haarpClean` without `--file`: in one phase after the other it takes the rows in blocks, those
that were requested least first, up to a date that comes closer to the last one with every phase.

* `clean_ended`: the blocks are taken in this order, and all but the last one are empty behind the run.
* `clean_exhausts`: a run that is not stopped by the limit leaves, of the rows in its range, those that
  were requested 96 to 106 times, and no other one.
* `clean_stops`: a run goes beyond the limit by no more than the rows of one statement.
* `clean_returns`: it ends, when the date reaches the last one in some phase, as it does in phase 52
  (`clean_ends`).
* `clean_files`: of the files that the cleaner looks for, those of the rows that are gone are gone, and
  no other ones.
-/

namespace Haarp.HaarpClean

open Base

/-! ## The source -/

def NUM_FILES : Nat := 10000

def MAX_HIT : Nat := 100

/-- A row of the table, as far as the cleaner reads it; `downloaded` is a day. -/
structure Entry where
  file : Str
  domain : Str
  filesize : Option Int
  bytes_requested : Nat
  downloaded : Int
  deriving DecidableEq, Repr

/-- The arguments of `delete_by_block`. -/
structure Block where
  fase : Nat
  hit : Nat
  flag : Bool
  deriving DecidableEq, Repr

/-- What a run depends on. Other sessions do not change the table meanwhile. -/
structure Setting where
  cachedir : Str
  /-- Without quotes and backslashes. -/
  domain : Str
  /-- `mktime(date_min)` -/
  dateMin : Int
  /-- `mktime(date_max)` -/
  dateMax : Int
  /-- `date2str` of the `localtime` -/
  date : Int → Int
  /-- `mb > total_delete_mb`, when files of these sizes are deleted. -/
  surpassed : List Int → Bool
  /-- `mb_eliminate < total_delete_mb` -/
  lacking : List Int → Bool
  /-- The rows that the statement of this number takes, of those that its condition is true for. -/
  limit : Nat → List Entry → List Entry
  limit_sublist : ∀ n l, (limit n l).Sublist l
  length_limit : ∀ n l, (limit n l).length = min NUM_FILES l.length
  /-- What a command of the shell leaves of the files. -/
  system : Str → List Str → List Str

structure State where
  rows : List Entry
  /-- The files that exist. -/
  disk : List Str
  /-- The sizes behind `mb`, for each file that was deleted. -/
  gone : List Int
  /-- The statements up to now. -/
  statements : Nat
  deriving DecidableEq, Repr

/-- `mktime(getNewDateMax(fase, hit))` -/
abbrev Setting.getNewDateMax (w : Setting) (fase hit : Nat) : Int :=
  HaarpClean.getNewDateMax w.dateMin w.dateMax fase hit

/-- The comparison of `bytes_requested` with the size. -/
def Entry.requested (b : Block) (r : Entry) : Bool :=
  match r.filesize with
  | none => false
  | some filesize =>
    if b.flag then (r.bytes_requested : Int) > b.hit * filesize
    else (r.bytes_requested : Int) ≤ b.hit * filesize

/-- The condition of `mysql_select_files` and `mysql_delete_files`. -/
def Setting.takes (w : Setting) (b : Block) (r : Entry) : Bool :=
  r.requested b && decide ((w.domain = [] ∨ r.domain = w.domain) ∧ w.date w.dateMin ≤ r.downloaded ∧
    r.downloaded ≤ w.date (w.getNewDateMax b.fase b.hit))

/-- `mysql_select_files` -/
def mysql_select_files (w : Setting) (b : Block) (s : State) : List Entry × State :=
  (w.limit s.statements (s.rows.filter (w.takes b)), { s with statements := s.statements + 1 })

/-- `mysql_delete_files` -/
def mysql_delete_files (w : Setting) (b : Block) (s : State) : State :=
  let deleted := w.limit s.statements (s.rows.filter (w.takes b))
  { s with rows := s.rows.filter (· ∉ deleted), statements := s.statements + 1 }

/-- One turn over the directories. -/
def deleteFile (w : Setting) (filesize : Int) (s : State) (f : Str) : State :=
  if s.disk.contains f then
    { s with disk := w.system (rmCommand f) s.disk, gone := s.gone ++ [filesize] }
  else s

/-- One turn over the rows; `none` when `ConvertChar` throws. The program ends there, with the files of the
rows before deleted and all these rows in the table: such a run is not one of those below. -/
def deleteRow (w : Setting) (s : State) (r : Entry) : Option State :=
  (rowPaths w.cachedir r.domain r.file).map fun paths =>
    paths.foldl (deleteFile w (r.filesize.getD 0)) s

/-- The loop of `delete_by_block`, if `fuel` turns are enough. -/
def deleteLoop (w : Setting) (b : Block) : Nat → State → Option (Bool × State)
  | 0, _ => none
  | fuel + 1, s =>
    let (res, s) := mysql_select_files w b s
    if res.isEmpty then some (!(b.flag && decide (w.dateMax = w.getNewDateMax b.fase b.hit)), s)
    else
      (res.foldlM (deleteRow w) s).bind fun s =>
        let s := mysql_delete_files w b s
        if w.surpassed s.gone then some (false, s) else deleteLoop w b fuel s

/-- `delete_by_block`; every turn deletes a row at least. -/
def delete_by_block (w : Setting) (b : Block) (s : State) : Option (Bool × State) :=
  deleteLoop w b (s.rows.length + 1) s

/-- The values of `hit` in the loop, and the one behind it. -/
def hitLoop : Nat → Nat → List Nat × Nat
  | 0, hit => ([], hit)
  | fuel + 1, hit =>
    if hit < MAX_HIT then
      let (hits, last) := hitLoop fuel (if hit > 15 then hit + 10 else hit + 1)
      (hit :: hits, last)
    else ([], hit)

/-- The loop over `hit`; the flag is `a`. -/
def runHits (w : Setting) (fase : Nat) : List Nat → State → Option (Bool × State)
  | [], s => some (false, s)
  | hit :: hits, s =>
    (delete_by_block w ⟨fase, hit, false⟩ s).bind fun (re, s) =>
      if re then runHits w fase hits s else some (true, s)

/-- The loop of `main` from a phase on, if `fuel` turns are enough. -/
def phases (w : Setting) : Nat → Nat → State → Option State
  | 0, _, _ => none
  | fuel + 1, fase, s =>
    if w.lacking s.gone then
      (runHits w fase (hitLoop MAX_HIT 0).1 s).bind fun (a, s) =>
        if a then some s
        else
          (delete_by_block w ⟨fase, (hitLoop MAX_HIT 0).2, true⟩ s).bind fun (re, s) =>
            if re then phases w fuel (fase + 1) s else some s
    else some s

def clean (w : Setting) (fuel : Nat) (s : State) : Option State := phases w fuel 0 s

/-- What is left of the rows, when the blocks `bs` have been taken and those of `done` are empty. -/
abbrev Setting.Sweep (w : Setting) (done bs : List Block) (rows rows' : List Entry) : Prop :=
  Swept (fun b r => w.takes b r = true) done bs rows rows'

/-- One disk, and a table whose rows are taken in their order. The range goes from day 3 over so many
days. -/
def oneDisk (days most : Int) : Setting where
  cachedir := "/c/".toList
  domain := []
  dateMin := 3 * 86400
  dateMax := (3 + days) * 86400
  date t := t / 86400
  surpassed gone := gone.foldl (· + ·) 0 > most
  lacking gone := gone.foldl (· + ·) 0 < most
  limit _ l := l.take NUM_FILES
  limit_sublist _ l := List.take_sublist NUM_FILES l
  length_limit _ _ := List.length_take
  system q disk :=
    match shWords (fun _ => false) .plain none q with
    | some [['r', 'm'], ['-', 'f'], f] => disk.filter (· ≠ f)
    | _ => disk

/-- A row that was requested twice and one that was requested 100 times. -/
def twoRows : State where
  rows := [⟨"a.flv".toList, youtube, some 10, 20, 3⟩, ⟨"b.flv".toList, youtube, some 1, 100, 3⟩]
  disk := ["/c/youtube/2/7_39/a.flv".toList, "/c/youtube/x".toList]
  gone := []
  statements := 0

/-- Behind the first phase enough is deleted. -/
theorem clean_twoRows : clean (oneDisk 9 10) 2 twoRows =
    some ⟨[⟨"b.flv".toList, youtube, some 1, 100, 3⟩], ["/c/youtube/x".toList], [10], 28⟩ := by
  decide +kernel

/-- In a table of one day the first phase is the last one. -/
theorem clean_twoRows_day : clean (oneDisk 0 100) 1 twoRows =
    some ⟨[⟨"b.flv".toList, youtube, some 1, 100, 3⟩], ["/c/youtube/x".toList], [10], 28⟩ := by
  decide +kernel

/-! ## One block -/

section Blocks

variable {w : Setting} {b : Block} {s s' : State} {fuel : Nat}

theorem limit_eq_nil {n : Nat} {l : List Entry} : w.limit n l = [] ↔ l = [] := by
  rw [← List.length_eq_zero_iff, w.length_limit, ← List.length_eq_zero_iff, Nat.min_eq_zero_iff]
  exact or_iff_right (by decide)

/-- Files do not change the table. -/
theorem foldl_deleteFile_rows (filesize : Int) (paths : List Str) (s : State) :
    (paths.foldl (deleteFile w filesize) s).rows = s.rows := by
  induction paths generalizing s with
  | nil => rfl
  | cons f paths ih =>
    rw [List.foldl_cons, ih, deleteFile]
    split <;> rfl

theorem foldlM_deleteRow_rows {res : List Entry} (h : res.foldlM (deleteRow w) s = some s') :
    s'.rows = s.rows := by
  induction res generalizing s with
  | nil =>
    cases h
    rfl
  | cons r res ih =>
    rw [List.foldlM_cons] at h
    obtain ⟨s₁, hrow, h⟩ := Option.bind_eq_some_iff.mp h
    obtain ⟨paths, -, rfl⟩ := Option.map_eq_some_iff.mp hrow
    rw [ih h, foldl_deleteFile_rows]

/-- A `DELETE` takes rows of the block. -/
theorem swept_delete (w : Setting) (b : Block) (s : State) :
    w.Sweep [] [b] s.rows (mysql_delete_files w b s).rows := by
  refine ⟨List.filter_sublist, fun r hr hr' => ⟨b, List.mem_singleton_self b, ?_⟩,
    fun _ hb => by cases hb⟩
  rw [mysql_delete_files, List.mem_filter, not_and] at hr'
  have hdeleted := of_decide_eq_false (Bool.eq_false_iff.mpr (hr' hr))
  rw [not_not] at hdeleted
  exact (List.mem_filter.mp ((w.limit_sublist _ _).subset hdeleted)).2

/-- A `DELETE` takes a row at least, if there is one. -/
theorem length_delete (h : s.rows.filter (w.takes b) ≠ []) :
    (mysql_delete_files w b s).rows.length < s.rows.length := by
  have hne : w.limit s.statements (s.rows.filter (w.takes b)) ≠ [] := fun hnil => h (limit_eq_nil.mp hnil)
  obtain ⟨r, hr⟩ := List.exists_mem_of_ne_nil _ hne
  have hmem : r ∈ s.rows := (List.mem_filter.mp ((w.limit_sublist _ _).subset hr)).1
  exact List.length_filter_lt_length_iff_exists.mpr ⟨r, hmem, by simpa using hr⟩

/-- One turn of the loop. -/
theorem deleteLoop_cases {re : Bool} (h : deleteLoop w b (fuel + 1) s = some (re, s')) :
    (s.rows.filter (w.takes b) = [] ∧ s' = (mysql_select_files w b s).2 ∧
        re = !(b.flag && decide (w.dateMax = w.getNewDateMax b.fase b.hit))) ∨
      ∃ s₁, (mysql_select_files w b s).1.foldlM (deleteRow w) (mysql_select_files w b s).2 = some s₁ ∧
        (w.surpassed s₁.gone = true ∧ re = false ∧ s' = mysql_delete_files w b s₁ ∨
          w.surpassed s₁.gone = false ∧
            deleteLoop w b fuel (mysql_delete_files w b s₁) = some (re, s')) := by
  rw [deleteLoop] at h
  dsimp only at h
  by_cases hnil : (mysql_select_files w b s).1.isEmpty = true
  · rw [if_pos hnil] at h
    obtain ⟨rfl, rfl⟩ := Prod.mk.inj (Option.some.inj h)
    exact .inl ⟨limit_eq_nil.mp (List.isEmpty_iff.mp hnil), rfl, rfl⟩
  · rw [if_neg hnil] at h
    obtain ⟨s₁, hfiles, h⟩ := Option.bind_eq_some_iff.mp h
    refine .inr ⟨s₁, hfiles, ?_⟩
    rw [show (mysql_delete_files w b s₁).gone = s₁.gone from rfl] at h
    by_cases hsurpassed : w.surpassed s₁.gone = true
    · rw [if_pos hsurpassed] at h
      obtain ⟨rfl, rfl⟩ := Prod.mk.inj (Option.some.inj h)
      exact .inl ⟨hsurpassed, rfl, rfl⟩
    · rw [if_neg hsurpassed] at h
      exact .inr ⟨Bool.eq_false_iff.mpr hsurpassed, h⟩

/-- What a block leaves: its rows are gone, or the limit is surpassed. -/
theorem deleteLoop_spec {re : Bool} (h : deleteLoop w b fuel s = some (re, s')) :
    w.Sweep [] [b] s.rows s'.rows ∧
      (re = false ∧ w.surpassed s'.gone = true ∨
        (∀ r ∈ s'.rows, ¬ w.takes b r = true) ∧
          re = !(b.flag && decide (w.dateMax = w.getNewDateMax b.fase b.hit))) := by
  induction fuel generalizing s with
  | zero => cases h
  | succ fuel ih =>
    rcases deleteLoop_cases h with ⟨hnil, rfl, hre⟩ | ⟨s₁, hfiles, hturn⟩
    · refine ⟨(Swept.refl s.rows).mono (List.nil_subset _) (List.nil_subset _), .inr ⟨?_, hre⟩⟩
      exact fun r hr => List.filter_eq_nil_iff.mp hnil r hr
    · have hfirst := swept_delete w b s₁
      rw [foldlM_deleteRow_rows hfiles] at hfirst
      rcases hturn with ⟨hsurpassed, rfl, rfl⟩ | ⟨-, hturn⟩
      · exact ⟨hfirst, .inl ⟨rfl, hsurpassed⟩⟩
      · obtain ⟨hrest, hend⟩ := ih hturn
        exact ⟨(hfirst.trans hrest).mono (List.nil_subset _) (by simp), hend⟩

end Blocks

/-! ## The order of the blocks -/

/-- The blocks of a phase, in the order in which they are taken. -/
def phaseBlocks (fase : Nat) : List Block :=
  (hitLoop MAX_HIT 0).1.map (⟨fase, ·, false⟩) ++ [⟨fase, (hitLoop MAX_HIT 0).2, true⟩]

/-- The blocks of the first `n` phases. -/
def schedule (n : Nat) : List Block := (List.range n).flatMap phaseBlocks

theorem schedule_succ (n : Nat) : schedule (n + 1) = schedule n ++ phaseBlocks n := by
  simp [schedule, List.range_succ]

/-- How a run ends: when the phases have deleted enough, within a block, or when the last date is
reached. -/
inductive Ended (w : Setting) (s s' : State) : Prop
  | reached (n : Nat) (henough : w.lacking s'.gone = false)
    (hswept : w.Sweep (schedule n) (schedule n) s.rows s'.rows)
  | surpassed (n : Nat) (done : List Block) (b : Block) (hblocks : done ++ [b] <+: schedule n)
    (hlimit : w.surpassed s'.gone = true)
    (hswept : w.Sweep done (done ++ [b]) s.rows s'.rows)
  | exhausted (n : Nat) (hdate : w.dateMax = w.getNewDateMax n (hitLoop MAX_HIT 0).2)
    (hswept : w.Sweep (schedule (n + 1)) (schedule (n + 1))
      s.rows s'.rows)

section Runs

variable {w : Setting} {s s₀ s' : State} {fuel fase : Nat}

/-- What the loop over `hit` leaves. -/
theorem runHits_spec {a : Bool} {hits : List Nat} (h : runHits w fase hits s = some (a, s')) :
    (a = false ∧ w.Sweep (hits.map (⟨fase, ·, false⟩))
        (hits.map (⟨fase, ·, false⟩)) s.rows s'.rows) ∨
      (a = true ∧ w.surpassed s'.gone = true ∧ ∃ done b, done ++ [b] <+: hits.map (⟨fase, ·, false⟩) ∧
        w.Sweep done (done ++ [b]) s.rows s'.rows) := by
  induction hits generalizing s with
  | nil =>
    cases h
    exact .inl ⟨rfl, Swept.refl _⟩
  | cons hit hits ih =>
    obtain ⟨⟨re, s₁⟩, hblock, h⟩ := Option.bind_eq_some_iff.mp h
    obtain ⟨hfirst, hend⟩ := deleteLoop_spec hblock
    cases re with
    | false =>
      obtain ⟨rfl, rfl⟩ := Prod.mk.inj (Option.some.inj h)
      rcases hend with ⟨-, hsurpassed⟩ | ⟨-, hre⟩
      · exact .inr ⟨rfl, hsurpassed, [], ⟨fase, hit, false⟩, by simp, hfirst⟩
      · cases hre
    | true =>
      rcases hend with ⟨hre, -⟩ | ⟨hempty, -⟩
      · cases hre
      have hdone : w.Sweep [⟨fase, hit, false⟩] [⟨fase, hit, false⟩]
          s.rows s₁.rows :=
        ⟨hfirst.sublist, hfirst.taken, fun b hb => List.mem_singleton.mp hb ▸ hempty⟩
      rcases ih h with ⟨ha, hrest⟩ | ⟨ha, hsurpassed, done, b, hblocks, hrest⟩
      · exact .inl ⟨ha, hdone.trans hrest⟩
      · exact .inr ⟨ha, hsurpassed, ⟨fase, hit, false⟩ :: done, b,
          List.cons_prefix_cons.mpr ⟨rfl, hblocks⟩, hdone.trans hrest⟩

/-- One phase. -/
theorem phases_cases (h : phases w (fuel + 1) fase s = some s') :
    (w.lacking s.gone = false ∧ s' = s) ∨
      ∃ a s₁, runHits w fase (hitLoop MAX_HIT 0).1 s = some (a, s₁) ∧
        (a = true ∧ s' = s₁ ∨
          a = false ∧ ∃ re s₂, delete_by_block w ⟨fase, (hitLoop MAX_HIT 0).2, true⟩ s₁ = some (re, s₂) ∧
            (re = false ∧ s' = s₂ ∨ re = true ∧ phases w fuel (fase + 1) s₂ = some s')) := by
  rw [phases] at h
  by_cases hlacking : w.lacking s.gone = true
  · rw [if_pos hlacking] at h
    obtain ⟨⟨a, s₁⟩, hhits, h⟩ := Option.bind_eq_some_iff.mp h
    refine .inr ⟨a, s₁, hhits, ?_⟩
    cases a with
    | true => exact .inl ⟨rfl, (Option.some.inj h).symm⟩
    | false =>
      obtain ⟨⟨re, s₂⟩, hblock, h⟩ := Option.bind_eq_some_iff.mp h
      refine .inr ⟨rfl, re, s₂, hblock, ?_⟩
      cases re with
      | false => exact .inl ⟨rfl, (Option.some.inj h).symm⟩
      | true => exact .inr ⟨rfl, h⟩
  · rw [if_neg hlacking] at h
    exact .inl ⟨Bool.eq_false_iff.mpr hlacking, (Option.some.inj h).symm⟩

/-- What the phases from `fase` on leave, when those before are done. -/
theorem phases_spec (h : phases w fuel fase s = some s')
    (hswept : w.Sweep (schedule fase) (schedule fase) s₀.rows s.rows) : Ended w s₀ s' := by
  induction fuel generalizing fase s with
  | zero => cases h
  | succ fuel ih =>
    rcases phases_cases h with ⟨hlacking, rfl⟩ | ⟨a, s₁, hhits, hphase⟩
    · exact .reached fase hlacking hswept
    rcases runHits_spec hhits with ⟨rfl, hfirst⟩ | ⟨rfl, hsurpassed, done, b, hblocks, hfirst⟩
    swap
    · -- a block of the loop has surpassed the limit
      rcases hphase with ⟨-, rfl⟩ | ⟨ha, -⟩
      swap
      · cases ha
      refine .surpassed (fase + 1) (schedule fase ++ done) b ?_ hsurpassed ?_
      · rw [schedule_succ, List.append_assoc, List.prefix_append_right_inj]
        exact hblocks.trans (List.prefix_append _ _)
      · rw [List.append_assoc]
        exact hswept.trans hfirst
    rcases hphase with ⟨ha, -⟩ | ⟨-, re, s₂, hblock, hnext⟩
    · cases ha
    obtain ⟨hlast, hend⟩ := deleteLoop_spec hblock
    have hboth := hswept.trans hfirst
    rcases hend with ⟨rfl, hsurpassed⟩ | ⟨hempty, hre⟩
    · rcases hnext with ⟨-, rfl⟩ | ⟨hre, -⟩
      swap
      · cases hre
      have hbefore : w.Sweep (schedule fase ++ (hitLoop MAX_HIT 0).1.map (⟨fase, ·, false⟩)) _
          s₀.rows s'.rows := (hboth.trans hlast).mono (by simp) (List.Subset.refl _)
      refine .surpassed (fase + 1) _ ⟨fase, (hitLoop MAX_HIT 0).2, true⟩ ?_ hsurpassed hbefore
      have hlist : schedule (fase + 1) = schedule fase ++ (hitLoop MAX_HIT 0).1.map (⟨fase, ·, false⟩) ++
          [⟨fase, (hitLoop MAX_HIT 0).2, true⟩] := by
        rw [schedule_succ, phaseBlocks, List.append_assoc]
      exact hlist ▸ List.prefix_rfl
    have hdone : w.Sweep [⟨fase, (hitLoop MAX_HIT 0).2, true⟩] [⟨fase, (hitLoop MAX_HIT 0).2, true⟩]
        s₁.rows s₂.rows :=
      ⟨hlast.sublist, hlast.taken, fun b hb => List.mem_singleton.mp hb ▸ hempty⟩
    have hall := hboth.trans hdone
    rw [List.append_assoc, ← phaseBlocks, ← schedule_succ] at hall
    rcases hnext with ⟨rfl, rfl⟩ | ⟨rfl, hnext⟩
    · refine .exhausted fase ?_ hall
      simpa using hre
    · exact ih hnext hall

/-- **The order of the cleaner**: the blocks come one after the other, as `schedule` has them, and all
but the last one are empty behind the run. -/
theorem clean_ended (h : clean w fuel s = some s') : Ended w s s' :=
  phases_spec h (Swept.refl s.rows)

theorem clean_ended_twoRows : ∃ s', clean (oneDisk 9 10) 2 twoRows = some s' ∧
    Ended (oneDisk 9 10) twoRows s' :=
  ⟨_, clean_twoRows, clean_ended clean_twoRows⟩

end Runs

/-! ## What is left -/

/-- The row is in the range of the run. -/
def Setting.inRange (w : Setting) (r : Entry) : Bool :=
  (w.domain = [] ∨ r.domain = w.domain) ∧ w.date w.dateMin ≤ r.downloaded ∧
    r.downloaded ≤ w.date w.dateMax

/-- The row was requested 96 to 106 times, by bytes, or has no size. -/
def Entry.between (r : Entry) : Bool :=
  match r.filesize with
  | none => true
  | some filesize => 96 * filesize < r.bytes_requested ∧ (r.bytes_requested : Int) ≤ 106 * filesize

/-- The dates are in their order, and those of the calendar go with the times. -/
structure Setting.Dated (w : Setting) : Prop where
  ordered : w.dateMin ≤ w.dateMax
  /-- A `double` has the range of times. -/
  span : w.dateMax - w.dateMin ≤ 2 ^ 53
  mono : ∀ t t', t ≤ t' → w.date t ≤ w.date t'

section Left

variable {w : Setting} {s s' : State} {fuel : Nat} {r : Entry}

theorem hitLoop_eq : hitLoop MAX_HIT 0 =
    ([0, 1, 2, 3, 4, 5, 6, 7, 8, 9, 10, 11, 12, 13, 14, 15, 16, 26, 36, 46, 56, 66, 76, 86, 96],
      106) := by
  decide

/-- After 96 the loop ends with 106, so that between them no block asks for a row. -/
theorem between_iff (fase : Nat) :
    r.between = true ↔ ∀ b ∈ phaseBlocks fase, r.requested b = false := by
  unfold phaseBlocks
  rw [hitLoop_eq]
  cases hsize : r.filesize with
  | none => simp [Entry.between, Entry.requested, hsize]
  | some filesize =>
    simp [Entry.between, Entry.requested, hsize]
    omega

theorem mem_phaseBlocks {fase : Nat} {b : Block} (h : b ∈ phaseBlocks fase) :
    b.fase = fase ∧ b.hit ≤ 106 := by
  unfold phaseBlocks at h
  rw [hitLoop_eq] at h
  rcases List.mem_append.mp h with h | h
  · obtain ⟨hit, hhit, rfl⟩ := List.mem_map.mp h
    have hall : ∀ hit ∈ [0, 1, 2, 3, 4, 5, 6, 7, 8, 9, 10, 11, 12, 13, 14, 15, 16, 26, 36, 46, 56, 66, 76,
        86, 96], hit ≤ 106 := by decide
    exact ⟨rfl, hall hit hhit⟩
  · rw [List.mem_singleton.mp h]
    exact ⟨rfl, le_rfl⟩

theorem takes_iff {b : Block} : w.takes b r = true ↔ r.requested b = true ∧
    (w.domain = [] ∨ r.domain = w.domain) ∧ w.date w.dateMin ≤ r.downloaded ∧
      r.downloaded ≤ w.date (w.getNewDateMax b.fase b.hit) := by
  rw [Setting.takes, Bool.and_eq_true, decide_eq_true_eq]

/-- A row that some block takes is in the range, and was not requested 96 to 106 times. -/
theorem of_takes (hdated : w.Dated) {n : Nat} {b : Block} (hb : b ∈ schedule n) (h : w.takes b r = true) :
    w.inRange r = true ∧ r.between = false := by
  obtain ⟨hrequested, hdomain, hmin, hmax⟩ := takes_iff.mp h
  obtain ⟨fase, -, hphase⟩ := List.mem_flatMap.mp hb
  have hdate := getNewDateMax_le hdated.ordered hdated.span b.fase b.hit
  refine ⟨decide_eq_true ⟨hdomain, hmin, hmax.trans (hdated.mono _ _ hdate)⟩, ?_⟩
  rw [Bool.eq_false_iff]
  intro hbetween
  rw [(between_iff fase).mp hbetween b hphase] at hrequested
  cases hrequested

/-- When the last date is reached, a block takes each of the other rows. -/
theorem exists_takes (hdated : w.Dated) {n : Nat} (hdate : w.dateMax = w.getNewDateMax n 106)
    (hrange : w.inRange r = true) (hbetween : r.between = false) :
    ∃ b ∈ schedule (n + 1), w.takes b r = true := by
  obtain ⟨hdomain, hmin, hmax⟩ := of_decide_eq_true hrange
  have hsome : ¬ ∀ b ∈ phaseBlocks n, r.requested b = false := fun hall => by
    rw [(between_iff n).mpr hall] at hbetween
    cases hbetween
  push Not at hsome
  obtain ⟨b, hb, hrequested⟩ := hsome
  obtain ⟨hfase, hhit⟩ := mem_phaseBlocks hb
  refine ⟨b, ?_, takes_iff.mpr ⟨?_, hdomain, hmin, hmax.trans (hdated.mono _ _ ?_)⟩⟩
  · rw [schedule_succ]
    exact List.mem_append_right _ hb
  · exact Bool.not_eq_false _ ▸ hrequested
  · rw [hdate, hfase]
    exact getNewDateMax_antitone hdated.ordered n hhit

/-- **What a whole run leaves**: when neither the limit nor the amount stops it, the rows in its range
are gone, but for those between 96 and 106 requests, which no run ever deletes. -/
theorem clean_exhausts (hdated : w.Dated) (hnodup : s.rows.Nodup) (h : clean w fuel s = some s')
    (hlacking : w.lacking s'.gone = true) (hlimit : w.surpassed s'.gone = false) :
    s'.rows = s.rows.filter fun r => !w.inRange r || r.between := by
  cases clean_ended h with
  | reached n henough => rw [henough] at hlacking; cases hlacking
  | surpassed n done b hblocks hsurpassed => rw [hsurpassed] at hlimit; cases hlimit
  | exhausted n hdate hswept =>
    refine hswept.eq_filter hnodup _ fun r _ => ?_
    rw [Bool.or_eq_true, Bool.not_eq_true']
    constructor
    · intro hkept b hb htakes
      obtain ⟨hrange, hbetween⟩ := of_takes hdated hb htakes
      rw [hrange, hbetween] at hkept
      rcases hkept with hkept | hkept <;> cases hkept
    · intro hnone
      by_contra hkept
      rw [not_or, Bool.not_eq_false, Bool.not_eq_true] at hkept
      rw [hitLoop_eq] at hdate
      obtain ⟨b, hb, htakes⟩ := exists_takes hdated hdate hkept.1 hkept.2
      exact hnone b hb htakes

theorem clean_exhausts_twoRows : ∃ s', clean (oneDisk 0 100) 1 twoRows = some s' ∧
    s'.rows = twoRows.rows.filter fun r => !(oneDisk 0 100).inRange r || r.between := by
  have hdated : (oneDisk 0 100).Dated :=
    ⟨le_rfl, by decide, fun _ _ h => Int.ediv_le_ediv (by decide) h⟩
  exact ⟨_, clean_twoRows_day, clean_exhausts hdated (by decide) clean_twoRows_day rfl rfl⟩

end Left

/-! ## The amount -/

section Amount

variable {w : Setting} {b : Block} {s s' : State} {fuel fase : Nat}

/-- The directories of the cache. -/
def Setting.dirs (w : Setting) : Nat := (stringexplodetrim w.cachedir ['|']).length

/-- What is deleted is not beyond the limit, but for the rows of the last statement. -/
def Stopped (w : Setting) (gone : List Int) : Prop :=
  ∃ before last, gone = before ++ last ∧ (before = [] ∨ w.surpassed before = false) ∧
    last.length ≤ NUM_FILES * w.dirs

theorem foldl_deleteFile_gone (filesize : Int) (paths : List Str) (s : State) :
    ∃ last, (paths.foldl (deleteFile w filesize) s).gone = s.gone ++ last ∧
      last.length ≤ paths.length := by
  induction paths generalizing s with
  | nil => exact ⟨[], by simp, le_rfl⟩
  | cons f paths ih =>
    obtain ⟨last, hgone, hlength⟩ := ih (deleteFile w filesize s f)
    rw [List.foldl_cons, hgone, deleteFile]
    split
    · exact ⟨filesize :: last, by simp, Nat.succ_le_succ hlength⟩
    · exact ⟨last, rfl, hlength.trans (Nat.le_succ _)⟩

theorem foldlM_deleteRow_gone {res : List Entry} (h : res.foldlM (deleteRow w) s = some s') :
    ∃ last, s'.gone = s.gone ++ last ∧ last.length ≤ res.length * w.dirs := by
  induction res generalizing s with
  | nil =>
    cases h
    exact ⟨[], by simp, Nat.zero_le _⟩
  | cons r res ih =>
    rw [List.foldlM_cons] at h
    obtain ⟨s₁, hrow, h⟩ := Option.bind_eq_some_iff.mp h
    obtain ⟨paths, hpaths, rfl⟩ := Option.map_eq_some_iff.mp hrow
    obtain ⟨subdir, -, rfl⟩ := Option.map_eq_some_iff.mp hpaths
    obtain ⟨first, hfirst, hfirstLength⟩ := foldl_deleteFile_gone (w := w) (r.filesize.getD 0)
      ((stringexplodetrim w.cachedir ['|']).map fun dir => rowPath dir r.domain subdir r.file) s
    obtain ⟨last, hlast, hlength⟩ := ih h
    refine ⟨first ++ last, by rw [hlast, hfirst, List.append_assoc], ?_⟩
    rw [List.length_map] at hfirstLength
    rw [List.length_append, List.length_cons, Nat.succ_mul, Nat.add_comm (res.length * _)]
    exact Nat.add_le_add hfirstLength hlength

theorem stopped_of_within (h : s.gone = [] ∨ w.surpassed s.gone = false) : Stopped w s.gone :=
  ⟨s.gone, [], (List.append_nil _).symm, h, Nat.zero_le _⟩

theorem deleteLoop_stops {re : Bool} (hwithin : s.gone = [] ∨ w.surpassed s.gone = false)
    (h : deleteLoop w b fuel s = some (re, s')) :
    Stopped w s'.gone ∧ (re = true → s'.gone = [] ∨ w.surpassed s'.gone = false) := by
  induction fuel generalizing s with
  | zero => cases h
  | succ fuel ih =>
    rcases deleteLoop_cases h with ⟨-, rfl, -⟩ | ⟨s₁, hfiles, hturn⟩
    · exact ⟨stopped_of_within hwithin, fun _ => hwithin⟩
    rcases hturn with ⟨-, rfl, rfl⟩ | ⟨hsurpassed, hturn⟩
    · obtain ⟨last, hgone, hlength⟩ := foldlM_deleteRow_gone hfiles
      refine ⟨⟨s.gone, last, hgone, hwithin, hlength.trans ?_⟩, fun hre => by cases hre⟩
      rw [mysql_select_files, w.length_limit]
      exact Nat.mul_le_mul_right _ (Nat.min_le_left _ _)
    · refine ih ?_ hturn
      exact .inr hsurpassed

theorem runHits_stops {a : Bool} {hits : List Nat} (hwithin : s.gone = [] ∨ w.surpassed s.gone = false)
    (h : runHits w fase hits s = some (a, s')) :
    Stopped w s'.gone ∧ (a = false → s'.gone = [] ∨ w.surpassed s'.gone = false) := by
  induction hits generalizing s with
  | nil =>
    cases h
    exact ⟨stopped_of_within hwithin, fun _ => hwithin⟩
  | cons hit hits ih =>
    obtain ⟨⟨re, s₁⟩, hblock, h⟩ := Option.bind_eq_some_iff.mp h
    obtain ⟨hstopped, hnext⟩ := deleteLoop_stops hwithin hblock
    cases re with
    | false =>
      cases h
      exact ⟨hstopped, fun ha => by cases ha⟩
    | true => exact ih (hnext rfl) h

/-- **How much is deleted**: no more than up to the limit, and the files of one statement. -/
theorem clean_stops (hstart : s.gone = []) (h : clean w fuel s = some s') : Stopped w s'.gone := by
  have hphases : ∀ fuel fase s, (s.gone = [] ∨ w.surpassed s.gone = false) →
      phases w fuel fase s = some s' → Stopped w s'.gone := by
    clear hstart h
    intro fuel
    induction fuel with
    | zero =>
      intro fase s _ h
      cases h
    | succ fuel ih =>
      intro fase s hwithin h
      rcases phases_cases h with ⟨-, rfl⟩ | ⟨a, s₁, hhits, hphase⟩
      · exact stopped_of_within hwithin
      obtain ⟨hstopped, hnext⟩ := runHits_stops hwithin hhits
      rcases hphase with ⟨-, rfl⟩ | ⟨rfl, re, s₂, hblock, hend⟩
      · exact hstopped
      obtain ⟨hstopped, hnext⟩ := deleteLoop_stops (hnext rfl) hblock
      rcases hend with ⟨-, rfl⟩ | ⟨rfl, h⟩
      · exact hstopped
      · exact ih (fase + 1) s₂ (hnext rfl) h
  exact hphases fuel 0 s (.inl hstart) h

theorem clean_stops_twoRows : ∃ s', clean (oneDisk 9 10) 2 twoRows = some s' ∧
    Stopped (oneDisk 9 10) s'.gone :=
  ⟨_, clean_twoRows, clean_stops rfl clean_twoRows⟩

end Amount

/-! ## The end -/

section End

variable {w : Setting} {b : Block} {s s' : State} {fuel fase last : Nat}

theorem foldlM_deleteRow_returns {res : List Entry} (hres : ∀ r ∈ res, (ConvertChar r.file).isSome)
    (s : State) : ∃ s', res.foldlM (deleteRow w) s = some s' := by
  induction res generalizing s with
  | nil => exact ⟨s, rfl⟩
  | cons r res ih =>
    obtain ⟨subdir, hsubdir⟩ := Option.isSome_iff_exists.mp (hres r List.mem_cons_self)
    obtain ⟨s', hs'⟩ := ih (fun r hr => hres r (List.mem_cons_of_mem _ hr))
      (((stringexplodetrim w.cachedir ['|']).map fun dir => rowPath dir r.domain subdir r.file).foldl
        (deleteFile w (r.filesize.getD 0)) s)
    refine ⟨s', ?_⟩
    rw [List.foldlM_cons, deleteRow, rowPaths, hsubdir]
    exact hs'

/-- The loop ends, since the table becomes smaller. -/
theorem deleteLoop_returns (hfiles : ∀ r ∈ s.rows, (ConvertChar r.file).isSome)
    (hfuel : s.rows.length < fuel) : ∃ re s', deleteLoop w b fuel s = some (re, s') := by
  induction fuel generalizing s with
  | zero => exact absurd hfuel (Nat.not_lt_zero _)
  | succ fuel ih =>
    rw [deleteLoop]
    dsimp only
    by_cases hnil : (mysql_select_files w b s).1.isEmpty = true
    · rw [if_pos hnil]
      exact ⟨_, _, rfl⟩
    rw [if_neg hnil]
    have hres : ∀ r ∈ (mysql_select_files w b s).1, (ConvertChar r.file).isSome := fun r hr =>
      hfiles r (List.mem_filter.mp ((w.limit_sublist _ _).subset hr)).1
    obtain ⟨s₁, hs₁⟩ := foldlM_deleteRow_returns (w := w) hres (mysql_select_files w b s).2
    have hrows : s₁.rows = s.rows := (foldlM_deleteRow_rows hs₁ :)
    rw [hs₁, Option.bind_some]
    split
    · exact ⟨_, _, rfl⟩
    · have hsome : s₁.rows.filter (w.takes b) ≠ [] := fun heq => by
        rw [hrows] at heq
        exact hnil (List.isEmpty_iff.mpr (limit_eq_nil.mpr heq))
      have hless := length_delete hsome
      refine ih (fun r hr => hfiles r ?_) ?_
      · rw [← hrows]
        exact (swept_delete w b s₁).sublist.subset hr
      · rw [hrows] at hless
        omega

theorem runHits_returns {hits : List Nat} (hfiles : ∀ r ∈ s.rows, (ConvertChar r.file).isSome) :
    ∃ a s', runHits w fase hits s = some (a, s') ∧ s'.rows ⊆ s.rows := by
  induction hits generalizing s with
  | nil => exact ⟨false, s, rfl, List.Subset.refl _⟩
  | cons hit hits ih =>
    obtain ⟨re, s₁, hblock⟩ := deleteLoop_returns (w := w) (b := ⟨fase, hit, false⟩) hfiles
      (Nat.lt_succ_self _)
    have hsubset := (deleteLoop_spec hblock).1.sublist.subset
    rw [runHits, delete_by_block, hblock, Option.bind_some]
    cases re with
    | false => exact ⟨true, s₁, rfl, hsubset⟩
    | true =>
      obtain ⟨a, s', hhits, hrest⟩ := ih fun r hr => hfiles r (hsubset hr)
      exact ⟨a, s', hhits, List.Subset.trans hrest hsubset⟩

/-- From a phase on, up to the one in which the last date is reached. -/
theorem phases_returns (hfiles : ∀ r ∈ s.rows, (ConvertChar r.file).isSome)
    (hdate : w.dateMax = w.getNewDateMax last 106) (hfuel : fase + fuel = last + 1) (hpos : 0 < fuel) :
    ∃ s', phases w fuel fase s = some s' := by
  induction fuel generalizing fase s with
  | zero => exact absurd hpos (lt_irrefl 0)
  | succ fuel ih =>
    rw [phases]
    split
    swap
    · exact ⟨s, rfl⟩
    obtain ⟨a, s₁, hhits, hsubset⟩ : ∃ a s₁, runHits w fase (hitLoop MAX_HIT 0).1 s = some (a, s₁) ∧
        s₁.rows ⊆ s.rows := runHits_returns hfiles
    rw [hhits, Option.bind_some]
    dsimp only
    split
    · exact ⟨s₁, rfl⟩
    have hfiles₁ : ∀ r ∈ s₁.rows, (ConvertChar r.file).isSome := fun r hr => hfiles r (hsubset hr)
    obtain ⟨re, s₂, hblock⟩ := deleteLoop_returns (w := w) (b := ⟨fase, (hitLoop MAX_HIT 0).2, true⟩)
      hfiles₁ (Nat.lt_succ_self _)
    obtain ⟨hswept, hend⟩ := deleteLoop_spec hblock
    rw [delete_by_block, hblock, Option.bind_some]
    dsimp only
    split
    swap
    · exact ⟨s₂, rfl⟩
    · next hre =>
      refine ih (fun r hr => hfiles₁ r (hswept.sublist.subset hr)) (by omega) ?_
      -- in the last phase the block with the flag ends the run
      rcases Nat.eq_zero_or_pos fuel with rfl | hpos
      · rw [Nat.add_right_cancel hfuel, hitLoop_eq] at hend
        rcases hend with ⟨hfalse, -⟩ | ⟨-, hfalse⟩
        · rw [hre] at hfalse
          cases hfalse
        · rw [hre, ← hdate] at hfalse
          simp at hfalse
      · exact hpos

/-- **The cleaner ends** with the phase in which the last date is reached, at the latest. -/
theorem clean_returns (hfiles : ∀ r ∈ s.rows, (ConvertChar r.file).isSome)
    (hdate : w.dateMax = w.getNewDateMax last 106) : ∃ s', clean w (last + 1) s = some s' :=
  phases_returns hfiles hdate (Nat.zero_add _) (Nat.succ_pos last)

/-- 53 phases are enough for every table. -/
theorem clean_ends (hfiles : ∀ r ∈ s.rows, (ConvertChar r.file).isSome) (hdated : w.Dated) :
    ∃ s', clean w 53 s = some s' :=
  phases_returns hfiles (getNewDateMax_last hdated.ordered hdated.span le_rfl 106).symm rfl
    (Nat.succ_pos 52)

theorem clean_returns_twoRows : ∃ s', clean (oneDisk 9 100) 53 twoRows = some s' :=
  clean_returns (by decide +kernel) (getNewDateMax_last (by decide) (by decide) le_rfl 106).symm

end End

/-! ## The files -/

section Files

variable {w : Setting} {b : Block} {s s₀ s₁ s₂ s' : State} {fuel fase : Nat} {plainDollar : Char → Bool}

/-- The cleaner looks for the file of the row there. -/
def Setting.HasFile (w : Setting) (r : Entry) (f : Str) : Prop :=
  ∃ paths, rowPaths w.cachedir r.domain r.file = some paths ∧ f ∈ paths

/-- The paths that the shell leaves as they are and `rm` does not take for options. -/
structure Plainly (plainDollar : Char → Bool) (f : Str) : Prop where
  literal : LiteralText plainDollar f
  option : f.head? ≠ some '-'

/-- The shell and `rm` do what the command says. -/
def Setting.Removes (w : Setting) (plainDollar : Char → Bool) : Prop :=
  ∀ q f, shWords plainDollar .plain none q = some [['r', 'm'], ['-', 'f'], f] → f.head? ≠ some '-' →
    ∀ disk g, g ∈ w.system q disk ↔ g ∈ disk ∧ g ≠ f

/-- Of the files those are gone whose row is gone, and no other ones. -/
structure Removed (w : Setting) (s s' : State) : Prop where
  rows : s'.rows ⊆ s.rows
  files : ∀ f, f ∈ s'.disk ↔ f ∈ s.disk ∧ ∀ r ∈ s.rows, w.HasFile r f → r ∈ s'.rows

theorem Removed.refl (w : Setting) (s : State) : Removed w s s :=
  ⟨List.Subset.refl _, fun _ => (and_iff_left fun _ hr _ => hr).symm⟩

theorem Removed.trans (h : Removed w s s₁) (h' : Removed w s₁ s₂) : Removed w s s₂ := by
  refine ⟨List.Subset.trans h'.rows h.rows, fun f => ?_⟩
  rw [h'.files, h.files, and_assoc, and_congr_right_iff]
  intro _
  constructor
  · exact fun ⟨hfirst, hsecond⟩ r hr hfile => hsecond r (hfirst r hr hfile) hfile
  · exact fun hall => ⟨fun r hr hfile => h'.rows (hall r hr hfile),
      fun r hr hfile => hall r (h.rows hr) hfile⟩

theorem mem_deleteFile (hsystem : w.Removes plainDollar) {f g : Str} (hf : Plainly plainDollar f)
    (filesize : Int) : g ∈ (deleteFile w filesize s f).disk ↔ g ∈ s.disk ∧ g ≠ f := by
  unfold deleteFile
  split
  · exact hsystem _ f ((shWords_rmCommand_iff plainDollar f).mpr hf.literal) hf.option s.disk g
  · next hnot =>
    have hmissing : f ∉ s.disk := fun hf => hnot (List.contains_iff_mem.mpr hf)
    exact (and_iff_left_of_imp fun hg (heq : g = f) => hmissing (heq ▸ hg)).symm

theorem mem_foldl_deleteFile (hsystem : w.Removes plainDollar) {paths : List Str}
    (hpaths : ∀ f ∈ paths, Plainly plainDollar f) (filesize : Int) {g : Str} :
    g ∈ (paths.foldl (deleteFile w filesize) s).disk ↔ g ∈ s.disk ∧ g ∉ paths := by
  induction paths generalizing s with
  | nil => simp
  | cons f paths ih =>
    rw [List.forall_mem_cons] at hpaths
    rw [List.foldl_cons, ih hpaths.2, mem_deleteFile hsystem hpaths.1, List.mem_cons, not_or, and_assoc]

theorem mem_foldlM_deleteRow (hsystem : w.Removes plainDollar) {res : List Entry}
    (hres : ∀ r ∈ res, ∀ f, w.HasFile r f → Plainly plainDollar f) {g : Str}
    (h : res.foldlM (deleteRow w) s = some s') :
    g ∈ s'.disk ↔ g ∈ s.disk ∧ ∀ r ∈ res, ¬ w.HasFile r g := by
  induction res generalizing s with
  | nil =>
    cases h
    simp
  | cons r res ih =>
    rw [List.forall_mem_cons] at hres
    rw [List.foldlM_cons] at h
    obtain ⟨s₁, hrow, h⟩ := Option.bind_eq_some_iff.mp h
    obtain ⟨paths, hpaths, rfl⟩ := Option.map_eq_some_iff.mp hrow
    have hfile : ∀ f, w.HasFile r f ↔ f ∈ paths := fun f =>
      ⟨fun ⟨_, hpaths', hf⟩ => Option.some.inj (hpaths'.symm.trans hpaths) ▸ hf,
        fun hf => ⟨paths, hpaths, hf⟩⟩
    rw [ih hres.2 h, mem_foldl_deleteFile hsystem fun f hf => hres.1 f ((hfile f).mpr hf),
      List.forall_mem_cons, hfile, and_assoc]

/-- A turn of the loop deletes the files of the rows that it takes out of the table. -/
theorem removed_turn (hsystem : w.Removes plainDollar) (hsteady : ∀ n l, w.limit n l = w.limit 0 l)
    (hplain : ∀ r ∈ s.rows, ∀ f, w.HasFile r f → Plainly plainDollar f)
    (h : (mysql_select_files w b s).1.foldlM (deleteRow w) (mysql_select_files w b s).2 = some s₁) :
    Removed w s (mysql_delete_files w b s₁) := by
  have hres : ∀ r ∈ (mysql_select_files w b s).1, r ∈ s.rows := fun r hr =>
    (List.mem_filter.mp ((w.limit_sublist _ _).subset hr)).1
  have hrows : s₁.rows = s.rows := (foldlM_deleteRow_rows h :)
  have hdeleted : ∀ r, r ∈ (mysql_delete_files w b s₁).rows ↔
      r ∈ s.rows ∧ r ∉ (mysql_select_files w b s).1 := by
    intro r
    rw [mysql_delete_files, mysql_select_files, List.mem_filter, hrows, hsteady s₁.statements,
      hsteady s.statements, decide_eq_true_eq]
  refine ⟨fun r hr => ((hdeleted r).mp hr).1, fun f => ?_⟩
  have hdisk := mem_foldlM_deleteRow hsystem (fun r hr => hplain r (hres r hr)) (g := f) h
  refine hdisk.trans (and_congr_right fun _ => ?_)
  constructor
  · exact fun hnone r hr hfile => (hdeleted r).mpr ⟨hr, fun hin => hnone r hin hfile⟩
  · exact fun hall r hr hfile => ((hdeleted r).mp (hall r (hres r hr) hfile)).2 hr

theorem removed_deleteLoop (hsystem : w.Removes plainDollar) (hsteady : ∀ n l, w.limit n l = w.limit 0 l)
    (hplain : ∀ r ∈ s.rows, ∀ f, w.HasFile r f → Plainly plainDollar f) {re : Bool}
    (h : deleteLoop w b fuel s = some (re, s')) : Removed w s s' := by
  induction fuel generalizing s with
  | zero => cases h
  | succ fuel ih =>
    rcases deleteLoop_cases h with ⟨-, rfl, -⟩ | ⟨s₁, hfiles, hturn⟩
    · exact ⟨List.Subset.refl _, (Removed.refl w s).files⟩
    have hfirst := removed_turn hsystem hsteady hplain hfiles
    rcases hturn with ⟨-, -, rfl⟩ | ⟨-, hturn⟩
    · exact hfirst
    · exact hfirst.trans (ih (fun r hr => hplain r (hfirst.rows hr)) hturn)

theorem removed_runHits (hsystem : w.Removes plainDollar) (hsteady : ∀ n l, w.limit n l = w.limit 0 l)
    (hplain : ∀ r ∈ s.rows, ∀ f, w.HasFile r f → Plainly plainDollar f) {a : Bool} {hits : List Nat}
    (h : runHits w fase hits s = some (a, s')) : Removed w s s' := by
  induction hits generalizing s with
  | nil =>
    cases h
    exact Removed.refl w _
  | cons hit hits ih =>
    obtain ⟨⟨re, s₁⟩, hblock, h⟩ := Option.bind_eq_some_iff.mp h
    have hfirst := removed_deleteLoop hsystem hsteady hplain hblock
    cases re with
    | false =>
      cases h
      exact hfirst
    | true => exact hfirst.trans (ih (fun r hr => hplain r (hfirst.rows hr)) h)

/-- **No file that the cleaner looks for is left without its row, and no other file is deleted**, if each
`DELETE` takes the rows of the `SELECT` before it and the paths are plain for the shell. -/
theorem clean_files (hsystem : w.Removes plainDollar) (hsteady : ∀ n l, w.limit n l = w.limit 0 l)
    (hplain : ∀ r ∈ s.rows, ∀ f, w.HasFile r f → Plainly plainDollar f)
    (h : clean w fuel s = some s') : Removed w s s' := by
  have hphases : ∀ fuel fase s, (∀ r ∈ s.rows, ∀ f, w.HasFile r f → Plainly plainDollar f) →
      phases w fuel fase s = some s' → Removed w s s' := by
    clear hplain h
    intro fuel
    induction fuel with
    | zero =>
      intro fase s _ h
      cases h
    | succ fuel ih =>
      intro fase s hplain h
      rcases phases_cases h with ⟨-, rfl⟩ | ⟨a, s₁, hhits, hphase⟩
      · exact Removed.refl w _
      have hfirst := removed_runHits hsystem hsteady hplain hhits
      rcases hphase with ⟨-, rfl⟩ | ⟨-, re, s₂, hblock, hend⟩
      · exact hfirst
      have hplain₁ : ∀ r ∈ s₁.rows, ∀ f, w.HasFile r f → Plainly plainDollar f := fun r hr =>
        hplain r (hfirst.rows hr)
      have hboth := hfirst.trans (removed_deleteLoop hsystem hsteady hplain₁ hblock)
      rcases hend with ⟨-, rfl⟩ | ⟨-, h⟩
      · exact hboth
      · exact hboth.trans (ih (fase + 1) s₂ (fun r hr => hplain r (hboth.rows hr)) h)
  exact hphases fuel 0 s hplain h

theorem clean_files_twoRows : ∃ s', clean (oneDisk 9 10) 2 twoRows = some s' ∧
    Removed (oneDisk 9 10) twoRows s' := by
  have hsystem : (oneDisk 9 10).Removes fun _ => false := by
    intro q f hq _ disk g
    have hfilter : (oneDisk 9 10).system q disk = disk.filter (· ≠ f) := by simp [oneDisk, hq]
    rw [hfilter, List.mem_filter, decide_eq_true_eq]
  have hpaths : ∀ r ∈ twoRows.rows, ∃ f, rowPaths "/c/".toList r.domain r.file = some [f] ∧
      LiteralText (fun _ => false) f ∧ f.head? ≠ some '-' := by
    intro r hr
    rcases List.mem_cons.mp hr with rfl | hr
    · exact ⟨"/c/youtube/2/7_39/a.flv".toList, by decide +kernel,
        (shWords_rmCommand_iff _ _).mp (by decide +kernel), by decide⟩
    · rw [List.mem_singleton.mp hr]
      exact ⟨"/c/youtube/2/8_39/b.flv".toList, by decide +kernel,
        (shWords_rmCommand_iff _ _).mp (by decide +kernel), by decide⟩
  refine ⟨_, clean_twoRows, clean_files hsystem (fun _ _ => rfl) (fun r hr f hfile => ?_) clean_twoRows⟩
  obtain ⟨path, hpath, hliteral, hoption⟩ := hpaths r hr
  obtain ⟨paths, hpaths, hf⟩ := hfile
  cases hpath.symm.trans hpaths
  rw [List.mem_singleton.mp hf]
  exact ⟨hliteral, hoption⟩

end Files

end Haarp.HaarpClean
