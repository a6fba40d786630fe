import Haarp.Cache.Marks

/-!
# A request that does not use the cache

What a connection tells the database for a request for which `Cache` ends without a match. Most
statements never change what a row records (`Stmt.keepsEntries`), and such a request sends no other
one (`Adds`), with a single exception: `Cache2` records the size of the file for the key that is left
in `r`, when `ReadHeader` reaches it (`Connection.Records`). `readHeader_declined` has both cases.

Other connections may change the rows at any time: `tables` is the table that a statement meets, given
those that the connection has sent before.
-/

namespace Haarp

/-! ## Statements that change a row -/

/-- The statement changes what an existing row records. -/
def Stmt.Alters (tb : Table) (s : Stmt) : Prop :=
  ∃ now key row row', tb key = some row ∧ s.apply now tb key = some row' ∧
    (row'.size, row'.rg, row'.pos, row'.filesize) ≠ (row.size, row.rg, row.pos, row.filesize)

/-- None of the statements `new`, sent after those of `log`, changes what a row records. -/
def Spares (tables : Log → Table) : Log → Log → Prop
  | _, [] => True
  | log, s :: new =>
    (s.2 = true → ¬ s.1.Alters (tables log)) ∧ Spares tables (log ++ [s]) new

theorem spares_append {tables : Log → Table} {log new new' : Log} :
    Spares tables log (new ++ new') ↔ Spares tables log new ∧ Spares tables (log ++ new) new' := by
  induction new generalizing log with
  | nil => simp [Spares]
  | cons s new ih => simp only [List.cons_append, Spares, ih, List.append_assoc, List.nil_append, and_assoc]

/-- The statements that never change what a row records. -/
def Stmt.keepsEntries : Stmt → Bool
  | .record .. | .setSize .. | .reset .. | .resetRanges .. => false
  | _ => true

/-- What a row records is the same after `modify`. -/
theorem Table.recorded_modify {tb : Table} {key k : Key} {f : Row → Row} {row row' : Row}
    (hrow : tb k = some row) (hrow' : tb.modify key f k = some row')
    (hf : ∀ row, ((f row).size, (f row).rg, (f row).pos, (f row).filesize) =
      (row.size, row.rg, row.pos, row.filesize)) :
    (row'.size, row'.rg, row'.pos, row'.filesize) = (row.size, row.rg, row.pos, row.filesize) := by
  unfold Table.modify at hrow'
  split at hrow'
  · rw [hrow, Option.map_some] at hrow'
    cases hrow'
    exact hf row
  · rw [hrow] at hrow'
    cases hrow'
    rfl

theorem Stmt.keepsEntries_spec {s : Stmt} (h : s.keepsEntries = true) (tb : Table) :
    ¬ s.Alters tb := by
  rintro ⟨now, key, row, row', hrow, happly, hne⟩
  apply hne
  have hsame : tb key = some row' →
      (row'.size, row'.rg, row'.pos, row'.filesize) = (row.size, row.rg, row.pos, row.filesize) := by
    intro hrow'
    rw [hrow] at hrow'
    cases hrow'
    rfl
  cases s with
  | record | setSize | reset | resetRanges => cases h
  | startTransaction | commit | rollback => exact hsame happly
  | lock | liberate | lastRequest | requested =>
    exact Table.recorded_modify hrow happly fun row => rfl
  | insert | insertFree =>
    simp only [Stmt.apply, Table.insert, hrow, Option.isNone_some, Bool.false_eq_true, and_false,
      if_false] at happly
    exact hsame (hrow.trans happly)
  | identify k file =>
    simp only [Stmt.apply, Table.rename] at happly
    split at happly
    · exact Table.recorded_modify hrow happly fun row => rfl
    · split at happly
      · exact hsame happly
      · next hfree =>
        dsimp only at happly
        split at happly
        · next hk =>
          rw [← hk, hrow] at hfree
          exact absurd rfl hfree
        · split at happly
          · cases happly
          · exact hsame happly

theorem setSize_alters {tb : Table} {key : Key} {size : Int} :
    (Stmt.setSize key size).Alters tb ↔ ∃ row ∈ tb key, row.size ≠ size := by
  constructor
  · rintro ⟨now, k, row, row', hrow, happly, hne⟩
    simp only [Stmt.apply, Table.modify] at happly
    split at happly
    · next hk =>
      subst hk
      rw [hrow, Option.map_some] at happly
      cases happly
      refine ⟨row, hrow, fun hsize => hne ?_⟩
      rw [hsize]
    · rw [hrow] at happly
      cases happly
      exact absurd rfl hne
  · rintro ⟨row, hrow, hne⟩
    refine ⟨0, key, row, { row with size }, hrow, ?_, fun heq => hne ?_⟩
    · simp only [Stmt.apply, Table.modify_self, Option.mem_def.mp hrow, Option.map_some]
    · exact (Prod.mk.inj heq).1.symm

/-- The log grows by statements that never change what a row records, or that fail. -/
def Adds (log log' : Log) : Prop :=
  ∃ new, log' = log ++ new ∧ ∀ s ∈ new, s.2 = true → s.1.keepsEntries = true

theorem Adds.refl (log : Log) : Adds log log := ⟨[], (List.append_nil log).symm, by simp⟩

theorem Adds.trans {log log' log'' : Log} (h : Adds log log') (h' : Adds log' log'') :
    Adds log log'' := by
  obtain ⟨new, rfl, hnew⟩ := h
  obtain ⟨new', rfl, hnew'⟩ := h'
  refine ⟨new ++ new', List.append_assoc log new new', fun s hs => ?_⟩
  rcases List.mem_append.mp hs with hs | hs
  · exact hnew s hs
  · exact hnew' s hs

theorem Adds.one {s : Stmt} {ok : Bool} (h : ok = true → s.keepsEntries = true) (log : Log) :
    Adds log (log ++ [(s, ok)]) := by
  refine ⟨[(s, ok)], rfl, fun s' hs' => ?_⟩
  rw [List.mem_singleton.mp hs']
  exact h

theorem spares_of_keeps {tables : Log → Table} {log new : Log}
    (h : ∀ s ∈ new, s.2 = true → s.1.keepsEntries = true) : Spares tables log new := by
  induction new generalizing log with
  | nil => trivial
  | cons s new ih =>
    exact ⟨fun hok => Stmt.keepsEntries_spec (h s List.mem_cons_self hok) _,
      ih fun s' hs' => h s' (List.mem_cons_of_mem s hs')⟩

theorem Adds.spares {log log' : Log} (h : Adds log log') (tables : Log → Table) :
    Spares tables log (log'.drop log.length) := by
  obtain ⟨new, rfl, hnew⟩ := h
  rw [List.drop_left]
  exact spares_of_keeps hnew

/-- One statement `s` between those that never change what a row records. -/
theorem Adds.spares_iff {log log₁ log₂ : Log} {s : Stmt × Bool} (h : Adds log log₁)
    (h' : Adds (log₁ ++ [s]) log₂) (tables : Log → Table) :
    Spares tables log (log₂.drop log.length) ↔ (s.2 = true → ¬ s.1.Alters (tables log₁)) := by
  obtain ⟨new, rfl, hnew⟩ := h
  obtain ⟨new', rfl, hnew'⟩ := h'
  rw [List.append_assoc, List.append_assoc, List.drop_left, spares_append, List.singleton_append, Spares]
  exact ⟨fun hs => hs.2.1, fun hs => ⟨spares_of_keeps hnew, hs, spares_of_keeps hnew'⟩⟩

/-! ## Cache -/

section Cache

variable {db : Db} {t t' : Transfer} {c c' : Connection}

theorem set_adds {s : Stmt} (hs : s.keepsEntries = true) (db : Db) (t : Transfer) :
    Adds t.log (t.set db s).2.log :=
  .one (fun _ => hs) t.log

theorem liberateEdition_adds (db : Db) (t : Transfer) : Adds t.log (liberateEdition db t).log := by
  unfold liberateEdition
  split
  · exact .refl t.log
  · exact set_adds rfl db t

theorem lockRow_adds (db : Db) (t : Transfer) : Adds t.log (lockRow db t).2.log := by
  have hlock := set_adds (s := .lock t.r.key) rfl db t
  unfold lockRow
  dsimp only
  split
  · exact hlock.trans (set_adds rfl db _)
  · exact hlock.trans (set_adds rfl db _)

theorem lockFound_adds (db : Db) (singleDomain : Bool) (found : Option (Option LockRow))
    (t : Transfer) : Adds t.log (lockFound db singleDomain found t).2.log := by
  unfold lockFound
  split
  · exact set_adds rfl db t
  · split
    · exact set_adds rfl db t
    · have hinsert := set_adds (s := .insert t.r.key) rfl db t
      dsimp only
      split
      · exact hinsert.trans (set_adds rfl db _)
      · exact hinsert.trans (set_adds rfl db _)
  · next row =>
    dsimp only
    generalize hnamed : (if singleDomain = true then { t with r := { t.r with file := row.file } }
      else t) = t₁
    have hlog : t₁.log = t.log := by
      rw [← hnamed]
      split <;> rfl
    rw [← hlog]
    split
    · exact lockRow_adds db t₁
    · split
      · exact set_adds rfl db t₁
      · exact set_adds rfl db t₁
      · exact lockRow_adds db t₁

theorem lockFile_adds {singleDomain : Bool} {found : Option (Option LockRow)} {lfile : Int}
    (h : lockFile db singleDomain found t = some (lfile, t')) : Adds t.log t'.log := by
  unfold lockFile at h
  dsimp only at h
  split at h
  · cases h
    exact .refl _
  · split at h
    · cases h
    · have hstart := set_adds (s := .startTransaction) rfl db t
      split at h
      · have hfound := lockFound_adds db singleDomain found
          { (t.set db .startTransaction).2 with operation := some .select }
        rw [Option.some.inj h] at hfound
        exact hstart.trans hfound
      · cases h
        exact hstart

theorem resetRow_adds (hmatch : c.r.isMatch = true) (h : (c.resetRow db).r.isMatch = false) :
    Adds c.log (c.resetRow db).log := by
  unfold Connection.resetRow at h ⊢
  split
  · next hupdate =>
    rw [if_pos hupdate] at h
    dsimp only at h ⊢
    split
    · next hok =>
      rw [if_pos hok] at h
      exact absurd (hmatch.symm.trans h) (by decide)
    · next hok => exact .one (fun hok' => absurd hok' hok) c.log
  · exact .refl _

theorem fileMissing_adds {disco_con_espacio : Bool} (hmatch : c.r.isMatch = true)
    (h : (c.fileMissing db disco_con_espacio).r.isMatch = false) :
    Adds c.log (c.fileMissing db disco_con_espacio).log := by
  have hspace : ∀ c₁ : Connection, c₁.r = c.r → c₁.log = c.log →
      (if disco_con_espacio then c₁.resetRow db else c₁.giveUp).r.isMatch = false →
      Adds c.log (if disco_con_espacio then c₁.resetRow db else c₁.giveUp).log := by
    intro c₁ hr hlog h₁
    rw [← hlog]
    cases disco_con_espacio with
    | false => exact .refl _
    | true => exact resetRow_adds (by rw [hr]; exact hmatch) h₁
  unfold Connection.fileMissing at h ⊢
  dsimp only at h ⊢
  apply hspace _ _ _ h <;> split <;> rfl

theorem fileStored_adds {row : SelectedRow} (hmatch : c.r.isMatch = true)
    (hstored : c.fileStored db row = some c') (h : c'.r.isMatch = false) : Adds c.log c'.log := by
  rcases fileStored_cases hstored with hgiveUp | hsame
  · rw [hgiveUp]
    exact liberateEdition_adds db c.giveUp.toTransfer
  · rw [hsame.r, hmatch] at h
    cases h

theorem fileFound_adds {selected : Option (Option SelectedRow)} (hmatch : c.r.isMatch = true)
    (hfound : c.fileFound db selected = some c') (h : c'.r.isMatch = false) : Adds c.log c'.log := by
  unfold Connection.fileFound at hfound
  dsimp only at hfound
  split at hfound
  · cases hfound
    exact liberateEdition_adds db
      ({ c with operation := some .select } : Connection).giveUp.toTransfer
  · cases hfound
    exact liberateEdition_adds db
      ({ c with operation := some .select } : Connection).giveUp.toTransfer
  · exact fileStored_adds (c := { c with operation := some .select }) hmatch hfound h

theorem useEntry_adds {asked : Asked} (hmatch : c.r.isMatch = true)
    (huse : c.useEntry db asked = some c') (h : c'.r.isMatch = false) : Adds c.log c'.log := by
  cases useEntry_cases huse with
  | thrown search result =>
    rw [result]
    exact .refl c.log
  | @found search c₁ searched sized result =>
    have hmatch₁ : c₁.r.isMatch = true := by rw [sized]; exact hmatch
    have hlog : c₁.log = c.log := by rw [sized]
    rw [← hlog]
    rcases result with ⟨-, hresult⟩ | ⟨-, rfl⟩ | hfound
    · rw [hresult]
      exact .refl c₁.log
    · exact fileMissing_adds hmatch₁ h
    · exact fileFound_adds hmatch₁ hfound h

/-- **Cache without a match** changes nothing that a row records. -/
theorem cache_adds {asked : Asked} (hcache : c.cache db asked = some c')
    (h : c'.r.isMatch = false) : Adds c.log c'.log := by
  rw [← (ask_start asked c).1]
  cases cache_cases hcache with
  | unasked unmatched result =>
    rw [result]
    exact .refl _
  | refused matched locked notTaken result =>
    have hadds := lockFile_adds locked
    rw [result]
    exact hadds
  | used matched locked taken uses =>
    have hadds := lockFile_adds locked
    exact hadds.trans (useEntry_adds ((lockFile_marked locked).isMatch.trans matched) uses h)

/-! ## The header -/

/-- `Cache2` is called for a response that is passed on, and records the size of the file. -/
def Connection.Records (cl : Int) (c : Connection) : Prop :=
  c.rewrited = false ∧ c.hit = false ∧ c.isPartial = false ∧ cl ≥ 0 ∧ cl ≠ c.size_orig_file ∧ c.Resizes

instance (cl : Int) (c : Connection) : Decidable (c.Records cl) :=
  inferInstanceAs (Decidable (_ ∧ _ ∧ _ ∧ _ ∧ _ ∧ c.Resizes))

/-- The statement by which it does. -/
def Connection.sizeStmt (cl : Int) (c : Connection) : Stmt := .setSize c.r.key (cl + c.range_min)

/-- What follows the log of `c` when a header with the length `cl` has been read: the size is recorded
first, if it is. -/
def Connection.Declined (db : Db) (cl : Int) (c : Connection) (log : Log) : Prop :=
  if c.Records cl then Adds (c.log ++ [(c.sizeStmt cl, db c.log (c.sizeStmt cl))]) log
  else Adds c.log log

theorem Connection.Declined.adds {cl : Int} {log log' : Log} (h : c.Declined db cl log)
    (h' : Adds log log') : c.Declined db cl log' := by
  unfold Connection.Declined at h ⊢
  split
  · next hrecords =>
    rw [if_pos hrecords] at h
    exact h.trans h'
  · next hrecords =>
    rw [if_neg hrecords] at h
    exact h.trans h'

theorem resize_log (db : Db) (cl total : Int) (c : Connection) :
    (c.resize db cl total).log =
      c.log ++ [(.setSize c.r.key total, db c.log (.setSize c.r.key total))] := by
  have hset : ∀ c₁ : Connection, c₁.log = c.log → c₁.r = c.r →
      (Connection.set db { c₁ with size_orig_file := total } (.setSize c₁.r.key total)).2.log =
        c.log ++ [(.setSize c.r.key total, db c.log (.setSize c.r.key total))] := by
    intro c₁ hlog hr
    change c₁.log ++ [(Stmt.setSize c₁.r.key total, db c₁.log (.setSize c₁.r.key total))] = _
    rw [hlog, hr]
  unfold Connection.resize
  dsimp only
  apply hset <;> split <;> split <;> rfl

theorem replan_adds (db : Db) (c : Connection) : Adds c.log (c.replan db).log := by
  unfold Connection.replan
  dsimp only
  split
  · split
    · exact set_adds rfl db c.plan.toTransfer
    · exact .refl c.log
  · exact .refl c.log

/-- `Cache2` records the size, if it does, and then at most the time of the request. -/
theorem cache2_log {cl : Int} (h : c.cache2 db cl = some c') :
    if c.Resizes then Adds (c.log ++ [(c.sizeStmt cl, db c.log (c.sizeStmt cl))]) c'.log
    else Adds c.log c'.log := by
  obtain ⟨total, htotal, rfl⟩ := Option.map_eq_some_iff.mp h
  obtain ⟨-, rfl⟩ := llong_eq_some.mp htotal
  have hmove : ∀ c₁ : Connection, ({ c₁.moveTop (cl + c.range_min) with filesizeneto := cl } :
      Connection).log = c₁.log := by
    intro c₁
    unfold Connection.moveTop
    split <;> rfl
  split
  · have hreplan := replan_adds db
      { (c.resize db cl (cl + c.range_min)).moveTop (cl + c.range_min) with filesizeneto := cl }
    rw [hmove, resize_log] at hreplan
    exact hreplan
  · have hreplan := replan_adds db { c.moveTop (cl + c.range_min) with filesizeneto := cl }
    rw [hmove] at hreplan
    exact hreplan

/-- **What `ReadHeader` records** for a request that does not use the cache. -/
theorem readHeader_declined {read again : Bool × Str} {ok : Bool} {header : HeaderText}
    (hmatch : c.r.isMatch = false) (h : c.readHeader db read again = some (ok, header, c')) :
    c.Declined db (getOnlyContentLength read.2) c'.log ∧ c'.r.isMatch = false := by
  have hnever : ¬ c.Records (getOnlyContentLength read.2) → Adds c.log c'.log →
      c.Declined db (getOnlyContentLength read.2) c'.log := by
    intro hnot hadds
    unfold Connection.Declined
    rwa [if_neg hnot]
  unfold Connection.readHeader at h
  rw [if_neg (by simp [hmatch])] at h
  unfold Connection.makeHeader at h
  split at h
  · next hrewrited =>
    cases h
    exact ⟨hnever (fun hrecords => by rw [hrecords.1] at hrewrited; cases hrewrited) (.refl _), hmatch⟩
  · next hrewrited =>
    split at h
    · next hetag =>
      cases h
      refine ⟨hnever (fun hrecords => by rw [hrecords.2.1] at hetag; cases hetag.1) ?_, ?_⟩
      · exact liberateEdition_adds db ({ c with rewrited := true } : Connection).giveUp.toTransfer
      · exact congrArg Resposta.isMatch (liberateEdition_r db _)
    · split at h
      · next hhit =>
        cases h
        exact ⟨hnever (fun hrecords => by rw [hrecords.2.1] at hhit; cases hhit) (.refl _), hmatch⟩
      · next hhit =>
        have hsame := readMissed_same h
        refine ⟨?_, by rw [hsame.r]; exact hmatch⟩
        obtain ⟨c₁, hcache2, heq⟩ := Option.map_eq_some_iff.mp h
        cases heq
        split at hcache2
        · next hpasses =>
          have hlog := cache2_log hcache2
          have hrecords : c.Records (getOnlyContentLength read.2) ↔ c.Resizes := by
            unfold Connection.Records
            simp [hrewrited, hhit, hpasses]
          simpa only [Connection.Declined, hrecords] using hlog
        · next hpasses =>
          cases hcache2
          refine hnever (fun hrecords => hpasses ?_) (.refl _)
          exact ⟨by simp [hrecords.2.2.1], hrecords.2.2.2.1, hrecords.2.2.2.2.1⟩

/-! ## The body -/

/-- A part of a body that is read from the cache file. -/
theorem readHit_adds {now : Int} {file : Str} {part : BodyPart} (hmatch : t.r.isMatch = false)
    (h : readHit db now t file = some part) : Adds t.log part.t.log ∧ part.t.r.isMatch = false := by
  have hspec := readHit_told h
  constructor
  · rcases hspec.log with hlog | hlog <;> rw [hlog]
    · exact .refl t.log
    · exact liberateEdition_adds db t
  · cases hspec.told with
    | silent frame log => rw [frame.r]; exact hmatch
    | saved frame log => rw [frame.r]; exact hmatch
    | released value r hit log was_liberate => rw [r]

theorem updateHit_adds (db : Db) (t : Transfer) : Adds t.log (updateHit db t).log := by
  unfold updateHit
  split
  · dsimp only
    split
    · exact set_adds (s := .requested t.r.key t.filesended) rfl db t
    · exact .refl _
  · exact .refl _

/-- `Update` for a request that does not use the cache. -/
theorem update_adds (db : Db) (hmatch : t.r.isMatch = false) :
    Adds t.log (update db t).log ∧ (update db t).r.isMatch = false := by
  obtain ⟨t₁, hmode, hadds, hr⟩ : ∃ t₁, (if t.r.isMatch = true ∧ ¬ t.hit = true then updateMiss db t
      else if t.hit = true then updateHit db t else t) = t₁ ∧ Adds t.log t₁.log ∧ t₁.r = t.r := by
    refine ⟨_, if_neg (by simp [hmatch]), ?_⟩
    split
    · exact ⟨updateHit_adds db t, (updateHit_same db t).r⟩
    · exact ⟨.refl _, rfl⟩
  have hmatch₁ : t₁.r.isMatch = false := by rw [hr]; exact hmatch
  unfold update
  dsimp only
  rw [hmode, if_neg (by simp [hmatch₁])]
  exact ⟨hadds, hmatch₁⟩

end Cache

end Haarp
