import Haarp.Base.Run
import Haarp.Cache.Lock
import Haarp.Cache.Session

/-!
# Connections on one entry

Any number of connections use the entry `key` at the same time: they share the clock, the table and
the cache file. A connection takes the row with `lockFile`, loads the recorded list and plans its
request, receives the pieces of a body, and ends its session with `Update`. `lockFile` is one step, a
transaction; what a call tells the database is carried out statement by statement in later steps, so
any delay and any step of another connection may come in between. A connection may also die.

Statements succeed here. `World.step` is executable; `none` is a step that is not possible.
`step_spec` is what each act needs of its connection, and what it leaves.
-/

namespace Haarp

open Base

/-- Where a connection stands. -/
inductive Stage
  | idle
  /-- `lockFile` has returned 1. -/
  | locked (r : Resposta)
  | session (s : Running)
  | dead
  deriving DecidableEq

/-- A connection, with the statements that it has not carried out so far. -/
structure Conn where
  stage : Stage
  todo : List Stmt

structure World where
  now : Int
  table : Table
  file : Str
  conns : Nat → Conn

inductive Act
  | tick (seconds : Nat)
  | lockFile (c : Nat) (r : Resposta)
  | load (c : Nat) (range_min range_max : Int)
  | piece (c : Nat) (d : Str)
  | statement (c : Nat)
  | update (c : Nat)
  | die (c : Nat)

def World.set (w : World) (c : Nat) (conn : Conn) : World :=
  { w with conns := fun i => if i = c then conn else w.conns i }

/-- What `SELECT .. FOR UPDATE` finds of the row `key`. -/
def World.found (w : World) (key : Key) : Option LockRow :=
  (w.table key).map fun row =>
    { file := key.file, file_used := row.fileUsed
      difftime := some (decide ((w.now - max row.modified row.lastRequest).natAbs ≤ 30)) }

/-- A request for the entry; the name of a netflix request is only a part of the one in the row. -/
def asksFor (w : World) (key : Key) (r : Resposta) : Bool :=
  r.isMatch && r.domain = key.domain &&
    if r.domain = netflix then (w.table key).isSome else r.file = key.file

/-- The members of the connection when `lockFile` is called. -/
def Transfer.blank (r : Resposta) : Transfer :=
  { Transfer.start r [] 0 0 0 with exists_transaction_editing_file := true, operation := none }

/-- The statements that a call has added to the log. -/
def told (t t' : Transfer) : List Stmt := (t'.log.drop t.log.length).map Prod.fst

def World.step (key : Key) (w : World) : Act → Option World
  | .tick seconds => some { w with now := w.now + seconds }
  | .die c => some (w.set c ⟨.dead, []⟩)
  | .lockFile c r =>
    match w.conns c with
    | ⟨.idle, []⟩ =>
      if asksFor w key r then
        (lockFile succeeds (r.domain = netflix) (some (w.found key)) (.blank r)).map fun (re, t) =>
          { w.set c ⟨if re = 1 then .locked t.r else .idle, []⟩ with
            table := w.table.run w.now t.log }
      else none
    | _ => none
  | .load c range_min range_max =>
    match w.conns c with
    | ⟨.locked r, []⟩ =>
      if 0 ≤ range_min ∧ range_min ≤ range_max ∧ range_max < llongMax then
        let t := Transfer.start r (w.table.ranges key) range_min range_max w.now
        let todo := if t.hit then [.lastRequest key] else []
        some (w.set c ⟨.session { t, range_min, received := 0, ended := false }, todo⟩)
      else none
    | _ => none
  | .piece c d =>
    match w.conns c with
    | ⟨.session s, []⟩ =>
      if s.ended ∨ d.isEmpty ∨ s.received + d.length > s.t.filesizeneto then none
      else
        (readBodyPart succeeds w.now s.t w.file (some d)).map fun part =>
          let s' : Running :=
            { s with
              t := part.t, received := s.received + d.length
              ended := decide (part.BodyLength = -1) }
          { w.set c ⟨.session s', told s.t part.t⟩ with file := part.file }
    | _ => none
  | .update c =>
    match w.conns c with
    | ⟨.session s, []⟩ => some (w.set c ⟨.idle, told s.t (update succeeds s.t)⟩)
    | _ => none
  | .statement c =>
    match w.conns c with
    | ⟨stage, s :: todo⟩ =>
      some { w.set c ⟨stage, todo⟩ with table := s.apply w.now w.table }
    | _ => none

def Stmt.isLiberate : Stmt → Bool
  | .liberate _ => true
  | _ => false

/-- The connection has taken the row, and has not released it so far. -/
def Conn.Holds : Conn → Prop
  | ⟨.idle, todo⟩ => ∃ s ∈ todo, s.isLiberate = true
  | ⟨.locked _, _⟩ => True
  | ⟨.session s, todo⟩ => s.t.was_liberate = false ∨ ∃ s ∈ todo, s.isLiberate = true
  | ⟨.dead, _⟩ => False

instance (conn : Conn) : Decidable conn.Holds :=
  match conn with
  | ⟨.idle, todo⟩ => inferInstanceAs (Decidable (∃ s ∈ todo, s.isLiberate = true))
  | ⟨.locked _, _⟩ => inferInstanceAs (Decidable True)
  | ⟨.session s, todo⟩ =>
    inferInstanceAs (Decidable (s.t.was_liberate = false ∨ ∃ s ∈ todo, s.isLiberate = true))
  | ⟨.dead, _⟩ => inferInstanceAs (Decidable False)

/-- The connection `c` holds the row. -/
abbrev World.Holds (w : World) (c : Nat) : Prop := (w.conns c).Holds

/-- The row was modified or requested within the last 30 seconds. -/
def World.Fresh (w : World) (key : Key) : Prop :=
  ∀ row, w.table key = some row → (w.now - max row.modified row.lastRequest).natAbs ≤ 30

/-- The steps of a list of acts. -/
def World.steps (key : Key) (w : World) (acts : List Act) : Option World :=
  acts.foldlM (World.step key) w

instance (w : World) (key : Key) : Decidable (w.Fresh key) :=
  match h : w.table key with
  | some row =>
    decidable_of_iff ((w.now - max row.modified row.lastRequest).natAbs ≤ 30)
      ⟨fun hrow _ hrow' => by cases h.symm.trans hrow'; exact hrow, fun hfresh => hfresh row h⟩
  | none => .isTrue fun _ hrow => by cases h.symm.trans hrow

/-! ## What `lockFile` does -/

section Lock

variable {key : Key} {w : World} {r : Resposta} {re : Int} {t : Transfer}

/-- The answers of `lockFile`: it takes the row, which nobody uses or nobody has used for more than
30 seconds, or it leaves the table as it is. -/
inductive LockSpec (key : Key) (w : World) : Int × Transfer → Prop
  | taken {t : Transfer} (s : Stmt) (r : t.r.key = key ∧ t.r.isMatch = true)
      (log : t.log = [(.startTransaction, true), (s, true), (.commit, true)])
      (stmt : (w.table key = none ∧ s = .insert key) ∨ ((w.table key).isSome ∧ s = .lock key))
      (free : ∀ row, w.table key = some row → row.fileUsed = true → ¬ w.Fresh key) :
      LockSpec key w (1, t)
  | refused {re : Int} {t : Transfer} (value : re ≠ 1) (log : ∀ now tb, Table.run now tb t.log = tb) :
      LockSpec key w (re, t)

theorem lockRow_spec (t : Transfer) :
    ∃ t', lockRow succeeds t = (1, t') ∧ t'.r = t.r ∧
      t'.log = t.log ++ [(.lock t.r.key, true), (.commit, true)] :=
  ⟨_, rfl, rfl, by simp [Transfer.set, succeeds]⟩

theorem lockFound_spec (hask : asksFor w key r = true) {t₀ : Transfer} (hr : t₀.r = r)
    (hlog : t₀.log = [(.startTransaction, true)]) :
    LockSpec key w (lockFound succeeds (r.domain = netflix) (some (w.found key)) t₀) := by
  simp only [asksFor, Bool.and_eq_true, decide_eq_true_eq] at hask
  obtain ⟨⟨hmatch, hdomain⟩, hfile⟩ := hask
  cases htable : w.table key with
  | none =>
    have hsingle : ¬ r.domain = netflix := fun hs => by
      rw [if_pos hs, htable] at hfile
      cases hfile
    have hkey : r.key = key := by
      rw [if_neg hsingle, decide_eq_true_eq] at hfile
      simp only [Resposta.key, hdomain, hfile]
    simp only [World.found, htable, Option.map_none, lockFound, hsingle, decide_false,
      Bool.false_eq_true, if_false, Transfer.set, succeeds, if_true, hr, hkey]
    exact .taken (.insert key) ⟨by simp only [hkey], by simp only [hmatch]⟩ (by simp [hlog])
      (.inl ⟨htable, rfl⟩) fun row hrow => by rw [htable] at hrow; cases hrow
  | some row =>
    simp only [World.found, htable, Option.map_some, lockFound]
    generalize ht₁ : (if decide (r.domain = netflix) = true then _ else t₀) = t₁
    have h₁ : t₁.r.key = key ∧ t₁.r.isMatch = true ∧ t₁.log = [(.startTransaction, true)] := by
      rw [← ht₁]
      split
      · refine ⟨?_, by simp only [hr, hmatch], hlog⟩
        simp only [Resposta.key, hr, hdomain]
      · next hsingle =>
        rw [if_neg (by simpa using hsingle), decide_eq_true_eq] at hfile
        exact ⟨by simp only [hr, Resposta.key, hdomain, hfile], by simp only [hr, hmatch], hlog⟩
    have htaken : (row.fileUsed = true → ¬ w.Fresh key) → LockSpec key w (lockRow succeeds t₁) := by
      intro hfree
      obtain ⟨t', hlock, hr', hlog'⟩ := lockRow_spec t₁
      rw [hlock]
      refine .taken (.lock key) ⟨by rw [hr']; exact h₁.1, by rw [hr']; exact h₁.2.1⟩ ?_
        (.inr ⟨by simp [htable], rfl⟩) fun row' hrow' hused => ?_
      · rw [hlog', h₁.1, h₁.2.2]
        rfl
      · cases htable.symm.trans hrow'
        exact hfree hused
    split
    · next hunused => exact htaken fun hused => absurd hused hunused
    · split
      · next hdiff => cases hdiff
      · refine .refused (by decide) fun now tb => ?_
        simp only [Transfer.set, h₁.2.2]
        rfl
      · next hdiff =>
        refine htaken fun _ hfresh => ?_
        rw [decide_eq_true (hfresh row htable)] at hdiff
        cases hdiff

theorem lockFile_spec (hask : asksFor w key r = true)
    (h : lockFile succeeds (r.domain = netflix) (some (w.found key)) (.blank r) = some (re, t)) :
    LockSpec key w (re, t) := by
  unfold lockFile at h
  dsimp only at h
  split at h
  · cases h
    exact .refused (by decide) fun now tb => rfl
  · split at h
    · cases h
    · have hfound : lockFound succeeds (r.domain = netflix) (some (w.found key))
          { ((Transfer.blank r).set succeeds .startTransaction).2 with operation := some .select } =
          (re, t) := Option.some.inj h
      rw [← hfound]
      exact lockFound_spec hask rfl rfl

/-- The statement that takes the row marks it as used and keeps what it records. -/
theorem take_row {s : Stmt} {tb : Table} (now : Int)
    (h : (tb key = none ∧ s = .insert key) ∨ ((tb key).isSome ∧ s = .lock key)) :
    (∃ row, s.apply now tb key = some row ∧ row.fileUsed = true) ∧
      (s.apply now tb).columns key = tb.columns key := by
  rcases h with ⟨hnone, rfl⟩ | ⟨hsome, rfl⟩
  · have hrow : (Stmt.insert key).apply now tb key = some (Row.inserted now) := by
      simp only [Stmt.apply, Table.insert, hnone, Option.isNone_none, and_self, if_true]
    refine ⟨⟨_, hrow, rfl⟩, ?_⟩
    rw [Table.columns, Table.columns, hrow, hnone]
    rfl
  · obtain ⟨row, hrow⟩ := Option.isSome_iff_exists.mp hsome
    refine ⟨⟨_, (Table.modify_self tb key _).trans (congrArg (Option.map _) hrow), rfl⟩, ?_⟩
    exact Table.modify_columns tb key _ fun row => ⟨rfl, rfl⟩

end Lock

/-! ## What a step does -/

section Step

variable {key : Key} {w w' : World} {a : Act}

/-- The steps that are possible: what each act needs of its connection, and what it leaves. -/
inductive StepSpec (key : Key) (w : World) : Act → World → Prop
  | tick (seconds : Nat) : StepSpec key w (.tick seconds) { w with now := w.now + seconds }
  | die (c : Nat) : StepSpec key w (.die c) (w.set c ⟨.dead, []⟩)
  | lockFile {c : Nat} {r : Resposta} {re : Int} {t : Transfer} (conn : w.conns c = ⟨.idle, []⟩)
      (lock : LockSpec key w (re, t)) :
      StepSpec key w (.lockFile c r)
        { w.set c ⟨if re = 1 then .locked t.r else .idle, []⟩ with table := w.table.run w.now t.log }
  | load {c : Nat} {r : Resposta} {range_min range_max : Int} {t : Transfer}
      (conn : w.conns c = ⟨.locked r, []⟩)
      (range : 0 ≤ range_min ∧ range_min ≤ range_max ∧ range_max < llongMax)
      (start : t = .start r (w.table.ranges key) range_min range_max w.now) :
      StepSpec key w (.load c range_min range_max)
        (w.set c ⟨.session { t, range_min, received := 0, ended := false },
          if t.hit then [.lastRequest key] else []⟩)
  | piece {c : Nat} {s : Running} {d : Str} {part : BodyPart} (conn : w.conns c = ⟨.session s, []⟩)
      (going : s.ended = false) (filled : d ≠ []) (fits : s.received + d.length ≤ s.t.filesizeneto)
      (call : readBodyPart succeeds w.now s.t w.file (some d) = some part) :
      StepSpec key w (.piece c d)
        { w.set c ⟨.session { s with
            t := part.t, received := s.received + d.length
            ended := decide (part.BodyLength = -1) }, told s.t part.t⟩ with file := part.file }
  | update {c : Nat} {s : Running} (conn : w.conns c = ⟨.session s, []⟩) :
      StepSpec key w (.update c) (w.set c ⟨.idle, told s.t (update succeeds s.t)⟩)
  | statement {c : Nat} {stage : Stage} {s : Stmt} {todo : List Stmt}
      (conn : w.conns c = ⟨stage, s :: todo⟩) :
      StepSpec key w (.statement c)
        { w.set c ⟨stage, todo⟩ with table := s.apply w.now w.table }

theorem step_spec (h : w.step key a = some w') : StepSpec key w a w' := by
  cases a with
  | tick seconds =>
    cases h
    exact .tick seconds
  | die c =>
    cases h
    exact .die c
  | lockFile c r =>
    simp only [World.step] at h
    split at h
    · next hconn =>
      split at h
      · next hask =>
        obtain ⟨⟨re, t⟩, hlock, rfl⟩ := Option.map_eq_some_iff.mp h
        exact .lockFile hconn (lockFile_spec hask hlock)
      · cases h
    · cases h
  | load c range_min range_max =>
    simp only [World.step] at h
    split at h
    · next r hconn =>
      split at h
      · next hrange =>
        cases h
        exact .load hconn hrange rfl
      · cases h
    · cases h
  | piece c d =>
    simp only [World.step] at h
    split at h
    · next s hconn =>
      split at h
      · cases h
      · next hgoing =>
        obtain ⟨part, hcall, rfl⟩ := Option.map_eq_some_iff.mp h
        obtain ⟨hended, hne, hfits⟩ :
            s.ended = false ∧ d ≠ [] ∧ s.received + d.length ≤ s.t.filesizeneto := by
          simpa using hgoing
        exact .piece hconn hended hne hfits hcall
    · cases h
  | update c =>
    simp only [World.step] at h
    split at h
    · next s hconn =>
      cases h
      exact .update hconn
    · cases h
  | statement c =>
    simp only [World.step] at h
    split at h
    · next stage s todo hconn =>
      cases h
      exact .statement hconn
    · cases h

end Step

/-! ## One connection of many -/

section Set

variable {w : World} {c i : Nat} {conn : Conn}

@[simp] theorem World.set_self : (w.set c conn).conns c = conn := if_pos rfl

theorem World.set_other (h : i ≠ c) : (w.set c conn).conns i = w.conns i := if_neg h

end Set

end Haarp
