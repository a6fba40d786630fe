import Mathlib.Data.List.Basic
import Mathlib.Tactic.Common

/-!
# Transactions

A store with transactions, seen by the one client that changes it: what is committed, and what the
changes of an open transaction have made of it. A command may fail, and then has no effect. A
transaction is all or nothing: whatever it has changed is committed (`run_commit`) or forgotten
(`run_rollback`) at its end, and until then nothing is (`run_changes`).
-/

namespace Haarp.Base

inductive Command (α : Type*)
  | start
  | commit
  | rollback
  | change (a : α)

structure Transactional (σ : Type*) where
  committed : σ
  /-- What the open transaction sees. -/
  opened : Option σ

namespace Transactional

variable {α σ : Type*} (apply : α → σ → σ)

/-- What the next command sees. -/
def view (s : Transactional σ) : σ := s.opened.getD s.committed

/-- A command that succeeds. The start of a transaction commits the one that is open. -/
def step (s : Transactional σ) : Command α → Transactional σ
  | .start => { committed := s.view, opened := some s.view }
  | .commit => { committed := s.view, opened := none }
  | .rollback => { s with opened := none }
  | .change a =>
    match s.opened with
    | none => { s with committed := apply a s.committed }
    | some x => { s with opened := some (apply a x) }

/-- Commands, each with whether it succeeds. -/
def run (s : Transactional σ) (log : List (Command α × Bool)) : Transactional σ :=
  log.foldl (fun s c => if c.2 then s.step apply c.1 else s) s

/-- What the changes that succeed make of `x`. -/
def changed (changes : List (α × Bool)) (x : σ) : σ :=
  changes.foldl (fun x c => if c.2 then apply c.1 x else x) x

theorem run_append (s : Transactional σ) (log log' : List (Command α × Bool)) :
    s.run apply (log ++ log') = (s.run apply log).run apply log' :=
  List.foldl_append

/-- The changes of a transaction are not committed by themselves. -/
theorem run_changes (x y : σ) (changes : List (α × Bool)) :
    run apply ⟨x, some y⟩ (changes.map fun c => (.change c.1, c.2)) =
      ⟨x, some (changed apply changes y)⟩ := by
  induction changes generalizing y with
  | nil => rfl
  | cons c changes ih =>
    obtain ⟨a, ok⟩ := c
    cases ok with
    | false => exact ih y
    | true => exact ih (apply a y)

/-- A transaction before its end. -/
theorem run_start (x : σ) (changes : List (α × Bool)) :
    run apply ⟨x, none⟩ ((.start, true) :: changes.map fun c => (.change c.1, c.2)) =
      ⟨x, some (changed apply changes x)⟩ :=
  run_changes apply x x changes

theorem run_commit (x : σ) (changes : List (α × Bool)) :
    run apply ⟨x, none⟩ ((.start, true) :: (changes.map fun c => (.change c.1, c.2)) ++
      [(.commit, true)]) = ⟨changed apply changes x, none⟩ := by
  rw [run_append, run_start]
  rfl

theorem run_rollback (x : σ) (changes : List (α × Bool)) :
    run apply ⟨x, none⟩ ((.start, true) :: (changes.map fun c => (.change c.1, c.2)) ++
      [(.rollback, true)]) = ⟨x, none⟩ := by
  rw [run_append, run_start]
  rfl

/-- When its end fails, the transaction stays open. -/
theorem run_end_fails (x : σ) (changes : List (α × Bool)) (c : Command α) :
    run apply ⟨x, none⟩ ((.start, true) :: (changes.map fun c => (.change c.1, c.2)) ++ [(c, false)]) =
      ⟨x, some (changed apply changes x)⟩ := by
  rw [run_append, run_start]
  rfl

end Transactional

end Haarp.Base
