import Haarp.Base.Run

/-!
# The processes of the server

The loop of `main`: the parent reaps the children that have ended, forks until there are
`SERVERNUMBER` of them, and asks for two more when a connection waits for a second time. A child
(`ProxyHandler::Proxy`) accepts one connection, and ends with it.

`Server.step` is executable, one event at a time: a turn of the parent, whose `fork` may fail, or what
the clients and the children do in between, in any order. The invariant is `Server.Sound`.

* `Server.instances_counted`: `Instances` counts the children that are not reaped, and stays in
  bounds.
* `Server.instances_iff`: the sizes at which the server waits for work. `MAXSERVERS` is passed by one.
* `Server.connection_served`: the parent alone finds a child for a connection that waits.
-/

namespace Haarp

open Base

/-- `SERVERNUMBER` and `MAXSERVERS` -/
structure Servers where
  servernumber : Int
  maxservers : Int

/-- Where the parent stands in its loop: at `waitpid`, at `fork`, or at one of the two calls of
`CheckForData`. -/
inductive Place
  | reaping
  | forking
  | asking
  | deciding
  deriving DecidableEq, Repr

/-- The parent, its children, and the connections that wait to be accepted. -/
structure Server where
  Instances : Int
  startchild : Int
  hangup : Bool
  place : Place
  idle : Nat
  busy : Nat
  zombies : Nat
  waiting : Nat
  deriving DecidableEq, Repr

inductive Event
  | turn (forks : Bool)
  | connects
  | givesUp
  | accepts
  | idleEnds
  | busyEnds
  deriving DecidableEq, Repr

namespace Server

/-- The start of the loop. -/
def new : Server :=
  { Instances := 0, startchild := 0, hangup := false, place := .reaping, idle := 0, busy := 0
    zombies := 0, waiting := 0 }

/-- One step of the parent; `forks` is whether `fork` succeeds. -/
def turn (c : Servers) (forks : Bool) (s : Server) : Server :=
  match s.place with
  | .reaping =>
    if s.zombies > 0 then { s with zombies := s.zombies - 1, Instances := s.Instances - 1 }
    else { s with place := .forking }
  | .forking =>
    if s.startchild > 0 ∨ s.Instances < c.servernumber then
      if forks then
        { s with
          startchild := if s.startchild > 0 then s.startchild - 1 else s.startchild
          Instances := s.Instances + 1, idle := s.idle + 1 }
      else s
    else if s.Instances ≥ c.servernumber then { s with place := .asking }
    else { s with place := .reaping }
  | .asking => { s with hangup := decide (s.waiting > 0), place := .deciding }
  | .deciding =>
    if s.hangup ∧ s.Instances < c.maxservers ∧ s.waiting > 0 then
      { s with startchild := s.startchild + 2, place := .reaping }
    else { s with place := .reaping }

/-- One event; `none` is an event that is not possible. -/
def step (c : Servers) (s : Server) : Event → Option Server
  | .turn forks => some (s.turn c forks)
  | .connects => some { s with waiting := s.waiting + 1 }
  | .givesUp => if s.waiting > 0 then some { s with waiting := s.waiting - 1 } else none
  | .accepts =>
    if s.waiting > 0 ∧ s.idle > 0 then
      some { s with waiting := s.waiting - 1, idle := s.idle - 1, busy := s.busy + 1 }
    else none
  | .idleEnds =>
    if s.idle > 0 then some { s with idle := s.idle - 1, zombies := s.zombies + 1 } else none
  | .busyEnds =>
    if s.busy > 0 then some { s with busy := s.busy - 1, zombies := s.zombies + 1 } else none

def Step (c : Servers) (s s' : Server) : Prop := ∃ event, s.step c event = some s'

/-- A step of the parent whose `fork`, if it comes to one, succeeds. -/
def Turns (c : Servers) (s s' : Server) : Prop := s' = s.turn c true

/-- The children that are not reaped. -/
def children (s : Server) : Nat := s.idle + s.busy + s.zombies

/-- The number that `Instances` does not pass. -/
def most (c : Servers) : Int := max 0 (max c.servernumber (c.maxservers + 1))

/-- What holds between any two events. The children that are to be started have their place
already. -/
structure Sound (c : Servers) (s : Server) : Prop where
  counted : s.Instances = s.children
  nonneg : 0 ≤ s.startchild
  room : s.Instances + s.startchild ≤ most c
  filled : s.place = .asking ∨ s.place = .deciding →
    s.startchild = 0 ∧ c.servernumber ≤ s.Instances

theorem sound_new (c : Servers) : Sound c new where
  counted := rfl
  nonneg := Int.le_refl 0
  room := Int.le_max_left 0 (max c.servernumber (c.maxservers + 1))
  filled h := by rcases h with h | h <;> cases h

/-! ## Turns of the parent -/

section Turn

variable {c : Servers} {s : Server} {forks : Bool}

theorem turn_reap (hplace : s.place = .reaping) (h : 0 < s.zombies) :
    s.turn c forks = { s with zombies := s.zombies - 1, Instances := s.Instances - 1 } := by
  rw [turn, hplace]
  exact if_pos h

theorem turn_reaped (hplace : s.place = .reaping) (h : s.zombies = 0) :
    s.turn c forks = { s with place := .forking } := by
  rw [turn, hplace]
  exact if_neg (by omega)

theorem turn_fork (hplace : s.place = .forking)
    (h : 0 < s.startchild ∨ s.Instances < c.servernumber) :
    s.turn c true =
      { s with
        startchild := if s.startchild > 0 then s.startchild - 1 else s.startchild
        Instances := s.Instances + 1, idle := s.idle + 1 } := by
  rw [turn, hplace]
  exact if_pos h

theorem turn_forked (hplace : s.place = .forking)
    (h : ¬ (0 < s.startchild ∨ s.Instances < c.servernumber)) :
    s.turn c forks = { s with place := .asking } := by
  rw [turn, hplace]
  simp only [gt_iff_lt, h, if_false]
  exact if_pos (by omega)

theorem turn_ask (hplace : s.place = .asking) :
    s.turn c forks = { s with hangup := decide (s.waiting > 0), place := .deciding } := by
  rw [turn, hplace]

theorem turn_decide (hplace : s.place = .deciding) :
    s.turn c forks =
      { s with
        startchild :=
          if s.hangup ∧ s.Instances < c.maxservers ∧ s.waiting > 0 then s.startchild + 2
          else s.startchild
        place := .reaping } := by
  rw [turn, hplace]
  dsimp only
  split <;> rfl

theorem sound_turn (h : Sound c s) : Sound c (s.turn c forks) := by
  obtain ⟨hcounted, hnonneg, hroom, hfilled⟩ := h
  unfold most at hroom
  cases hplace : s.place with
  | reaping =>
    rcases Nat.eq_zero_or_pos s.zombies with hz | hz
    · rw [turn_reaped hplace hz]
      exact ⟨hcounted, hnonneg, hroom, fun h => by rcases h with h | h <;> cases h⟩
    · rw [turn_reap hplace hz]
      refine ⟨?_, hnonneg, ?_, fun h => by rw [hplace] at h; rcases h with h | h <;> cases h⟩
      · unfold children at hcounted ⊢
        dsimp only
        omega
      · unfold most
        dsimp only
        omega
  | forking =>
    by_cases hfork : 0 < s.startchild ∨ s.Instances < c.servernumber
    · cases forks with
      | false =>
        have hsame : s.turn c false = s := by
          rw [turn, hplace]
          exact if_pos hfork
        rw [hsame]
        exact ⟨hcounted, hnonneg, hroom, hfilled⟩
      | true =>
        rw [turn_fork hplace hfork]
        refine ⟨?_, ?_, ?_, fun h => by rw [hplace] at h; rcases h with h | h <;> cases h⟩
        · unfold children at hcounted ⊢
          dsimp only
          omega
        · dsimp only
          split <;> omega
        · unfold most
          dsimp only
          split <;> omega
    · rw [turn_forked hplace hfork]
      exact ⟨hcounted, hnonneg, hroom, fun _ => by dsimp only; omega⟩
  | asking =>
    rw [turn_ask hplace]
    exact ⟨hcounted, hnonneg, hroom, fun _ => hfilled (.inl hplace)⟩
  | deciding =>
    obtain ⟨hstart, hservers⟩ := hfilled (.inr hplace)
    rw [turn_decide hplace]
    refine ⟨hcounted, ?_, ?_, fun h => by rcases h with h | h <;> cases h⟩
    · dsimp only
      split <;> omega
    · unfold most
      dsimp only
      split <;> omega

end Turn

/-! ## Runs -/

/-- The children and the clients change neither what the parent counts nor the children it has. -/
theorem sound_step {c : Servers} {s s' : Server} (h : Sound c s) (hstep : Step c s s') :
    Sound c s' := by
  obtain ⟨event, hevent⟩ := hstep
  cases event with
  | turn forks =>
    cases hevent
    exact sound_turn h
  | connects =>
    cases hevent
    exact ⟨h.counted, h.nonneg, h.room, h.filled⟩
  | givesUp =>
    obtain ⟨_, heq⟩ := Option.ite_none_right_eq_some.mp hevent
    cases heq
    exact ⟨h.counted, h.nonneg, h.room, h.filled⟩
  | accepts =>
    obtain ⟨hidle, heq⟩ := Option.ite_none_right_eq_some.mp hevent
    cases heq
    have hcounted := h.counted
    refine ⟨?_, h.nonneg, h.room, h.filled⟩
    unfold children at hcounted ⊢
    dsimp only
    omega
  | idleEnds =>
    obtain ⟨hidle, heq⟩ := Option.ite_none_right_eq_some.mp hevent
    cases heq
    have hcounted := h.counted
    refine ⟨?_, h.nonneg, h.room, h.filled⟩
    unfold children at hcounted ⊢
    dsimp only
    omega
  | busyEnds =>
    obtain ⟨hbusy, heq⟩ := Option.ite_none_right_eq_some.mp hevent
    cases heq
    have hcounted := h.counted
    refine ⟨?_, h.nonneg, h.room, h.filled⟩
    unfold children at hcounted ⊢
    dsimp only
    omega

theorem sound_of_run {c : Servers} {s : Server} (hrun : Run (Step c) new s) : Sound c s :=
  run_invariant (P := Sound c) (fun _ _ => sound_step) hrun (sound_new c)

/-! ## The sizes -/

section Size

variable {c : Servers} {s : Server}

/-- Every child that has ended is reaped. -/
theorem run_reap (hplace : s.place = .reaping) :
    Run (Turns c) s
      { s with place := .forking, zombies := 0, Instances := s.Instances - s.zombies } := by
  induction hz : s.zombies generalizing s with
  | zero =>
    refine .single ?_
    rw [Turns, turn_reaped hplace hz]
    simp [hz]
  | succ n ih =>
    have hturn : Turns c s { s with zombies := n, Instances := s.Instances - 1 } := by
      rw [Turns, turn_reap hplace (by omega)]
      simp [hz]
    have hrest := ih (s := { s with zombies := n, Instances := s.Instances - 1 }) hplace rfl
    have hsum : s.Instances - ((n + 1 : Nat) : Int) = s.Instances - 1 - n := by omega
    rw [hsum]
    exact .head hturn hrest

/-- From the first look at the waiting connections to the next round of forks. -/
theorem run_ask (hplace : s.place = .asking) (hwaiting : 0 < s.waiting)
    (hroom : s.Instances < c.maxservers) :
    Run (Turns c) s
      { s with hangup := true, startchild := s.startchild + 2, place := .reaping } := by
  have hask : Turns c s { s with hangup := true, place := .deciding } := by
    rw [Turns, turn_ask hplace]
    simp [hwaiting]
  refine .head hask (.single ?_)
  rw [Turns, turn_decide rfl]
  simp [hwaiting, hroom]

/-- The inner loop, when every `fork` succeeds. -/
theorem run_forks (hplace : s.place = .forking) (hstart : 0 ≤ s.startchild) {k : Nat}
    (hk : (max s.startchild (c.servernumber - s.Instances)).toNat = k) :
    Run (Turns c) s
      { s with
        place := .asking, startchild := 0, Instances := s.Instances + k, idle := s.idle + k } := by
  induction k generalizing s with
  | zero =>
    refine .single ?_
    rw [Turns, turn_forked hplace (by omega), show s.startchild = 0 by omega]
    simp
  | succ k ih =>
    have hfork : 0 < s.startchild ∨ s.Instances < c.servernumber := by omega
    have hrest := ih
      (s :=
        { s with
          startchild := if s.startchild > 0 then s.startchild - 1 else s.startchild
          Instances := s.Instances + 1, idle := s.idle + 1 })
      hplace (by dsimp only; split <;> omega) (by dsimp only; split <;> omega)
    have hinstances : s.Instances + ((k + 1 : Nat) : Int) = s.Instances + 1 + k := by omega
    have hidle : s.idle + (k + 1) = s.idle + 1 + k := by omega
    rw [hinstances, hidle]
    exact .head (turn_fork hplace hfork).symm hrest

theorem step_of_turns {s' : Server} (h : Turns c s s') : Step c s s' := ⟨.turn true, h ▸ rfl⟩

theorem run_of_turns {s' : Server} (h : Run (Turns c) s s') : Run (Step c) s s' :=
  Relation.ReflTransGen.mono (fun _ _ => step_of_turns) _ _ h

/-- The server waits for work with `n` children that are all idle. -/
def standing (n : Nat) (hangup : Bool) : Server :=
  { new with Instances := n, idle := n, hangup, place := .asking }

theorem run_standing_first (hservers : 0 ≤ c.servernumber) :
    Run (Step c) new (standing c.servernumber.toNat false) := by
  have hreap := run_reap (c := c) (s := new) rfl
  have hforks := run_forks (c := c) (s := { new with place := .forking }) rfl (Int.le_refl 0)
    (k := c.servernumber.toNat) (by simp [new]; omega)
  refine run_of_turns (hreap.trans ?_)
  simpa [standing, new] using hforks

/-- A connection that waits twice makes two more children. -/
theorem run_standing_two {n : Nat} {hangup : Bool} (hservers : c.servernumber ≤ n)
    (hmax : (n : Int) < c.maxservers) :
    Run (Step c) (standing n hangup) (standing (n + 2) true) := by
  have hconnects : Step c (standing n hangup) { standing n hangup with waiting := 1 } :=
    ⟨.connects, rfl⟩
  have hask := run_ask (c := c) (s := { standing n hangup with waiting := 1 }) rfl Nat.one_pos hmax
  have hgivesUp :
      Step c { standing n true with startchild := 2, place := .reaping, waiting := 1 }
        { standing n true with startchild := 2, place := .reaping } := ⟨.givesUp, rfl⟩
  have hreap := run_reap (c := c)
    (s := { standing n true with startchild := 2, place := .reaping }) rfl
  have hforks := run_forks (c := c)
    (s := { standing n true with startchild := 2, place := .forking }) rfl (Int.natCast_nonneg 2)
    (k := 2)
    (by simp [standing]; omega)
  refine .head hconnects ((run_of_turns hask).trans (.head hgivesUp ?_))
  refine (run_of_turns hreap).trans ?_
  simpa [standing, new] using run_of_turns hforks

/-- A child that ends is not replaced while there are enough of them. -/
theorem run_standing_less {n : Nat} {hangup : Bool} (hservers : c.servernumber ≤ n) :
    Run (Step c) (standing (n + 1) hangup) (standing n false) := by
  have hends : Step c (standing (n + 1) hangup)
      { standing n hangup with Instances := (n + 1 : Nat), zombies := 1 } := ⟨.idleEnds, rfl⟩
  have hask : Turns c { standing n hangup with Instances := (n + 1 : Nat), zombies := 1 }
      { standing n false with Instances := (n + 1 : Nat), zombies := 1, place := .deciding } := rfl
  have hdecide :
      Turns c { standing n false with Instances := (n + 1 : Nat), zombies := 1, place := .deciding }
        { standing n false with Instances := (n + 1 : Nat), zombies := 1, place := .reaping } := rfl
  have hreap := run_reap (c := c)
    (s := { standing n false with Instances := (n + 1 : Nat), zombies := 1, place := .reaping }) rfl
  have hforks := run_forks (c := c) (s := { standing n false with place := .forking }) rfl
    (Int.le_refl 0) (k := 0) (by simp [standing, new]; omega)
  have hback : Run (Turns c) { standing n false with place := .forking } (standing n false) := by
    simpa [standing, new] using hforks
  refine .head hends (run_of_turns (.head hask (.head hdecide (.trans hreap ?_))))
  simpa [standing, new] using hback

theorem run_standing_next {n : Nat} {hangup : Bool} (hservers : c.servernumber ≤ n)
    (hmax : (n : Int) < c.maxservers) :
    Run (Step c) (standing n hangup) (standing (n + 1) false) :=
  (run_standing_two hservers hmax).trans (run_standing_less (by omega))

end Size

/-- One child is busy, and a second connection comes. -/
def crowded : Server := { new with Instances := 1, busy := 1, place := .asking, waiting := 1 }

theorem run_crowded : Run (Step ⟨1, 2⟩) new crowded := by
  have hfirst : Run (Step ⟨1, 2⟩) new (standing 1 false) := run_standing_first (by decide)
  have hevents : [Event.connects, .accepts, .connects].foldlM (step ⟨1, 2⟩) (standing 1 false) =
      some crowded := rfl
  have hrun : Run (Step ⟨1, 2⟩) (standing 1 false) crowded :=
    run_of_foldlM (fun _ event _ h => ⟨event, h⟩) hevents
  exact hfirst.trans hrun

/-- In every run, whatever the children do, `Instances` is the number of children that are not
reaped, and there are never more than `SERVERNUMBER` and `MAXSERVERS` plus one allow. -/
theorem instances_counted (c : Servers) (s : Server) (hrun : Run (Step c) new s) :
    s.Instances = s.children ∧
      s.Instances + s.startchild ≤ max 0 (max c.servernumber (c.maxservers + 1)) ∧
      (s.place = .asking → c.servernumber ≤ s.Instances) :=
  have h := sound_of_run hrun
  ⟨h.counted, h.room, fun hplace => (h.filled (.inl hplace)).2⟩

theorem instances_counted_crowded : crowded.Instances = crowded.children ∧
    crowded.Instances + crowded.startchild ≤ max 0 (max 1 (2 + 1)) ∧
      (crowded.place = .asking → 1 ≤ crowded.Instances) :=
  instances_counted ⟨1, 2⟩ crowded run_crowded

/-- The server may wait for work with any number of children from `SERVERNUMBER` to `MAXSERVERS` plus
one, and with no other. -/
theorem instances_iff (c : Servers) (hservers : 0 ≤ c.servernumber)
    (hmax : c.servernumber < c.maxservers) (n : Int) :
    (∃ s, Run (Step c) new s ∧ s.place = .asking ∧ s.Instances = n) ↔
      c.servernumber ≤ n ∧ n ≤ c.maxservers + 1 := by
  constructor
  · rintro ⟨s, hrun, hplace, rfl⟩
    have h := sound_of_run hrun
    have hroom := h.room
    have hnonneg := h.nonneg
    unfold most at hroom
    exact ⟨(h.filled (.inl hplace)).2, by omega⟩
  · rintro ⟨hlow, hhigh⟩
    -- By induction from `SERVERNUMBER` on: two more children, and one of them ends.
    have hup : ∀ k : Nat, c.servernumber + k ≤ c.maxservers →
        Run (Step c) new (standing (c.servernumber.toNat + k) false) := by
      intro k
      induction k with
      | zero => exact fun _ => run_standing_first hservers
      | succ k ih =>
        intro hk
        exact (ih (by omega)).trans (run_standing_next (by omega) (by omega))
    by_cases hlast : n = c.maxservers + 1
    · have hbefore := hup (c.maxservers - 1 - c.servernumber).toNat (by omega)
      refine ⟨_, hbefore.trans (run_standing_two (by omega) (by omega)), rfl, ?_⟩
      simp only [standing]
      omega
    · refine ⟨_, hup (n - c.servernumber).toNat (by omega), rfl, ?_⟩
      simp only [standing]
      omega

/-- The limit of the configuration file that comes with the program is passed. -/
theorem instances_iff_default :
    ∃ s, Run (Step ⟨250, 1000⟩) new s ∧ s.place = .asking ∧ s.Instances = 1001 :=
  (instances_iff ⟨250, 1000⟩ (by decide) (by decide) 1001).mpr (by decide)

/-! ## Progress -/

section Progress

variable {c : Servers} {s : Server}

/-- The parent has a child for a connection that waits. -/
def Serves (c : Servers) (s : Server) : Prop :=
  ∃ s', Run (Turns c) s s' ∧ 0 < s'.idle ∧ s'.waiting = s.waiting

theorem serves_of_fork (hplace : s.place = .forking)
    (h : 0 < s.startchild ∨ s.Instances < c.servernumber) : Serves c s :=
  ⟨_, .single (turn_fork hplace h).symm, Nat.succ_pos _, rfl⟩

theorem Serves.of_run {s' : Server} (hrun : Run (Turns c) s s') (hwaiting : s'.waiting = s.waiting)
    (h : Serves c s') : Serves c s := by
  obtain ⟨s'', hrun', hidle, hsame⟩ := h
  exact ⟨s'', hrun.trans hrun', hidle, hsame.trans hwaiting⟩

/-- From the top of the loop, with two children to start. -/
theorem serves_of_start (hplace : s.place = .reaping) (hstart : 0 < s.startchild) : Serves c s :=
  .of_run (run_reap hplace) rfl (serves_of_fork rfl (.inl hstart))

/-- The connections that wait, and the children that live, are not too many. -/
def Waits (c : Servers) (s : Server) : Prop :=
  0 < s.waiting ∧ ((s.idle + s.busy : Nat) : Int) < max c.servernumber c.maxservers

/-- Behind the zombies, the parent forks at once, or looks twice at the connections that wait. -/
theorem serves_of_reaping (h : Sound c s) (hwaits : Waits c s) (hplace : s.place = .reaping) :
    Serves c s := by
  have hcounted := h.counted
  have hnonneg := h.nonneg
  obtain ⟨hwaiting, hroom⟩ := hwaits
  unfold children at hcounted
  refine .of_run (run_reap hplace) rfl ?_
  by_cases hfork : 0 < s.startchild ∨ s.Instances - s.zombies < c.servernumber
  · exact serves_of_fork rfl hfork
  · have hforked : Turns c
        { s with place := .forking, zombies := 0, Instances := s.Instances - s.zombies }
        { s with place := .asking, zombies := 0, Instances := s.Instances - s.zombies } :=
      (turn_forked (s := { s with
        place := .forking, zombies := 0, Instances := s.Instances - s.zombies }) rfl hfork).symm
    have hask := run_ask (c := c)
      (s := { s with place := .asking, zombies := 0, Instances := s.Instances - s.zombies }) rfl
      hwaiting (by dsimp only; omega)
    exact .of_run (.head hforked hask) rfl (serves_of_start rfl (by dsimp only; omega))

theorem serves_of_deciding (h : Sound c s) (hwaits : Waits c s) (hplace : s.place = .deciding) :
    Serves c s := by
  have hsound : Sound c (s.turn c true) := sound_turn h
  have hturn : Turns c s (s.turn c true) := rfl
  rw [turn_decide hplace] at hsound hturn
  exact .of_run (.single hturn) rfl (serves_of_reaping hsound hwaits rfl)

theorem serves_of_asking (h : Sound c s) (hwaits : Waits c s) (hplace : s.place = .asking) :
    Serves c s := by
  have hsound : Sound c (s.turn c true) := sound_turn h
  have hturn : Turns c s (s.turn c true) := rfl
  rw [turn_ask hplace] at hsound hturn
  exact .of_run (.single hturn) rfl (serves_of_deciding hsound hwaits rfl)

theorem serves_of_forking (h : Sound c s) (hwaits : Waits c s) (hplace : s.place = .forking) :
    Serves c s := by
  by_cases hfork : 0 < s.startchild ∨ s.Instances < c.servernumber
  · exact serves_of_fork hplace hfork
  · have hsound : Sound c (s.turn c true) := sound_turn h
    have hturn : Turns c s (s.turn c true) := rfl
    rw [turn_forked hplace hfork] at hsound hturn
    exact .of_run (.single hturn) rfl (serves_of_asking hsound hwaits rfl)

end Progress

/-- From every state that is reached: where a connection waits, and fewer children live than the
limits allow, the parent comes to a child that is free, by its own steps. -/
theorem connection_served (c : Servers) (s : Server) (hrun : Run (Step c) new s)
    (hwaiting : 0 < s.waiting)
    (hroom : ((s.idle + s.busy : Nat) : Int) < max c.servernumber c.maxservers) :
    ∃ s', Run (Turns c) s s' ∧ 0 < s'.idle ∧ s'.waiting = s.waiting := by
  have h := sound_of_run hrun
  cases hplace : s.place with
  | reaping => exact serves_of_reaping h ⟨hwaiting, hroom⟩ hplace
  | forking => exact serves_of_forking h ⟨hwaiting, hroom⟩ hplace
  | asking => exact serves_of_asking h ⟨hwaiting, hroom⟩ hplace
  | deciding => exact serves_of_deciding h ⟨hwaiting, hroom⟩ hplace

theorem connection_served_crowded :
    ∃ s', Run (Turns ⟨1, 2⟩) crowded s' ∧ 0 < s'.idle ∧ s'.waiting = 1 :=
  connection_served ⟨1, 2⟩ crowded run_crowded (by decide) (by decide)

end Server

end Haarp
