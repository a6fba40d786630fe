import Haarp.Cache.Saving
import Haarp.Cache.World

/-!
# Who holds the row

`World.Locked` is the invariant of the connections on one entry: at most one of them holds the row,
the row is then marked as used, and each connection is sound (`Conn.Sound`): it tells the database
only about this row, and that it is over at last. A step keeps it, unless it takes the row over.

`Watched` follows a run by its clock: the time of the last `lockFile` of each connection, or of the
last save or other mark that its pieces and calls have made due and that it has carried out since.
`lock_kept`: when a connection asks for a row that another one holds, no later than 30 seconds after
that time, no connection takes the row from another, and only the one that holds it releases it.
-/

namespace Haarp

open Base

/-- The statements of a session on the row `key` that leave its lock alone. -/
inductive Stmt.Quiet (key : Key) : Stmt → Prop
  | record (rg pos : Str) (filesize np : Int) : Quiet key (.record key rg pos filesize np)
  | requested (bytes : Int) : Quiet key (.requested key bytes)
  | lastRequest : Quiet key (.lastRequest key)

/-- Nothing, or statements of which the last one releases the row. -/
def Ending (key : Key) (todo : List Stmt) : Prop :=
  todo = [] ∨ ∃ pre, todo = pre ++ [.liberate key] ∧ ∀ s ∈ pre, s.Quiet key

/-- The session has given the entry up: a call has returned -1 and released the row. -/
structure GaveUp (s : Running) : Prop where
  isMatch : s.t.r.isMatch = false
  hit : s.t.hit = false
  was_liberate : s.t.was_liberate = true
  ended : s.ended = true

/-- What a connection may still tell the database. -/
def Conn.Sound (key : Key) : Conn → Prop
  | ⟨.idle, todo⟩ => Ending key todo
  | ⟨.locked r, todo⟩ => todo = [] ∧ r.key = key ∧ r.isMatch = true
  | ⟨.session s, todo⟩ =>
    s.t.r.key = key ∧ (Holding s.t ∧ (∀ st ∈ todo, st.Quiet key) ∨ GaveUp s ∧ Ending key todo)
  | ⟨.dead, todo⟩ => todo = []

structure World.Locked (key : Key) (w : World) : Prop where
  exclusive : ∀ c c', w.Holds c → w.Holds c' → c = c'
  used : ∀ c, w.Holds c → ∃ row, w.table key = some row ∧ row.fileUsed = true
  sound : ∀ c, (w.conns c).Sound key

section Rows

variable {key : Key} {now : Int} {tb : Table} {s : Stmt}

theorem Stmt.Quiet.apply_used (h : s.Quiet key) {row : Row} (hrow : tb key = some row) :
    ∃ row', s.apply now tb key = some row' ∧ row'.fileUsed = row.fileUsed := by
  cases h with
  | record => exact ⟨_, (Table.modify_self tb key _).trans (congrArg (Option.map _) hrow), rfl⟩
  | requested => exact ⟨_, (Table.modify_self tb key _).trans (congrArg (Option.map _) hrow), rfl⟩
  | lastRequest => exact ⟨_, (Table.modify_self tb key _).trans (congrArg (Option.map _) hrow), rfl⟩

theorem Ending.liberate_mem {todo : List Stmt} (h : Ending key todo) (hne : todo ≠ []) :
    .liberate key ∈ todo := by
  rcases h with rfl | ⟨pre, rfl, -⟩
  · exact absurd rfl hne
  · simp

/-- The first of such statements leaves the lock alone, or it is the release and the last one. -/
theorem Ending.cases {todo : List Stmt} (h : Ending key (s :: todo)) :
    (s.Quiet key ∧ Ending key todo ∧ .liberate key ∈ todo) ∨ (s = .liberate key ∧ todo = []) := by
  rcases h with h | ⟨pre, hpre, hquiet⟩
  · cases h
  · cases pre with
    | nil =>
      obtain ⟨rfl, rfl⟩ : s = .liberate key ∧ todo = [] := by simpa using hpre
      exact .inr ⟨rfl, rfl⟩
    | cons s' pre =>
      obtain ⟨rfl, rfl⟩ : s = s' ∧ todo = pre ++ [.liberate key] := by simpa using hpre
      exact .inl ⟨hquiet s List.mem_cons_self,
        .inr ⟨pre, rfl, fun s' hs' => hquiet s' (List.mem_cons_of_mem s hs')⟩, by simp⟩

end Rows

/-! ## Changing one connection -/

section Step

variable {key : Key} {w w' : World} {c : Nat} {conn : Conn}

/-- A step of one connection keeps what is true of each. -/
theorem World.forall_set {P : Conn → Prop} (h : ∀ i, P (w.conns i)) (hconn : P conn) (i : Nat) :
    P ((w.set c conn).conns i) := by
  by_cases hic : i = c
  · rw [hic, World.set_self]
    exact hconn
  · rw [World.set_other hic]
    exact h i

/-- Who holds the row after a step of one connection. -/
theorem World.holds_set (hconn : conn.Holds → w.Holds c) {i : Nat} (h : (w.set c conn).Holds i) :
    w.Holds i := by
  by_cases hic : i = c
  · rw [World.Holds, hic, World.set_self] at h
    rw [hic]
    exact hconn h
  · rwa [World.Holds, World.set_other hic] at h

/-- What a connection tells at last releases the row. -/
theorem Conn.Sound.holds (h : conn.Sound key) (hne : conn.todo ≠ []) : conn.Holds := by
  obtain ⟨stage, todo⟩ := conn
  cases stage with
  | idle => exact ⟨_, Ending.liberate_mem h hne, rfl⟩
  | locked r => trivial
  | session s =>
    rcases h.2 with ⟨hholding, -⟩ | ⟨-, hending⟩
    · exact .inl hholding.was_liberate
    · exact .inr ⟨_, hending.liberate_mem hne, rfl⟩
  | dead => exact absurd h hne

/-- A step that leaves the lock of the row alone. -/
theorem World.Locked.keep (h : w.Locked key)
    (htable : ∀ row, w.table key = some row → row.fileUsed = true →
      ∃ row', w'.table key = some row' ∧ row'.fileUsed = true)
    (hsound : ∀ i, (w'.conns i).Sound key) (hholds : ∀ i, w'.Holds i → w.Holds i) :
    w'.Locked key := by
  refine ⟨fun i j hi hj => h.exclusive i j (hholds i hi) (hholds j hj), fun i hi => ?_, hsound⟩
  obtain ⟨row, hrow, hused⟩ := h.used i (hholds i hi)
  exact htable row hrow hused

/-- A step after which the connection `c` holds the row and nobody else does, or nobody at all. -/
theorem World.Locked.pass (h : w.Locked key) (hconns : w'.conns = (w.set c conn).conns)
    (hsound : ∀ i, (w'.conns i).Sound key) (hnone : ∀ i, i ≠ c → ¬ w.Holds i)
    (hused : conn.Holds → ∃ row, w'.table key = some row ∧ row.fileUsed = true) :
    w'.Locked key := by
  have hother : ∀ i, i ≠ c → w'.conns i = w.conns i := fun i hi => by
    rw [hconns, World.set_other hi]
  have hself : w'.conns c = conn := by rw [hconns, World.set_self]
  have hkeep : ∀ i, i ≠ c → ¬ w'.Holds i := fun i hi hi' => by
    unfold World.Holds at hi'
    rw [hother i hi] at hi'
    exact hnone i hi hi'
  refine ⟨exclusive_step h.exclusive (fun i hi hi' => absurd hi' (hkeep i hi)) fun _ => .inr hnone,
    fun i hi => ?_, hsound⟩
  by_cases hic : i = c
  · rw [hic, World.Holds, hself] at hi
    exact hused hi
  · exact absurd hi (hkeep i hic)

end Step

/-! ## One step -/

/-- What the lock guarantees of a step: a row that one connection holds is not taken by another, and
only the one that holds it releases it. -/
structure LockKept (key : Key) (w : World) (a : Act) (w' : World) : Prop where
  taken : ∀ c r r', a = .lockFile c r → (w'.conns c).stage = .locked r' →
    ∀ c', c' ≠ c → ¬ w.Holds c'
  released : ∀ row row', w.table key = some row → w'.table key = some row' → row.fileUsed = true →
    row'.fileUsed = false → ∃ c, a = .statement c ∧ w.Holds c ∧ ∀ c', c' ≠ c → ¬ w.Holds c'

section Steps

variable {key : Key} {w w' : World} {a : Act} {c : Nat}

theorem LockKept.of_table (htable : w'.table = w.table) (ha : ∀ c r, a ≠ .lockFile c r) :
    LockKept key w a w' := by
  refine ⟨fun c r _ h => absurd h (ha c r), fun row row' hrow hrow' hused hfree => ?_⟩
  rw [htable, hrow] at hrow'
  cases hrow'
  rw [hused] at hfree
  cases hfree

theorem told_append {t t' : Transfer} {new : Log} (h : t'.log = t.log ++ new) :
    told t t' = new.map Prod.fst := by
  rw [told, h, List.drop_left]

theorem recordStmt_eq (t : Transfer) :
    t.recordStmt = .record t.r.key (list2string t.lranges).1 (list2string t.lranges).2
      (getFileSize t.lranges) t.np := rfl

/-- The next statement that a connection tells leaves the lock alone, or it is the release and the last
one. -/
theorem Conn.Sound.next {stage : Stage} {s : Stmt} {todo : List Stmt}
    (h : Conn.Sound key ⟨stage, s :: todo⟩) :
    Conn.Sound key ⟨stage, todo⟩ ∧
      (s.Quiet key ∨ (s = .liberate key ∧ ¬ Conn.Holds ⟨stage, todo⟩)) := by
  cases stage with
  | idle =>
    rcases Ending.cases h with ⟨hquiet, hending, -⟩ | ⟨rfl, rfl⟩
    · exact ⟨hending, .inl hquiet⟩
    · refine ⟨.inl rfl, .inr ⟨rfl, ?_⟩⟩
      rintro ⟨k, hk, -⟩
      cases hk
  | locked r => cases h.1
  | session s₁ =>
    obtain ⟨hkey, ⟨hholding, hquiet⟩ | ⟨hgave, hending⟩⟩ := h
    · exact ⟨⟨hkey, .inl ⟨hholding, fun st hst => hquiet st (List.mem_cons_of_mem s hst)⟩⟩,
        .inl (hquiet s List.mem_cons_self)⟩
    · rcases hending.cases with ⟨hquiet, hending', -⟩ | ⟨rfl, rfl⟩
      · exact ⟨⟨hkey, .inr ⟨hgave, hending'⟩⟩, .inl hquiet⟩
      · refine ⟨⟨hkey, .inr ⟨hgave, .inl rfl⟩⟩, .inr ⟨rfl, ?_⟩⟩
        rintro (hlib | ⟨k, hk, -⟩)
        · rw [hgave.was_liberate] at hlib
          cases hlib
        · cases hk
  | dead => cases h

/-- A session that goes on holds the row. -/
theorem Conn.Sound.holding {s : Running} {todo : List Stmt} (h : Conn.Sound key ⟨.session s, todo⟩)
    (hgoing : s.ended = false) : Holding s.t := by
  rcases h.2 with ⟨hholding, -⟩ | ⟨hgave, -⟩
  · exact hholding
  · rw [hgave.ended] at hgoing
    cases hgoing

/-- A piece, or a hit that is read. -/
theorem piece_sound {s : Running} {d : Str} {part : BodyPart} {file : Str} {now : Int}
    (hkey : s.t.r.key = key) (hholding : Holding s.t)
    (hcall : readBodyPart succeeds now s.t file (some d) = some part) (received : Int) :
    Conn.Sound key ⟨.session
      { s with t := part.t, received, ended := decide (part.BodyLength = -1) }, told s.t part.t⟩ := by
  have htold := readBodyPart_told hcall
  have hkey' := htold.key.trans hkey
  cases hholding.told htold with
  | silent holding frame log =>
    rw [told, log, List.drop_length]
    exact ⟨hkey', .inl ⟨holding, by simp⟩⟩
  | saved holding frame log =>
    rw [told_append log]
    refine ⟨hkey', .inl ⟨holding, fun st hst => ?_⟩⟩
    rw [List.mem_singleton.mp hst, recordStmt_eq, hkey']
    exact .record _ _ _ _
  | released value isMatch hit was_liberate log =>
    rw [told_append log]
    refine ⟨hkey', .inr ⟨⟨isMatch, hit, was_liberate, by simp [value]⟩, .inr ⟨[], ?_, by simp⟩⟩⟩
    simp [hkey]

theorem update_sound {t : Transfer} (hkey : t.r.key = key) (hholding : Holding t) :
    Ending key (told t (update succeeds t)) := by
  cases hhit : t.hit with
  | false =>
    rw [told_append (update_miss hholding hhit)]
    refine .inr ⟨[(appendCurrent t).recordStmt], by simp [hkey], fun s hs => ?_⟩
    rw [List.mem_singleton.mp hs, recordStmt_eq, appendCurrent_r, hkey]
    exact .record _ _ _ _
  | true =>
    obtain ⟨new, hlog, hnew⟩ := update_hit hholding hhit
    rw [List.append_assoc] at hlog
    rw [told_append hlog]
    refine .inr ⟨new.map Prod.fst, by simp [hkey], fun s hs => ?_⟩
    obtain ⟨s', hs', rfl⟩ := List.mem_map.mp hs
    obtain ⟨bytes, hb⟩ := hnew s' hs'
    rw [hb, hkey]
    exact .requested bytes

/-- A session that has given the entry up tells nothing at its end. -/
theorem GaveUp.told_update {s : Running} (h : GaveUp s) : told s.t (update succeeds s.t) = [] := by
  rw [told, update_released succeeds h.isMatch h.hit, List.drop_length]
  rfl

/-- **Each connection stays sound**, whatever the step is. -/
theorem StepSpec.sound (h : StepSpec key w a w') (hsound : ∀ c, (w.conns c).Sound key) :
    ∀ c, (w'.conns c).Sound key := by
  cases h with
  | tick seconds => exact hsound
  | die c => exact World.forall_set hsound rfl
  | lockFile conn lock =>
    refine World.forall_set hsound ?_
    cases lock with
    | taken s r log stmt free => exact ⟨rfl, r⟩
    | refused value log =>
      rw [if_neg value]
      exact .inl rfl
  | @load c r range_min range_max t conn range start =>
    obtain ⟨-, hkey, hmatch⟩ := conn ▸ hsound c
    subst start
    refine World.forall_set hsound
      ⟨hkey, .inl ⟨⟨hmatch, rfl, rfl, rfl, rfl⟩, fun st hst => ?_⟩⟩
    split at hst
    · rw [List.mem_singleton.mp hst]
      exact .lastRequest
    · cases hst
  | @piece c s d part conn going filled fits call =>
    have hc := conn ▸ hsound c
    exact World.forall_set hsound (piece_sound hc.1 (hc.holding going) call _)
  | @update c s conn =>
    refine World.forall_set hsound ?_
    obtain ⟨hkey, ⟨hholding, -⟩ | ⟨hgave, -⟩⟩ := conn ▸ hsound c
    · exact update_sound hkey hholding
    · rw [hgave.told_update]
      exact .inl rfl
  | @statement c stage s todo conn => exact World.forall_set hsound (conn ▸ hsound c).next.1

/-- Only `lockFile` lets a connection hold the row. -/
theorem StepSpec.holds (h : StepSpec key w a w') (hsound : ∀ c, (w.conns c).Sound key) {i : Nat}
    (hi : w'.Holds i) : w.Holds i ∨ ∃ r, a = .lockFile i r := by
  cases h with
  | tick seconds => exact .inl hi
  | die c => exact .inl (World.holds_set False.elim hi)
  | @lockFile c r re t conn lock =>
    by_cases hic : i = c
    · exact .inr ⟨r, by rw [hic]⟩
    · exact .inl (by rwa [World.Holds, World.set_other hic] at hi)
  | @load c r range_min range_max t conn range start =>
    refine .inl (World.holds_set (fun _ => ?_) hi)
    rw [World.Holds, conn]
    trivial
  | @piece c s d part conn going filled fits call =>
    refine .inl (World.holds_set (fun _ => ?_) hi)
    rw [World.Holds, conn]
    exact .inl ((conn ▸ hsound c).holding going).was_liberate
  | @update c s conn =>
    refine .inl (World.holds_set (fun hc => ?_) hi)
    obtain ⟨hkey, ⟨hholding, -⟩ | ⟨hgave, -⟩⟩ := conn ▸ hsound c
    · rw [World.Holds, conn]
      exact .inl hholding.was_liberate
    · rw [hgave.told_update] at hc
      obtain ⟨k, hk, -⟩ := hc
      cases hk
  | @statement c stage s todo conn =>
    refine .inl (World.holds_set (fun _ => ?_) hi)
    rw [World.Holds, conn]
    exact (conn ▸ hsound c).holds (List.cons_ne_nil s todo)

/-- `lockFile` of the connection `c`. -/
theorem lockFile_locked (h : w.Locked key) {r : Resposta}
    (hfresh : (∃ c', c' ≠ c ∧ w.Holds c') → w.Fresh key) {re : Int} {t : Transfer}
    (hspec : LockSpec key w (re, t))
    (hw' : w' = { w.set c ⟨if re = 1 then .locked t.r else .idle, []⟩ with
      table := w.table.run w.now t.log }) (hsound : ∀ i, (w'.conns i).Sound key) :
    w'.Locked key ∧ LockKept key w (.lockFile c r) w' := by
  subst hw'
  cases hspec with
  | taken s hr log stmt free =>
    have hnone : ∀ i, i ≠ c → ¬ w.Holds i := by
      intro i hi hholds
      obtain ⟨row, hrow, hused⟩ := h.used i hholds
      exact free row hrow hused (hfresh ⟨i, hi, hholds⟩)
    have hrun : w.table.run w.now t.log = s.apply w.now w.table := by rw [log]; rfl
    obtain ⟨⟨row', hrow', hused'⟩, -⟩ := take_row w.now stmt
    rw [← hrun] at hrow'
    refine ⟨h.pass rfl hsound hnone fun _ => ⟨row', hrow', hused'⟩,
      ⟨fun c₁ _ _ ha _ => ?_, fun row row'' _ hrow'' _ hfree => ?_⟩⟩
    · cases ha
      exact hnone
    · cases hrow'.symm.trans hrow''
      rw [hused'] at hfree
      cases hfree
  | refused value log =>
    rw [if_neg value, log] at hsound ⊢
    refine ⟨h.keep (fun row hrow hused => ⟨row, hrow, hused⟩) hsound fun i hi => ?_,
      ⟨fun c₁ _ _ ha hstage => ?_, fun row row' hrow hrow' hused hfree => ?_⟩⟩
    · refine World.holds_set ?_ hi
      rintro ⟨k, hk, -⟩
      cases hk
    · cases ha
      rw [World.set_self] at hstage
      cases hstage
    · cases hrow.symm.trans hrow'
      rw [hused] at hfree
      cases hfree

/-- **One step**: a row that another connection holds is only asked for while its use is fresh. -/
theorem World.Locked.step (h : w.Locked key) (hstep : w.step key a = some w')
    (hfresh : ∀ c r, a = .lockFile c r → (∃ c', c' ≠ c ∧ w.Holds c') → w.Fresh key) :
    w'.Locked key ∧ LockKept key w a w' := by
  have hspec := step_spec hstep
  have hsound := hspec.sound h.sound
  have hholds := fun i => @StepSpec.holds key w w' a hspec h.sound i
  have hsame : ∀ row, w.table key = some row → row.fileUsed = true →
      ∃ row', w.table key = some row' ∧ row'.fileUsed = true :=
    fun row hrow hused => ⟨row, hrow, hused⟩
  cases hspec with
  | tick | die | load | piece | update =>
    exact ⟨h.keep hsame hsound fun i hi => (hholds i hi).resolve_right (by simp),
      .of_table rfl fun c r => by simp⟩
  | lockFile conn lock => exact lockFile_locked h (hfresh _ _ rfl) lock rfl hsound
  | @statement c stage s todo conn =>
    have hc : w.Holds c := by
      rw [World.Holds, conn]
      exact (conn ▸ h.sound c).holds (List.cons_ne_nil s todo)
    have hnone : ∀ i, i ≠ c → ¬ w.Holds i := fun i hi hi' => hi (h.exclusive i c hi' hc)
    refine ⟨?_, ⟨fun _ _ _ ha => Act.noConfusion ha, fun _ _ _ _ _ _ => ⟨c, rfl, hc, hnone⟩⟩⟩
    obtain ⟨-, hquiet | ⟨-, hrelease⟩⟩ := (conn ▸ h.sound c).next
    · refine h.keep (fun row hrow hused => ?_) hsound
        fun i hi => (hholds i hi).resolve_right (by simp)
      obtain ⟨row', hrow', hsame'⟩ := @Stmt.Quiet.apply_used _ w.now _ _ hquiet _ hrow
      exact ⟨row', hrow', hsame'.trans hused⟩
    · exact h.pass rfl hsound hnone fun hc => absurd hc hrelease

/-- Nobody uses the row. -/
theorem World.locked_idle (hidle : ∀ c, w.conns c = ⟨.idle, []⟩) : w.Locked key := by
  have hnone : ∀ c, ¬ w.Holds c := by
    rintro c hc
    rw [World.Holds, hidle c] at hc
    obtain ⟨s, hs, -⟩ := hc
    cases hs
  refine ⟨fun c _ hc => absurd hc (hnone c), fun c hc => absurd hc (hnone c), fun c => ?_⟩
  rw [hidle c]
  exact .inl rfl

end Steps

/-! ## The times of the marks -/

/-- The last time at which the row was marked as in use. -/
def Row.mark (row : Row) : Int := max row.modified row.lastRequest

/-- The row was not marked later than now. -/
def World.Past (key : Key) (w : World) : Prop :=
  ∀ row, w.table key = some row → row.modified ≤ w.now ∧ row.lastRequest ≤ w.now

/-- A connection that follows the clock: the time at which each connection has last marked the row, and
whether a statement that it has still to carry out will. -/
structure Watched where
  world : World
  marked : Nat → Int
  due : Nat → Bool

/-- Whether the act makes a mark due: a hit is loaded, a piece comes to the save of the 16th expiry of
the timer, or `Update` is called. -/
def World.marksDue (key : Key) (w : World) : Act → Bool
  | .load _ range_min range_max => (getRangeWork (w.table.ranges key) range_min range_max).2
  | .piece c d =>
    match (w.conns c).stage with
    | .session s => (saveState s.t w.file (some d)).any (saveDue w.now)
    | _ => false
  | .update _ => true
  | _ => false

/-- `lockFile` marks the row, and so does the next statement of a connection that a mark is due of. -/
def Watched.step (key : Key) (v : Watched) (a : Act) : Option Watched :=
  (v.world.step key a).map fun w' =>
    match a with
    | .tick _ | .die _ => { v with world := w' }
    | .lockFile c _ =>
      { world := w'
        marked := fun i => if i = c then v.world.now else v.marked i
        due := fun i => if i = c then false else v.due i }
    | .load c _ _ | .piece c _ | .update c =>
      { v with world := w', due := fun i => if i = c then v.world.marksDue key a else v.due i }
    | .statement c =>
      { world := w'
        marked := fun i => if i = c ∧ v.due c then v.world.now else v.marked i
        due := fun i => if i = c then false else v.due i }

/-- A step at a good time: a row that another connection holds is only asked for within 30 seconds of the
last mark of that connection. -/
def Act.Timely (v : Watched) : Act → Prop
  | .lockFile c _ => ∀ c', c' ≠ c → v.world.Holds c' → v.world.now ≤ v.marked c' + 30
  | _ => True

/-- The steps that connections take at good times. -/
def TimelyStep (key : Key) (v v' : Watched) : Prop :=
  ∃ a : Act, a.Timely v ∧ v.step key a = some v'

section Marks

variable {key : Key} {w w' : World} {v v' : Watched} {a : Act} {s : Stmt} {tb : Table} {now : Int}
  {row : Row}

/-- A statement that leaves the lock alone marks the row. -/
theorem Stmt.Quiet.apply_mark (h : s.Quiet key) (hrow : tb key = some row)
    (hpast : row.modified ≤ now ∧ row.lastRequest ≤ now) :
    ∃ row', s.apply now tb key = some row' ∧ now ≤ row'.mark ∧ row'.modified ≤ now ∧
      row'.lastRequest ≤ now := by
  obtain ⟨hmodified, hrequest⟩ := hpast
  have hmodify : ∀ f : Row → Row, tb.modify key f key = some (f row) := fun f => by
    rw [Table.modify_self, hrow, Option.map_some]
  cases h with
  | record rg pos filesize np => exact ⟨_, hmodify _, le_max_left _ _, le_rfl, hrequest⟩
  | requested bytes => exact ⟨_, hmodify _, le_max_right _ _, hmodified, le_rfl⟩
  | lastRequest => exact ⟨_, hmodify _, le_max_right _ _, hmodified, le_rfl⟩

/-- The statement that takes the row marks it. -/
theorem take_mark (h : (tb key = none ∧ s = .insert key) ∨ ((tb key).isSome ∧ s = .lock key))
    (hpast : ∀ row, tb key = some row → row.lastRequest ≤ now) :
    ∃ row', s.apply now tb key = some row' ∧ now ≤ row'.mark ∧ row'.modified ≤ now ∧
      row'.lastRequest ≤ now := by
  rcases h with ⟨hnone, rfl⟩ | ⟨hsome, rfl⟩
  · have hrow : (Stmt.insert key).apply now tb key = some (Row.inserted now) := by
      simp only [Stmt.apply, Table.insert, hnone, Option.isNone_none, and_self, if_true]
    exact ⟨_, hrow, le_max_left _ _, le_rfl, le_rfl⟩
  · obtain ⟨row, hrow⟩ := Option.isSome_iff_exists.mp hsome
    exact ⟨_, (Table.modify_self tb key _).trans (congrArg (Option.map _) hrow), le_max_left _ _,
      le_rfl, hpast row hrow⟩

/-- What a step does to the marks of the row: none is later than now, the last one moves on only, and
`lockFile` and the statements of the one who holds the row after them set it. -/
structure MarksMove (key : Key) (w : World) (a : Act) (w' : World) : Prop where
  past : w'.Past key
  later : ∀ row, w.table key = some row →
    ∃ row', w'.table key = some row' ∧ row.mark ≤ row'.mark
  marked : ∀ c, (a = .statement c ∨ ∃ r, a = .lockFile c r) → w'.Holds c →
    ∃ row', w'.table key = some row' ∧ w.now ≤ row'.mark

theorem MarksMove.of_table (hpast : w.Past key) (htable : w'.table = w.table) (hnow : w.now ≤ w'.now)
    (ha : ∀ c, a ≠ .statement c ∧ ∀ r, a ≠ .lockFile c r) : MarksMove key w a w' := by
  refine ⟨fun row hrow => ?_, fun row hrow => ⟨row, htable ▸ hrow, le_rfl⟩, fun c hc => ?_⟩
  · have := hpast row (htable ▸ hrow)
    omega
  · rcases hc with hc | ⟨r, hc⟩
    · exact absurd hc (ha c).1
    · exact absurd hc ((ha c).2 r)

/-- A statement that marks the row at its time. -/
theorem MarksMove.of_mark (hpast : w.Past key) (hnow : w'.now = w.now) {row' : Row}
    (hrow' : w'.table key = some row') (hmark : w.now ≤ row'.mark) (hmodified : row'.modified ≤ w.now)
    (hrequest : row'.lastRequest ≤ w.now) : MarksMove key w a w' := by
  refine ⟨fun row hrow => ?_, fun row hrow => ⟨row', hrow', ?_⟩, fun c _ _ => ⟨row', hrow', hmark⟩⟩
  · cases hrow.symm.trans hrow'
    rw [hnow]
    exact ⟨hmodified, hrequest⟩
  · obtain ⟨hm, hr⟩ := hpast row hrow
    exact (max_le hm hr).trans hmark

theorem StepSpec.marks (h : StepSpec key w a w') (hlocked : w.Locked key) (hpast : w.Past key) :
    MarksMove key w a w' := by
  cases h with
  | tick seconds =>
    exact .of_table hpast rfl (by simp only; omega) fun c => ⟨by simp, by simp⟩
  | die | load | piece | update => exact .of_table hpast rfl le_rfl fun c => ⟨by simp, by simp⟩
  | @lockFile c r re t conn lock =>
    cases lock with
    | taken s hr log stmt free =>
      have hrun : w.table.run w.now t.log = s.apply w.now w.table := by rw [log]; rfl
      have hlast : ∀ row, w.table key = some row → row.lastRequest ≤ w.now := fun row hrow =>
        (hpast row hrow).2
      obtain ⟨row', hrow', hmark, hmodified, hrequest⟩ := take_mark stmt hlast
      rw [← hrun] at hrow'
      exact .of_mark hpast rfl hrow' hmark hmodified hrequest
    | refused value log =>
      rw [if_neg value, log]
      refine ⟨hpast, fun row hrow => ⟨row, hrow, le_rfl⟩, ?_⟩
      rintro c' (hc' | ⟨r', hc'⟩) hholds
      · cases hc'
      · cases hc'
        obtain ⟨k, hk, -⟩ : Conn.Holds ⟨.idle, []⟩ := by
          rwa [World.Holds, World.set_self] at hholds
        cases hk
  | @statement c stage s todo conn =>
    have hc : w.Holds c := by
      rw [World.Holds, conn]
      exact (conn ▸ hlocked.sound c).holds (List.cons_ne_nil s todo)
    obtain ⟨row, hrow, -⟩ := hlocked.used c hc
    obtain ⟨-, hquiet | ⟨rfl, hrelease⟩⟩ := (conn ▸ hlocked.sound c).next
    · obtain ⟨row', hrow', hmark, hmodified, hrequest⟩ := hquiet.apply_mark hrow (hpast row hrow)
      exact .of_mark hpast rfl hrow' hmark hmodified hrequest
    · -- the release marks nothing
      have hrow' : (Stmt.liberate key).apply w.now w.table key =
          some { row with fileUsed := false } := by
        rw [Stmt.apply, Table.modify_self, hrow, Option.map_some]
      refine ⟨fun row₁ hrow₁ => ?_, fun row₁ hrow₁ => ⟨_, hrow', ?_⟩, ?_⟩
      · cases hrow₁.symm.trans hrow'
        exact hpast row hrow
      · cases hrow.symm.trans hrow₁
        exact le_rfl
      · rintro c' (hc' | ⟨r, hc'⟩) hholds
        · cases hc'
          rw [World.Holds, World.set_self] at hholds
          exact absurd hholds hrelease
        · cases hc'

/-- The marks that are followed are marks of the row. -/
structure Watched.Inv (key : Key) (v : Watched) : Prop where
  locked : v.world.Locked key
  past : v.world.Past key
  marked : ∀ c, v.world.Holds c → ∃ row, v.world.table key = some row ∧ v.marked c ≤ row.mark

/-- What is followed of a step. -/
theorem Watched.step_spec (h : v.step key a = some v') :
    v.world.step key a = some v'.world ∧
      ∀ c, (v'.marked c = v.marked c ∧ ∀ r, a ≠ .lockFile c r) ∨
        (v'.marked c = v.world.now ∧ (a = .statement c ∨ ∃ r, a = .lockFile c r)) := by
  obtain ⟨w', hstep, rfl⟩ := Option.map_eq_some_iff.mp h
  cases a with
  | tick | die | load | piece | update => exact ⟨hstep, fun i => .inl ⟨rfl, by simp⟩⟩
  | lockFile c r =>
    refine ⟨hstep, fun i => ?_⟩
    by_cases hic : i = c
    · exact .inr ⟨if_pos hic, .inr ⟨r, by rw [hic]⟩⟩
    · exact .inl ⟨if_neg hic, by simp [Ne.symm hic]⟩
  | statement c =>
    refine ⟨hstep, fun i => ?_⟩
    by_cases hic : i = c ∧ v.due c = true
    · exact .inr ⟨if_pos hic, .inl (by rw [hic.1])⟩
    · exact .inl ⟨if_neg hic, by simp⟩

/-- At a good time the row is fresh whenever another connection holds it. -/
theorem Watched.Inv.fresh (h : v.Inv key) (htimely : a.Timely v) {c : Nat} {r : Resposta}
    (ha : a = .lockFile c r) (hother : ∃ c', c' ≠ c ∧ v.world.Holds c') : v.world.Fresh key := by
  subst ha
  obtain ⟨c', hne, hholds⟩ := hother
  have hnow := htimely c' hne hholds
  obtain ⟨row, hrow, hmark⟩ := h.marked c' hholds
  intro row' hrow'
  cases hrow.symm.trans hrow'
  obtain ⟨hmodified, hrequest⟩ := h.past row hrow
  have hpast : row.mark ≤ v.world.now := max_le hmodified hrequest
  unfold Row.mark at hmark hpast
  omega

/-- **One timely step.** -/
theorem Watched.Inv.step (h : v.Inv key) (hstep : v.step key a = some v') (htimely : a.Timely v) :
    v'.Inv key := by
  obtain ⟨hworld, hmarked⟩ := Watched.step_spec hstep
  have hlocked := (h.locked.step hworld fun c r ha => h.fresh htimely ha).1
  have hspec := Haarp.step_spec hworld
  have hmoves := hspec.marks h.locked h.past
  refine ⟨hlocked, hmoves.past, fun c hc => ?_⟩
  rcases hmarked c with ⟨hsame, hother⟩ | ⟨hnow, hacts⟩
  · have hheld := (hspec.holds h.locked.sound hc).resolve_right fun ⟨r, ha⟩ => hother r ha
    obtain ⟨row, hrow, hmark⟩ := h.marked c hheld
    obtain ⟨row', hrow', hlater⟩ := hmoves.later row hrow
    exact ⟨row', hrow', hsame ▸ hmark.trans hlater⟩
  · obtain ⟨row', hrow', hmark⟩ := hmoves.marked c hacts hc
    exact ⟨row', hrow', hnow ▸ hmark⟩

end Marks

/-! ## Every run -/

section Runs

variable {key : Key} {v₀ v v' : Watched} {a : Act}

/-- Nobody uses the row, which was not marked later than now. -/
theorem Watched.inv_idle (hidle : ∀ c, v.world.conns c = ⟨.idle, []⟩) (hpast : v.world.Past key) :
    v.Inv key := by
  refine ⟨World.locked_idle hidle, hpast, fun c hc => ?_⟩
  rw [World.Holds, hidle c] at hc
  obtain ⟨s, hs, -⟩ := hc
  cases hs

theorem Watched.inv_run (hidle : ∀ c, v₀.world.conns c = ⟨.idle, []⟩) (hpast : v₀.world.Past key)
    (hrun : Run (TimelyStep key) v₀ v) : v.Inv key :=
  run_invariant (fun _ _ h ⟨_, htimely, hstep⟩ => h.step hstep htimely) hrun
    (Watched.inv_idle hidle hpast)

/-- Acts that do not ask for the row are timely. -/
theorem Watched.run_acts {acts : List Act} (hacts : ∀ a ∈ acts, ∀ c r, a ≠ .lockFile c r)
    (h : acts.foldlM (Watched.step key) v = some v') : Run (TimelyStep key) v v' := by
  induction acts generalizing v with
  | nil =>
    cases h
    exact .refl
  | cons a acts ih =>
    rw [List.foldlM_cons] at h
    obtain ⟨v₁, hv₁, hrest⟩ := Option.bind_eq_some_iff.mp h
    refine .head ⟨a, ?_, hv₁⟩ (ih (fun a' ha' => hacts a' (List.mem_cons_of_mem a ha')) hrest)
    cases a with
    | lockFile c r => exact absurd rfl (hacts _ List.mem_cons_self c r)
    | _ => trivial

end Runs

end Haarp
