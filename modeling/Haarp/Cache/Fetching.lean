import Haarp.Cache.Coverage
import Haarp.Cache.Offset

/-!
# What a miss takes from the server

A miss takes its pieces from the server until it is turned into a hit; from then on it does not read
the server any more. `readMiss_fetches`: it is turned behind the first piece from whose end on the
plan does not need the server.
-/

namespace Haarp

open Base

/-- A miss that has received `k` bytes and is not turned, or only by the end of its plan. -/
inductive Transfer.Fetches (plan : LintervalPositionByteDisk) (range_min e k : Int) (t : Transfer) : Prop
  | waits {file : Str} (miss : t.miss2hit = false)
      (waits : Receiving (fun _ => ()) (fun _ => ()) range_min e t file) (sent : t.filesended = k)
      (lacks : t.Lacks) (keeps : t.Keeps plan)
  | behind (miss : t.miss2hit = false) (isOpen : t.isOpen = true) (brange : t.brange = [])
      (done : e ≤ range_min + k)
  | whole (turned : t.miss2hit = true) (isOpen : t.isOpen = true) (brange : t.brange = [])
      (sent : t.filesended = t.filesizeneto)

section Fetch

variable {db : Db} {now : Int} {plan : LintervalPositionByteDisk} {range_min e k n : Int} {t : Transfer}
  {file d : Str} {part : BodyPart}

/-- Behind the plan the server is read as before. -/
theorem needsServer_behind (htiles : TilesBytes range_min plan e) (h : e ≤ n) : NeedsServer plan n := by
  rintro ⟨w, hw, hle⟩
  have := htiles.bounds hw
  omega

theorem readMiss_fetches (htiles : TilesBytes range_min plan e) (h : t.Fetches plan range_min e k)
    (hmiss : t.miss2hit = false) (hne : d ≠ []) (hcall : readMiss db now t file (some d) = some part)
    (hvalue : part.BodyLength ≠ -1) :
    part.BodyLength = d.length ∧
      ((NeedsServer plan (range_min + (k + d.length)) ∧ part.t.Fetches plan range_min e (k + d.length)) ∨
        (¬ NeedsServer plan (range_min + (k + d.length)) ∧ part.t.miss2hit = true)) := by
  cases h with
  | whole turned isOpen brange sent =>
    rw [turned] at hmiss
    cases hmiss
  | behind miss isOpen brange done =>
    obtain ⟨hbrange, -, -, hfail | ⟨hlength, hisOpen, -, hturn, -⟩⟩ :=
      readMiss_ended isOpen brange hne hcall
    · exact absurd hfail hvalue
    · refine ⟨hlength, .inl ⟨needsServer_behind htiles (by omega), ?_⟩⟩
      exact .behind (hturn.trans miss) hisOpen hbrange (by omega)
  | @waits file' miss waits sent lacks keeps =>
    obtain ⟨part', hcall', ht, hlength⟩ := readMiss_file file' hcall
    rw [← ht, ← hlength]
    rw [← hlength] at hvalue
    have hcarries : Carries (fun _ => ()) (fun _ => ()) (range_min + t.filesended) d := carries_unit _ _
    obtain ⟨part'', hcall'', hspec, -⟩ := readMiss_spec db now waits hne hcarries
    cases hcall'.symm.trans hcall''
    have hahead := readMiss_ahead waits lacks hne hcarries hcall' hvalue
    have hfollows := readMiss_follows waits keeps hne hcarries hcall'
    cases hspec with
    | failed value wellFormed acumulate faithful reason sent' covered => exact absurd value hvalue
    | complete value between done faithful sent' whole =>
      refine ⟨value, .inl ⟨needsServer_behind htiles ?_, ?_⟩⟩
      · have hend := between.tiles
        rw [done] at hend
        have : range_min + part'.t.filesended = e := hend
        omega
      · obtain ⟨-, hisOpen, hturned | ⟨hstays, -⟩⟩ := hahead.resolve_left fun h => h.1 done
        · refine .whole hturned.1 hisOpen done ?_
          rw [whole, ((readMiss_told hcall').1.frame hvalue).filesizeneto]
        · refine .behind hstays hisOpen done ?_
          have hend := between.tiles
          rw [done] at hend
          have : range_min + part'.t.filesended = e := hend
          omega
    | @inside cur rest value isOpen inside faithful sent' =>
      have hne' : part'.t.brange ≠ [] := by
        rw [inside.brange]
        exact List.cons_ne_nil _ _
      obtain ⟨-, howes⟩ := hahead.resolve_right fun h => hne' h.1
      have hfollows := (hfollows.resolve_left hne').resolve_left hvalue
      have hiff := inside.turned_iff howes hfollows htiles
      rw [show part'.t.filesended = k + d.length by omega] at hiff
      refine ⟨value, ?_⟩
      by_cases hturned : part'.t.miss2hit = false
      · refine .inl ⟨hiff.mp hturned, .waits hturned (.opened isOpen inside faithful) (by omega) ?_ ?_⟩
        · unfold Transfer.Lacks
          rwa [if_pos isOpen]
        · unfold Transfer.Keeps
          rwa [if_pos isOpen]
      · exact .inr ⟨fun hneeds => hturned (hiff.mpr hneeds), Bool.eq_true_of_not_eq_false hturned⟩

/-- Behind the plan nothing is read from the cache file. -/
theorem readHit_whole (hisOpen : t.isOpen = true) (hbrange : t.brange = [])
    (hsent : t.filesended = t.filesizeneto) (hcall : readHit db now t file = some part) :
    part.BodyLength ≤ 0 := by
  have hblock : (readBlock now t file).2.brange = [] ∧ (readBlock now t file).2.filesended =
      t.filesizeneto + (readBlock now t file).1.length ∧
      (readBlock now t file).2.filesizeneto = t.filesizeneto := by
    unfold readBlock
    generalize hread : readBytes t file = read
    have hbrange' : read.2.brange = [] := by
      rw [← hread]
      exact hbrange
    have hsent' : read.2.filesended = t.filesizeneto := by
      rw [← hread]
      exact hsent
    have hneto' : read.2.filesizeneto = t.filesizeneto := by
      rw [← hread]
      rfl
    dsimp only
    split
    · next hempty =>
      rw [List.isEmpty_iff.mp hempty]
      exact ⟨hbrange', by simp [hsent'], hneto'⟩
    · unfold advance
      dsimp only
      rw [hbrange']
      split <;> exact ⟨rfl, by rw [hsent'], hneto'⟩
  obtain ⟨hdone, hcount, hneto⟩ := hblock
  unfold readHit at hcall
  rw [if_pos hisOpen, Option.map_some] at hcall
  obtain rfl := Option.some.inj hcall
  simp only [hisOpen, not_true_eq_false, if_false, hdone, List.isEmpty_nil, true_or, if_true, hcount,
    hneto]
  split
  · next hend =>
    have := hend.2.2
    dsimp only
    omega
  · dsimp only
    decide

/-- A session before its body fetches it by its plan. -/
theorem Transfer.Starts.fetches {l : LintervalPositionByteDisk} {top : Int} (hl : WellFormed l)
    (h₀ : 0 ≤ range_min) (hle : range_min ≤ top) (hmiss : (getRangeWork l range_min top).2 = false)
    (hstart : t.Starts l (getRangeWork l range_min top).1) :
    t.Fetches (getRangeWork l range_min top).1 range_min (planEnd l range_min top) 0 := by
  obtain ⟨htiles, hblocks, -⟩ := getRangeWork_spec hl.toStoredList h₀ hle
  obtain ⟨file, hfile⟩ := exists_file hl fun _ => 'x'
  have hholds : Holds (fun _ => ()) (fun _ => ()) (Placed l) file := hfile.map fun _ => ()
  refine .waits hstart.miss2hit (hstart.receiving hl hholds h₀ (lt_planEnd hle) htiles hblocks)
    hstart.filesended (hstart.lacks hl h₀ hle hmiss) ?_
  unfold Transfer.Keeps
  rw [if_neg (by simp [hstart.isOpen]), Transfer.lrangeswork, hstart.passed, hstart.brange,
    List.nil_append]

end Fetch

end Haarp
