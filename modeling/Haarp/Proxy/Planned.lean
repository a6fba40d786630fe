import Haarp.Cache.Planning
import Haarp.Http.ContentLength
import Haarp.Proxy.Release

/-!
# A miss has a plan

The body of a miss is stored by the plan `lrangeswork`. `Cache` makes it for a file of known size;
otherwise `Cache2` makes it for the length that `getOnlyContentLength` finds, and there is no plan
when it finds none. Then only the length that `AnalyseHeader` has read keeps the response out of the
cache: `-1` is below every bound of the configuration.

`lengths_agree_iff`: when the readers of the length agree, and then every miss has a plan.
-/

namespace Haarp

open Base

section Plan

variable {db : Db} {c c' : Connection}

/-- A connection that uses the entry and has no plan does not know the size of its file. -/
def Connection.PlansKnown (c : Connection) : Prop :=
  c.r.isMatch = true → c.hit = false → c.size_orig_file ≠ 0 → c.lrangeswork ≠ []

/-- A miss has a plan. -/
def Connection.HasPlan (c : Connection) : Prop :=
  c.r.isMatch = true → c.hit = false → c.lrangeswork ≠ []

theorem Connection.HasPlan.plansKnown (h : c.HasPlan) : c.PlansKnown :=
  fun hmatch hhit _ => h hmatch hhit

theorem Connection.HasPlan.of_not_match (h : c.r.isMatch = false) : c.HasPlan := by
  intro hmatch
  rw [h] at hmatch
  cases hmatch

theorem Connection.PlansKnown.of_not_match (h : c.r.isMatch = false) : c.PlansKnown :=
  (Connection.HasPlan.of_not_match h).plansKnown

/-- A connection that has given up. -/
theorem isMatch_liberated (db : Db) (c : Connection) :
    (c.giveUp.liberateEdition db).r.isMatch = false :=
  congrArg Resposta.isMatch (liberateEdition_r db c.giveUp.toTransfer)

theorem Connection.PlansKnown.giveUp (db : Db) (c : Connection) :
    (c.giveUp.liberateEdition db).PlansKnown :=
  .of_not_match (isMatch_liberated db c)

theorem Connection.HasPlan.of_getRangeWork {l : LintervalPositionByteDisk} {a b : Int}
    (h : (c.lrangeswork, c.hit) = getRangeWork l a b) : c.HasPlan := by
  intro _ hhit
  obtain ⟨hplan, hhit'⟩ := Prod.mk.inj h
  rw [hplan]
  exact getRangeWork_miss (hhit' ▸ hhit)

/-! ## Cache -/

theorem fileStored_plansKnown {row : SelectedRow} (h : c.fileStored db row = some c') :
    c'.PlansKnown := by
  unfold Connection.fileStored at h
  dsimp only at h
  split at h
  · cases h
    exact .giveUp db _
  · obtain ⟨c₁, hplanned, rfl⟩ := Option.map_eq_some_iff.mp h
    have hknown : c₁.PlansKnown := by
      unfold Connection.planStored at hplanned
      split at hplanned
      · obtain ⟨-, -, -, -, hwork⟩ := Connection.sizeKnown_some hplanned
        exact (Connection.HasPlan.of_getRangeWork hwork).plansKnown
      · next hsize =>
        cases hplanned
        intro _ _ hne
        have hkeeps : ∀ c : Connection, c.sizeUnknown.size_orig_file = c.size_orig_file := by
          intro c
          unfold Connection.sizeUnknown
          split <;> rfl
        rw [hkeeps] at hne
        exact absurd hne hsize
    split <;> exact hknown

theorem fileFound_plansKnown {selected : Option (Option SelectedRow)}
    (h : c.fileFound db selected = some c') : c'.PlansKnown := by
  unfold Connection.fileFound at h
  dsimp only at h
  split at h
  · cases h
    exact .giveUp db _
  · cases h
    exact .giveUp db _
  · exact fileStored_plansKnown h

theorem fileMissing_size (db : Db) (disco_con_espacio : Bool) (c : Connection) :
    (c.fileMissing db disco_con_espacio).r.isMatch = false ∨
      (c.fileMissing db disco_con_espacio).size_orig_file = c.size_orig_file := by
  have hreset : ∀ c : Connection, (c.resetRow db).r.isMatch = false ∨
      (c.resetRow db).size_orig_file = c.size_orig_file := by
    intro c
    unfold Connection.resetRow
    split
    · dsimp only
      split
      · exact .inr rfl
      · exact .inl rfl
    · exact .inr rfl
  unfold Connection.fileMissing
  dsimp only
  split
  · split
    · exact hreset _
    · exact hreset _
  · exact .inl rfl

theorem useEntry_plansKnown {asked : Asked} (hsize : c.size_orig_file = 0)
    (h : c.useEntry db asked = some c') : c'.PlansKnown := by
  unfold Connection.useEntry at h
  dsimp only at h
  split at h
  · cases h
    exact .of_not_match rfl
  · obtain ⟨c₁, hsized, h⟩ := Option.bind_eq_some_iff.mp h
    have hsize₁ : c₁.size_orig_file = 0 := by
      split at hsized
      · obtain ⟨filesizeneto, -, rfl⟩ := Option.map_eq_some_iff.mp hsized
        exact hsize
      · cases hsized
        exact hsize
    split at h
    · cases h
      exact .of_not_match rfl
    · split at h
      · cases h
        rcases fileMissing_size db _ c₁ with hmatch | hmissing
        · exact .of_not_match hmatch
        · intro _ _ hne
          exact absurd (hmissing.trans hsize₁) hne
      · exact fileFound_plansKnown h

/-- `Cache` plans a request for a file of known size. -/
theorem cache_plansKnown {asked : Asked} (hsize : c.size_orig_file = 0)
    (h : c.cache db asked = some c') : c'.PlansKnown := by
  have hask : (c.ask asked).size_orig_file = 0 := by
    unfold Connection.ask
    dsimp only
    split <;> exact hsize
  cases cache_cases h with
  | unasked unmatched result =>
    rw [result]
    exact .of_not_match unmatched
  | refused matched locked notTaken result =>
    rw [result]
    exact .of_not_match rfl
  | used matched locked taken uses =>
    refine useEntry_plansKnown ?_ uses
    exact hask

/-! ## ReadHeader -/

/-- `Cache2` leaves a hit or a plan. -/
theorem cache2_hasPlan {cl : Int} (h : c.cache2 db cl = some c') : c'.HasPlan := by
  obtain ⟨total, -, rfl⟩ := Option.map_eq_some_iff.mp h
  dsimp only
  generalize hc : ({ (if c.Resizes then c.resize db cl total else c).moveTop total with
    filesizeneto := cl } : Connection) = c₁
  obtain ⟨-, -, -, -, hplan⟩ := c₁.replan_eq db
  rcases hplan with ⟨-, hwork⟩ | ⟨hne, hkept, -⟩
  · exact .of_getRangeWork hwork
  · intro _ _
    rw [hkept]
    exact hne

theorem readMissed_planned {read : Bool × Str} {ok : Bool} {out : HeaderText}
    (h : c.readMissed db read = some (ok, out, c')) : c'.HasPlan ∨ c' = c := by
  obtain ⟨c₁, hcache2, heq⟩ := Option.map_eq_some_iff.mp h
  cases heq
  split at hcache2
  · exact .inl (cache2_hasPlan hcache2)
  · cases hcache2
    exact .inr rfl

theorem makeHeader_planned {result : Option Str} {again : Bool × Str} {ok : Bool} {out : HeaderText}
    (h : c.makeHeader db result again = some (ok, out, c')) : c'.HasPlan ∨ c' = c := by
  unfold Connection.makeHeader at h
  split at h
  · cases h
    exact .inr rfl
  · split at h
    · cases h
      exact .inl (.of_not_match (isMatch_liberated db { c with rewrited := true }))
    · split at h
      · cases h
        exact .inr rfl
      · split at h
        · cases h
          exact .inr rfl
        · exact readMissed_planned h

/-- A header without a length leaves a miss without a plan; any other miss has one. -/
theorem readHeader_planned {header : Str} {again : Bool × Str} {ok : Bool} {out : HeaderText}
    (hknown : c.PlansKnown) (h : c.readHeader db (true, header) again = some (ok, out, c')) :
    c'.HasPlan ∨ (getOnlyContentLength header < 0 ∧ out = .server header) := by
  unfold Connection.readHeader at h
  split at h
  · obtain ⟨⟨stop, c₁⟩, hunknown, h⟩ := Option.bind_eq_some_iff.mp h
    dsimp only at h
    obtain ⟨c₂, -, hunknown⟩ := Option.bind_eq_some_iff.mp hunknown
    dsimp only at hunknown
    split at hunknown
    · next hnone =>
      cases hunknown
      rw [if_pos rfl] at h
      cases h
      exact .inr ⟨hnone, rfl⟩
    · obtain ⟨c₃, hcache2, heq⟩ := Option.map_eq_some_iff.mp hunknown
      cases heq
      rw [if_neg Bool.false_ne_true] at h
      refine .inl ?_
      rcases makeHeader_planned h with hplan | rfl
      · exact hplan
      · exact cache2_hasPlan hcache2
  · next hother =>
    refine .inl ?_
    rcases makeHeader_planned h with hplan | rfl
    · exact hplan
    · intro hmatch hhit
      refine hknown hmatch hhit fun hsize => hother ⟨hsize, hmatch, ?_⟩
      rw [hhit]
      exact Bool.false_ne_true

end Plan

/-! ## The header is sent -/

section Sent

variable {db : Db} {c c' : Connection}

/-- The members that the header of a response leaves alone. -/
structure Connection.SameMode (c c' : Connection) : Prop where
  passouheader : c'.passouheader = c.passouheader
  miss2hit : c'.miss2hit = c.miss2hit
  rewrited : c'.rewrited = c.rewrited

theorem Connection.SameMode.refl (c : Connection) : c.SameMode c := ⟨rfl, rfl, rfl⟩

theorem Connection.SameMode.trans {c'' : Connection} (h : c.SameMode c') (h' : c'.SameMode c'') :
    c.SameMode c'' :=
  ⟨h'.passouheader.trans h.passouheader, h'.miss2hit.trans h.miss2hit, h'.rewrited.trans h.rewrited⟩

theorem cache2_mode {cl : Int} (h : c.cache2 db cl = some c') : c.SameMode c' := by
  obtain ⟨total, -, rfl⟩ := Option.map_eq_some_iff.mp h
  have hresize : ∀ c : Connection, c.SameMode (c.resize db cl total) := by
    intro c
    unfold Connection.resize
    dsimp only
    split_ifs <;> exact ⟨rfl, rfl, rfl⟩
  have htop : ∀ c : Connection, c.SameMode (c.moveTop total) := by
    intro c
    unfold Connection.moveTop
    split <;> exact ⟨rfl, rfl, rfl⟩
  have hreplan : ∀ c : Connection, c.SameMode (c.replan db) := by
    intro c
    unfold Connection.replan
    dsimp only
    split_ifs <;> exact ⟨rfl, rfl, rfl⟩
  have hsized : c.SameMode (if c.Resizes then c.resize db cl total else c) := by
    split
    · exact hresize c
    · exact .refl c
  have hmoved := hsized.trans (htop _)
  have hneto : c.SameMode { (if c.Resizes then c.resize db cl total else c).moveTop total with
      filesizeneto := cl } := { hmoved with }
  exact hneto.trans (hreplan _)

/-- Only the header `304` that a hit makes changes them. -/
theorem makeHeader_mode {result : Option Str} {again : Bool × Str} {ok : Bool} {out : HeaderText}
    (h : c.makeHeader db result again = some (ok, out, c')) :
    c.SameMode c' ∨ (out = .notModified ∧ c'.hit = false ∧ c'.passouheader = c.passouheader) := by
  unfold Connection.makeHeader at h
  split_ifs at h
  · cases h
    exact .inl (.refl c)
  · cases h
    refine .inr ⟨rfl, ?_, rfl⟩
    exact liberateEdition_hit db ({ c with rewrited := true }.giveUp).toTransfer
  · cases h
    exact .inl (.refl c)
  · split at h
    · cases h
      exact .inl (.refl c)
    · obtain ⟨c₁, hcache2, heq⟩ := Option.map_eq_some_iff.mp h
      cases heq
      split at hcache2
      · exact .inl (cache2_mode hcache2)
      · cases hcache2
        exact .inl (.refl c)

theorem readUnknown_mode {read : Bool × Str} {stop : Bool}
    (h : c.readUnknown db read = some (stop, c')) : c.SameMode c' := by
  obtain ⟨c₂, hsized, h⟩ := Option.bind_eq_some_iff.mp h
  have hsame : c.SameMode c₂ := by
    split at hsized
    · obtain ⟨c₃, hpartly, rfl⟩ := Option.map_eq_some_iff.mp hsized
      have hupdate : c.SameMode c₃ := by
        unfold Connection.updateFileSizeinPartial at hpartly
        split at hpartly
        · cases hpartly
        · split at hpartly <;> cases hpartly <;> exact ⟨rfl, rfl, rfl⟩
      split
      · exact hupdate.trans ⟨rfl, rfl, rfl⟩
      · exact hupdate
    · cases hsized
      exact .refl c
  dsimp only at h
  split at h
  · cases h
    exact hsame
  · obtain ⟨c₃, hcache2, heq⟩ := Option.map_eq_some_iff.mp h
    cases heq
    exact hsame.trans (cache2_mode hcache2)

theorem readHeader_mode {read again : Bool × Str} {ok : Bool} {out : HeaderText}
    (h : c.readHeader db read again = some (ok, out, c')) :
    c.SameMode c' ∨ (out = .notModified ∧ c'.hit = false ∧ c'.passouheader = c.passouheader) := by
  unfold Connection.readHeader at h
  split at h
  · obtain ⟨⟨stop, c₁⟩, hunknown, h⟩ := Option.bind_eq_some_iff.mp h
    have hread := readUnknown_mode hunknown
    dsimp only at h
    split at h
    · cases h
      exact .inl hread
    · rcases makeHeader_mode h with hsame | ⟨hout, hhit, hsent⟩
      · exact .inl (hread.trans hsame)
      · exact .inr ⟨hout, hhit, hsent.trans hread.passouheader⟩
  · exact makeHeader_mode h

theorem readHeader_sent {read again : Bool × Str} {ok : Bool} {out : HeaderText}
    (h : c.readHeader db read again = some (ok, out, c')) : c'.passouheader = c.passouheader := by
  rcases readHeader_mode h with hsame | ⟨-, -, hsent⟩
  · exact hsame.passouheader
  · exact hsent

variable {e : Exchange} {p p' : Proxy}

/-- What is sent changes little of the connection. -/
theorem contact_toServer (h : e.contact p = .goesOn p') :
    p'.ServerConnected = true ∧
      ∃ etag, p'.ToServer = { p.ToServer with passouheader := true, etag } := by
  have hsend : ∃ etag, (e.sendHeader p.ToServer).2 = { p.ToServer with passouheader := true, etag } := by
    unfold Exchange.sendHeader
    dsimp only
    split <;> exact ⟨_, rfl⟩
  unfold Exchange.contact at h
  dsimp only at h
  split at h
  · cases h
  · split at h
    · cases h
    · split at h
      · split at h <;> cases h
        exact ⟨rfl, hsend⟩
      · cases h
        exact ⟨rfl, hsend⟩

theorem respond_sent {contentLengthReference : Int}
    (h : e.respond p = some (.ok (contentLengthReference, p'))) :
    p'.ToServer.passouheader = p.ToServer.passouheader := by
  obtain ⟨⟨ok, header, c⟩, hread, hok⟩ := Option.map_eq_some_iff.mp h
  have hanalysed : (c.analyseHeader e.analysed header).passouheader = c.passouheader := by
    unfold Connection.analyseHeader
    split <;> rfl
  have hlength : ∀ c : Connection, (c.getContentLength e.db e.config).2.passouheader =
      c.passouheader := by
    intro c
    unfold Connection.getContentLength
    split_ifs <;> rfl
  have hsame := (hlength _).trans (hanalysed.trans (readHeader_sent hread))
  dsimp only at hok
  split at hok
  · cases hok
  · split at hok <;> cases hok
    dsimp only
    split <;> exact hsame

theorem readBodyPart_sent {w w' : Wire} {n : Int} {b : Str}
    (h : e.readBodyPart w = some (n, b, w')) :
    w'.ToServer.passouheader = w.ToServer.passouheader := by
  have hidentify : ∀ (c : Connection) (first second : Str),
      (e.identify c first second).passouheader = c.passouheader := by
    intro c first second
    have hname : ∀ (c : Connection) (name : Str) (found : Option Str),
        (e.writeName name found c).2.passouheader = c.passouheader := by
      intro c name found
      unfold Exchange.writeName
      split <;> rfl
    unfold Exchange.identify
    dsimp only
    split
    · rfl
    · split
      · rfl
      · split
        · exact hname _ _ _
        · exact hname _ _ _
  unfold Exchange.readBodyPart at h
  dsimp only at h
  split at h
  · cases h
    rfl
  · split at h
    · obtain ⟨part, -, heq⟩ := Option.map_eq_some_iff.mp h
      cases heq
      rfl
    · split at h
      · cases h
        rfl
      · split at h
        · obtain ⟨c, hcollect, heq⟩ := Option.map_eq_some_iff.mp h
          cases heq
          unfold Exchange.collect at hcollect
          dsimp only at hcollect
          split at hcollect
          · split at hcollect <;> cases hcollect
            · rfl
            · exact hidentify _ _ _
          · cases hcollect
            rfl
        · split at h
          · obtain ⟨part, -, heq⟩ := Option.map_eq_some_iff.mp h
            cases heq
            rfl
          · cases h
            rfl

theorem deliver_sent {contentLengthReference answer : Int}
    (h : e.deliver contentLengthReference p = some (answer, p')) :
    p'.ToServer.passouheader = p.ToServer.passouheader := by
  have hresponse : (p.ToServer.getResponse e.db).2.passouheader = p.ToServer.passouheader := by
    unfold Connection.getResponse
    split_ifs <;> rfl
  unfold Exchange.deliver at h
  dsimp only at h
  split at h
  · unfold Exchange.finish at h
    split at h <;> cases h <;> exact hresponse
  · obtain ⟨⟨n, y⟩, hrelay, heq⟩ := Option.map_eq_some_iff.mp h
    cases heq
    have hupdate : ∀ w : Wire, w.ToServer.passouheader = p.ToServer.passouheader →
        (e.update w).ToServer.passouheader = p.ToServer.passouheader := fun w hw => hw
    have hread : ∀ (w : Wire) (n : Int) (b : Str) (w' : Wire),
        w.ToServer.passouheader = p.ToServer.passouheader → e.readBodyPart w = some (n, b, w') →
        w'.ToServer.passouheader = p.ToServer.passouheader :=
      fun w n b w' hw hread => (readBodyPart_sent hread).trans hw
    exact relay_invariant hread hupdate hresponse hrelay

/-- A server connection that is used again has sent a header. -/
def Proxy.HasSent (p : Proxy) : Prop := p.ServerConnected = true → p.ToServer.passouheader = true

theorem communicate_sent (h : e.communicate p = some (0, p')) : p'.ToServer.passouheader = true := by
  cases Exchange.ends_of_communicate h with
  | vet vet => exact absurd (vet_answer vet) (by decide)
  | contact vet lookUp contact => exact absurd rfl (contact_answer contact)
  | respond vet lookUp contact respond => exact absurd rfl (respond_answer respond)
  | deliver vet lookUp contact respond deliver =>
    obtain ⟨-, etag, hsent⟩ := contact_toServer contact
    rw [deliver_sent deliver, respond_sent respond, hsent]

/-- A step of the loop. -/
def LoopStep (x y : Proxy × Bool) : Prop := ∃ e : Exchange, Proxy.Next e x y

theorem hasSent_run {dropBrowser : Bool} {x : Proxy × Bool}
    (hrun : Run LoopStep ({ Proxy.new with DropBrowser := dropBrowser }, false) x) :
    x.1.HasSent := by
  refine run_invariant (P := fun x => x.1.HasSent) ?_ hrun nofun
  rintro x y - ⟨e, hstep⟩
  cases hstep with
  | again answer fits call repeats => exact nofun
  | @request p p' retry dropBrowser fits call keeps =>
    intro hconnected
    have hsent := communicate_sent call
    dsimp only at hconnected ⊢
    unfold Exchange.settle at hconnected ⊢
    split at hconnected
    · cases hconnected
    · next hkept =>
      rw [if_neg hkept]
      exact hsent

end Sent

/-! ## Calls -/

section Call

variable {e : Exchange} {p : Proxy}

/-- When the body of a miss is read in the call, there is a plan for it. -/
def Exchange.PlansMiss (e : Exchange) (p : Proxy) : Prop :=
  ∀ admitted ∈ e.admitted p, ∀ out ∈ e.responded admitted,
    (out.2.ToServer.getResponse e.db).2.HasPlan

theorem admitted_size {admitted : Proxy} (h : e.admitted p = some admitted) :
    admitted.ToServer.size_orig_file = 0 ∧ (p.HasSent → admitted.HasSent) := by
  obtain ⟨part, hvet, hgoes⟩ := Option.bind_eq_some_iff.mp h
  obtain ⟨limits, -, rfl⟩ := Option.map_eq_some_iff.mp hvet
  split at hgoes
  · cases hgoes
  · cases hgoes
    unfold Exchange.changeHost
    split
    · exact ⟨rfl, fun _ => nofun⟩
    · exact ⟨rfl, id⟩

/-- The request is looked up when it is sent; the cache file is closed by then, unless there is no
server connection. -/
theorem asking_toServer (hsent : p.HasSent) :
    ∃ isOpen connected operation,
      e.asking p = some { p.ToServer with isOpen, connected, operation } ∧
      (isOpen = false ∨ (p.ServerConnected = false ∧ isOpen = p.ToServer.isOpen)) := by
  unfold Exchange.asking
  cases hconnected : p.ServerConnected with
  | true =>
    rw [if_neg (by simp), if_pos (hsent hconnected)]
    exact ⟨false, _, _, rfl, .inl rfl⟩
  | false =>
    rw [if_pos (by simp)]
    unfold Exchange.openDatabase
    split
    · exact ⟨_, _, _, rfl, .inr ⟨rfl, rfl⟩⟩
    · split
      · exact ⟨_, _, _, rfl, .inr ⟨rfl, rfl⟩⟩
      · exact ⟨_, _, _, rfl, .inl rfl⟩

theorem lookUp_plansKnown {p' : Proxy} (hsize : p.ToServer.size_orig_file = 0) (hsent : p.HasSent)
    (h : e.lookUp p = some p') : p'.ToServer.PlansKnown := by
  obtain ⟨isOpen, connected, operation, hask, -⟩ := asking_toServer (e := e) hsent
  unfold Exchange.lookUp at h
  rw [hask] at h
  obtain ⟨c, hcache, rfl⟩ := Option.map_eq_some_iff.mp h
  refine cache_plansKnown ?_ hcache
  exact hsize

theorem contact_plansKnown {p' : Proxy} (hknown : p.ToServer.PlansKnown)
    (h : e.contact p = .goesOn p') : p'.ToServer.PlansKnown := by
  obtain ⟨-, etag, hsent⟩ := contact_toServer h
  rw [hsent]
  exact hknown

/-- A response without a length is not cached. -/
theorem getContentLength_unsized {config : Str → Int} {c : Connection}
    (hconfig : ∀ name, 0 ≤ config name) (hlength : c.ContentLength < 0) :
    (c.getContentLength e.db config).2.HasPlan := by
  unfold Connection.getContentLength
  split
  · next hhit =>
    intro _ hmiss
    rw [hhit] at hmiss
    cases hmiss
  · split
    · exact .of_not_match (congrArg Resposta.isMatch (liberateEdition_r e.db
        ({ c with r := { c.r with isMatch := false } } : Connection).toTransfer))
    · next hbounds =>
      intro hmatch
      refine absurd ⟨hmatch, .inl (.inl ?_)⟩ hbounds
      exact lt_of_lt_of_le hlength (hconfig _)

theorem getContentLength_hasPlan {c : Connection} (hplan : c.HasPlan) :
    (c.getContentLength e.db e.config).2.HasPlan := by
  unfold Connection.getContentLength
  split
  · exact hplan
  · split
    · exact .of_not_match (congrArg Resposta.isMatch (liberateEdition_r e.db
        ({ c with r := { c.r with isMatch := false } } : Connection).toTransfer))
    · exact hplan

theorem respond_hasPlan {header : Str} {contentLengthReference : Int} {p' : Proxy}
    (hknown : p.ToServer.PlansKnown) (hread : e.read = (true, header))
    (hagree : LengthsAgree header e.analysed.ContentLength) (hconfig : ∀ name, 0 ≤ e.config name)
    (h : e.respond p = some (.ok (contentLengthReference, p'))) : p'.ToServer.HasPlan := by
  obtain ⟨⟨ok, out, c⟩, hheader, hok⟩ := Option.map_eq_some_iff.mp h
  rw [hread] at hheader
  have hplan : ((c.analyseHeader e.analysed out).getContentLength e.db e.config).2.HasPlan := by
    rcases readHeader_planned hknown hheader with hplan | ⟨hnone, rfl⟩
    · refine getContentLength_hasPlan ?_
      unfold Connection.analyseHeader
      split <;> exact hplan
    · refine getContentLength_unsized hconfig ?_
      by_contra hlength
      have hsame := (hagree _ (Int.not_lt.mp hlength)).mpr rfl
      exact hlength (hsame ▸ hnone)
  dsimp only at hok
  split at hok
  · cases hok
  · split at hok <;> cases hok
    dsimp only
    split <;> exact hplan

/-- The states that a call goes through up to the body of the response. -/
theorem responded_cases {admitted : Proxy} {out : Int × Proxy}
    (h : out ∈ e.responded admitted) :
    ∃ p₂ p₃, e.lookUp admitted = some p₂ ∧ e.contact p₂ = .goesOn p₃ ∧
      e.respond p₃ = some (.ok (out.1, out.2)) := by
  obtain ⟨p₃, hsent, hrespond⟩ := Option.bind_eq_some_iff.mp h
  obtain ⟨part, hcontact, hgoes⟩ := Option.bind_eq_some_iff.mp hsent
  obtain ⟨p₂, hlookUp, rfl⟩ := Option.map_eq_some_iff.mp hcontact
  obtain ⟨result, hrespond, hok⟩ := Option.bind_eq_some_iff.mp hrespond
  refine ⟨p₂, p₃, hlookUp, ?_, ?_⟩
  · generalize e.contact p₂ = part at hgoes
    cases part with
    | answers answer p' => cases hgoes
    | goesOn p' => rw [Option.some.inj hgoes]
  · rw [hrespond]
    cases result with
    | error out' => cases hok
    | ok out' => rw [Option.some.inj hok]

theorem plansMiss_of_agree {header : Str} (hsent : p.HasSent) (hread : e.read = (true, header))
    (hagree : LengthsAgree header e.analysed.ContentLength) (hconfig : ∀ name, 0 ≤ e.config name) :
    e.PlansMiss p := by
  intro admitted hadmitted out hresponded
  obtain ⟨hsize, hkeeps⟩ := admitted_size hadmitted
  obtain ⟨p₂, p₃, hlookUp, hcontact, hrespond⟩ := responded_cases hresponded
  have hknown := lookUp_plansKnown hsize (hkeeps hsent) hlookUp
  have hplan := respond_hasPlan (contact_plansKnown hknown hcontact) hread hagree hconfig hrespond
  intro hmatch
  obtain ⟨hresponse, -⟩ := getResponse_uses e.db _ hmatch
  rw [hresponse] at hmatch ⊢
  exact hplan hmatch

end Call

/-- **The two readers of the length agree**, and then every miss whose body is read has a plan, if and
only if the header has the same length for both. -/
theorem lengths_agree_iff {header : Str} {a a' : ConnectionToHTTP}
    (h : ConnectionToHTTP.analyseHeader header a.clearVars = (0, a')) :
    (LengthsAgree header a'.ContentLength ∧ ∀ (dropBrowser : Bool) (x : Proxy × Bool) (e : Exchange),
      Run LoopStep ({ Proxy.new with DropBrowser := dropBrowser }, false) x →
      e.read = (true, header) → e.analysed = a'.toAnalysed → (∀ name, 0 ≤ e.config name) →
      e.PlansMiss x.1) ↔ SameLength header := by
  have hiff := readers_agree_iff h (Int.le_refl 0)
  constructor
  · exact fun hclaim => hiff.mp hclaim.1
  · intro hsame
    have hagree := hiff.mpr hsame
    refine ⟨hagree, fun dropBrowser x e hrun hread hanalysed hconfig => ?_⟩
    refine plansMiss_of_agree (hasSent_run hrun) hread ?_ hconfig
    rw [hanalysed]
    exact hagree

/-- `HTTP/1.1 200 OK` -/
def statusLine : Str :=
  ['H', 'T', 'T', 'P', '/', '1', '.', '1', ' ', '2', '0', '0', ' ', 'O', 'K']

/-- A header with the text `value` behind `Content-Length:`. -/
def lengthHeader (value : Str) : Str :=
  statusLine ++ ['\r', '\n'] ++ contentLength ++ value ++ ['\r', '\n']

/-- What `AnalyseHeader` reads of a header with the length `n`. -/
def lengthRead (n : Nat) (value : Str) : ConnectionToHTTP :=
  ⟨⟨200, n, false, false⟩, false, [statusLine, contentLength ++ value]⟩

theorem lengths_agree_two :
    LengthsAgree (lengthHeader [' ', '2']) 2 ∧
      { twoBytesExchange with
        read := (true, lengthHeader [' ', '2'])
        analysed := (lengthRead 2 [' ', '2']).toAnalysed : Exchange }.PlansMiss Proxy.new := by
  have hread : ConnectionToHTTP.analyseHeader (lengthHeader [' ', '2']) (lengthRead 0 []).clearVars =
      (0, lengthRead 2 [' ', '2']) := by decide +kernel
  have hsame : SameLength (lengthHeader [' ', '2']) := by
    refine .inl ⟨isForCache_iff.mp (by decide), ['2'], getValuesHeader_iff.mp (by decide), ?_⟩
    refine ⟨[], contentLength ++ [' ', '2'], [], by decide, ?_, nofun⟩
    exact ⟨contentLength.dropLast, [' '], ['2'], [], by decide, by decide, by simp,
      List.all_eq_true.mp rfl, by decide, by decide, nofun, by decide⟩
  obtain ⟨hagree, hplans⟩ := (lengths_agree_iff hread).mpr hsame
  exact ⟨hagree, hplans false _ _ .refl rfl rfl fun _ => Int.le_refl 0⟩

/-- Behind two blanks only `AnalyseHeader` reads the length, and the body is read without a plan. -/
theorem lengths_differ :
    ∃ a a' : ConnectionToHTTP,
      ConnectionToHTTP.analyseHeader (lengthHeader [' ', ' ', '5']) a.clearVars = (0, a') ∧
      ¬ LengthsAgree (lengthHeader [' ', ' ', '5']) a'.ContentLength ∧
      ¬ { twoBytesExchange with
          read := (true, lengthHeader [' ', ' ', '5']), analysed := a'.toAnalysed : Exchange
        }.PlansMiss Proxy.new := by
  refine ⟨lengthRead 0 [], lengthRead 5 [' ', '5'], by decide +kernel, ?_, ?_⟩
  · intro hagree
    have hnone : getOnlyContentLength (lengthHeader [' ', ' ', '5']) = -1 := by decide
    have hsame := (hagree 5 (by decide)).mpr rfl
    omega
  · unfold Exchange.PlansMiss Connection.HasPlan
    decide +kernel

end Haarp
