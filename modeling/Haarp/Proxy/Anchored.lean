import Haarp.Cache.Offset
import Haarp.Proxy.Planned

/-!
# The first byte of a plan

`Cache` and `Cache2` plan a request from the first byte that the browser or the plugin asks for
(`Connection.Anchored`), and no header of the server moves it. `offsets_right_iff`: a response is
stored where its bytes belong exactly when it starts at this byte.
-/

namespace Haarp

open Base

/-- A connection before the body of a response: its plan, if it has one, starts at byte `first`. -/
structure Connection.Anchored (first : Int) (c : Connection) : Prop where
  range_min : c.range_min = first
  passed : c.passed = []
  acumulate : c.acumulate = 0
  miss2hit : c.miss2hit = false
  isOpen : c.isOpen = false
  filesended : c.filesended = 0
  plan : c.brange = [] ∨ ∃ l top, c.lranges.Perm l ∧ (c.brange, c.hit) = getRangeWork l first top

section Anchor

variable {db : Db} {c c' : Connection} {first : Int}

/-- The request is planned from byte `first`. -/
theorem Connection.Anchored.planned (h : c.Anchored first) : c.plan.Anchored first := by
  refine { h with passed := rfl, plan := .inr ⟨c.lranges, c.range_max, sortIntervals_perm _, ?_⟩ }
  rw [← h.range_min]
  rfl

/-- A connection that uses the entry has such a plan. -/
def Connection.AnchorsAt (first : Int) (c : Connection) : Prop :=
  c.r.isMatch = true → c.Anchored first

theorem Connection.AnchorsAt.of_not_match (h : c.r.isMatch = false) : c.AnchorsAt first := by
  intro hmatch
  rw [h] at hmatch
  cases hmatch

/-! ## Cache -/

theorem lockRow_eq (db : Db) (t : Transfer) :
    ∃ r log operation, (lockRow db t).2 = { t with r, log, operation } := by
  unfold lockRow
  dsimp only
  split <;> exact ⟨_, _, _, rfl⟩

theorem lockFound_eq (db : Db) (singleDomain : Bool) (found : Option (Option LockRow))
    (t : Transfer) :
    ∃ r log operation, (lockFound db singleDomain found t).2 = { t with r, log, operation } := by
  unfold lockFound
  split
  · exact ⟨_, _, _, rfl⟩
  · split
    · exact ⟨_, _, _, rfl⟩
    · dsimp only
      split <;> exact ⟨_, _, _, rfl⟩
  · next row =>
    obtain ⟨r, hr⟩ : ∃ r, (if singleDomain then { t with r := { t.r with file := row.file } } else t) =
        { t with r } := by
      split <;> exact ⟨_, rfl⟩
    dsimp only
    rw [hr]
    obtain ⟨r', log, operation, hlock⟩ := lockRow_eq db { t with r }
    split
    · exact ⟨r', log, operation, hlock⟩
    · split
      · exact ⟨_, _, _, rfl⟩
      · exact ⟨_, _, _, rfl⟩
      · exact ⟨r', log, operation, hlock⟩

/-- `lockFile` changes nothing but the name of the file, and what the database is told. -/
theorem lockFile_eq {singleDomain : Bool} {found : Option (Option LockRow)} {lfile : Int}
    {t t' : Transfer} (h : lockFile db singleDomain found t = some (lfile, t')) :
    ∃ r log operation, t' = { t with r, log, operation } := by
  unfold lockFile at h
  dsimp only at h
  split at h
  · cases h
    exact ⟨_, _, _, rfl⟩
  · split at h
    · cases h
    · split at h
      · obtain ⟨r, log, operation, hfound⟩ := lockFound_eq db singleDomain found
          { (t.set db .startTransaction).2 with operation := some .select }
        rw [Option.some.inj h] at hfound
        exact ⟨r, log, operation, hfound⟩
      · cases h
        exact ⟨_, _, _, rfl⟩

theorem fileMissing_anchored {disco_con_espacio : Bool} (h : c.Anchored first) (hbrange : c.brange = []) :
    (c.fileMissing db disco_con_espacio).AnchorsAt first := by
  have hreset : ∀ c : Connection, c.Anchored first → (c.resetRow db).AnchorsAt first := by
    intro c h
    unfold Connection.resetRow
    split
    · dsimp only
      split
      · exact fun _ => { h with }
      · exact .of_not_match rfl
    · exact fun _ => h
  have hnone : { c with lranges := [] : Connection }.Anchored first := { h with plan := .inl hbrange }
  unfold Connection.fileMissing
  dsimp only
  split
  · split
    · exact hreset _ hnone.planned
    · exact hreset _ hnone
  · exact .of_not_match rfl

theorem sizeKnown_anchored (h : c.Anchored first) (hknown : c.sizeKnown = some c') :
    c'.Anchored first := by
  obtain ⟨c₁, htop, hplan⟩ := Option.bind_eq_some_iff.mp hknown
  obtain ⟨filesizeneto, -, rfl⟩ := Option.map_eq_some_iff.mp hplan
  have hchange : c.changeTop.Anchored first := by
    unfold Connection.changeTop
    split
    · exact { h with }
    · exact h
  have htruncate : c₁.Anchored first := by
    obtain ⟨least, -, htop⟩ := Option.bind_eq_some_iff.mp htop
    split at htop
    · obtain ⟨top, -, rfl⟩ := Option.map_eq_some_iff.mp htop
      split
      · exact { hchange with }
      · exact hchange
    · cases htop
      exact hchange
  exact Connection.Anchored.planned { htruncate with }

theorem fileStored_anchored {row : SelectedRow} (h : c.Anchored first) (hbrange : c.brange = [])
    (hstored : c.fileStored db row = some c') : c'.AnchorsAt first := by
  unfold Connection.fileStored at hstored
  dsimp only at hstored
  split at hstored
  · cases hstored
    exact .of_not_match (isMatch_liberated db _)
  · obtain ⟨c₁, hplanned, rfl⟩ := Option.map_eq_some_iff.mp hstored
    have hlearned : ∀ c : Connection, c.Anchored first ∧ c.brange = [] →
        (c.learnSize db).Anchored first ∧ (c.learnSize db).brange = [] := by
      rintro c ⟨h, hbrange⟩
      unfold Connection.learnSize
      split
      · exact ⟨{ h with }, hbrange⟩
      · exact ⟨h, hbrange⟩
    have hloaded : ∀ c : Connection, c.Anchored first ∧ c.brange = [] →
        (c.loadRanges db row).Anchored first ∧ (c.loadRanges db row).brange = [] := by
      rintro c ⟨h, hbrange⟩
      unfold Connection.loadRanges
      split
      · exact ⟨{ h with plan := .inl hbrange }, hbrange⟩
      · exact ⟨{ h with plan := .inl hbrange }, hbrange⟩
    obtain ⟨hready, hbrange'⟩ := hloaded _ (hlearned { c with size_orig_file := row.size }
      ⟨{ h with }, hbrange⟩)
    have hanchored : c₁.Anchored first := by
      unfold Connection.planStored at hplanned
      split at hplanned
      · exact sizeKnown_anchored hready hplanned
      · cases hplanned
        unfold Connection.sizeUnknown
        split
        · exact hready.planned
        · exact { hready with plan := .inl hbrange' }
    intro _
    split
    · exact { hanchored with }
    · exact hanchored

theorem useEntry_anchored {asked : Asked} (h : c.Anchored first) (hbrange : c.brange = [])
    (huse : c.useEntry db asked = some c') : c'.AnchorsAt first := by
  unfold Connection.useEntry at huse
  dsimp only at huse
  split at huse
  · cases huse
    exact .of_not_match rfl
  · obtain ⟨c₁, hsized, huse⟩ := Option.bind_eq_some_iff.mp huse
    have h₁ : c₁.Anchored first ∧ c₁.brange = [] := by
      split at hsized
      · obtain ⟨filesizeneto, -, rfl⟩ := Option.map_eq_some_iff.mp hsized
        exact ⟨{ h with }, hbrange⟩
      · cases hsized
        exact ⟨{ h with }, hbrange⟩
    split at huse
    · cases huse
      exact .of_not_match rfl
    · split at huse
      · cases huse
        exact fileMissing_anchored h₁.1 h₁.2
      · unfold Connection.fileFound at huse
        dsimp only at huse
        split at huse
        · cases huse
          exact .of_not_match (isMatch_liberated db _)
        · cases huse
          exact .of_not_match (isMatch_liberated db _)
        · exact fileStored_anchored (c := { c₁ with operation := some .select }) { h₁.1 with } h₁.2 huse

/-- A connection that has nothing of a body. -/
structure Connection.Unsent (c : Connection) : Prop where
  acumulate : c.acumulate = 0
  isOpen : c.isOpen = false
  filesended : c.filesended = 0

/-- `Cache` plans from the first byte that is asked for. -/
theorem cache_anchored {asked : Asked} {r : Resposta} (hunsent : c.Unsent)
    (hplugin : asked.plugin = some r) (h : c.cache db asked = some c') :
    c'.AnchorsAt (chooseRange r c.toLimits).2.range_min := by
  have hask : (c.ask asked).Anchored (chooseRange r c.toLimits).2.range_min ∧
      (c.ask asked).brange = [] := by
    simp only [Connection.ask, hplugin]
    exact ⟨⟨rfl, rfl, hunsent.acumulate, rfl, hunsent.isOpen, hunsent.filesended, .inl rfl⟩, rfl⟩
  cases cache_cases h with
  | unasked unmatched result =>
    rw [result]
    exact .of_not_match unmatched
  | refused matched locked notTaken result =>
    rw [result]
    exact .of_not_match rfl
  | used matched locked taken uses =>
    obtain ⟨r', log, operation, rfl⟩ := lockFile_eq locked
    refine useEntry_anchored ?_ ?_ uses
    · exact { hask.1 with }
    · exact hask.2

/-! ## The header of the response -/

theorem cache2_anchored {cl : Int} (h : c.Anchored first) (hcache2 : c.cache2 db cl = some c') :
    c'.Anchored first := by
  obtain ⟨total, -, rfl⟩ := Option.map_eq_some_iff.mp hcache2
  have hresize : (c.resize db cl total).Anchored first := by
    have hset : ∀ c : Connection, c.Anchored first →
        Connection.Anchored first (Connection.set db { c with size_orig_file := total }
          (.setSize c.r.key total)).2 := fun c h => { h with }
    unfold Connection.resize
    dsimp only
    apply hset
    split <;> split
    · exact { h with passed := rfl, plan := .inl rfl }
    · exact { h with passed := rfl, plan := .inl rfl }
    · exact { h with passed := rfl, plan := .inl rfl }
    · exact h
  have hmove : ∀ c : Connection, c.Anchored first → (c.moveTop total).Anchored first := by
    intro c h
    unfold Connection.moveTop
    split
    · exact { h with passed := rfl, plan := .inl rfl }
    · exact h
  have hreplan : ∀ c : Connection, c.Anchored first → (c.replan db).Anchored first := by
    intro c h
    unfold Connection.replan
    split
    · dsimp only
      split
      · exact { h.planned with }
      · exact h.planned
    · exact h
  have hsized : (if c.Resizes then c.resize db cl total else c).Anchored first := by
    split
    · exact hresize
    · exact h
  exact hreplan _ { hmove _ hsized with }

theorem makeHeader_anchored {result : Option Str} {again : Bool × Str} {ok : Bool} {out : HeaderText}
    (h : c.AnchorsAt first) (hmake : c.makeHeader db result again = some (ok, out, c')) :
    c'.AnchorsAt first := by
  unfold Connection.makeHeader at hmake
  split at hmake
  · cases hmake
    exact h
  · split at hmake
    · cases hmake
      exact .of_not_match (isMatch_liberated db { c with rewrited := true })
    · split at hmake
      · cases hmake
        exact h
      · split at hmake
        · cases hmake
          exact h
        · obtain ⟨c₁, hcache2, heq⟩ := Option.map_eq_some_iff.mp hmake
          cases heq
          split at hcache2
          · intro hmatch
            rw [(cache2_same hcache2).r] at hmatch
            exact cache2_anchored (h hmatch) hcache2
          · cases hcache2
            exact h

theorem readHeader_anchored {read again : Bool × Str} {ok : Bool} {out : HeaderText}
    (h : c.AnchorsAt first) (hread : c.readHeader db read again = some (ok, out, c')) :
    c'.AnchorsAt first := by
  unfold Connection.readHeader at hread
  split at hread
  · next hknown =>
    have h := h hknown.2.1
    obtain ⟨⟨stop, c₁⟩, hunknown, hread⟩ := Option.bind_eq_some_iff.mp hread
    obtain ⟨c₂, hsized, hunknown⟩ := Option.bind_eq_some_iff.mp hunknown
    have h₂ : c₂.Anchored first := by
      split at hsized
      · obtain ⟨c₃, hpartly, rfl⟩ := Option.map_eq_some_iff.mp hsized
        have h₃ : c₃.Anchored first := by
          unfold Connection.updateFileSizeinPartial at hpartly
          split at hpartly
          · cases hpartly
          · split at hpartly
            · cases hpartly
              exact { h with }
            · cases hpartly
              exact h
        split
        · exact { h₃ with }
        · exact h₃
      · cases hsized
        exact h
    have h₁ : c₁.Anchored first := by
      dsimp only at hunknown
      split at hunknown
      · cases hunknown
        exact h₂
      · obtain ⟨c₃, hcache2, heq⟩ := Option.map_eq_some_iff.mp hunknown
        cases heq
        exact cache2_anchored h₂ hcache2
    dsimp only at hread
    split at hread
    · cases hread
      exact fun _ => h₁
    · exact makeHeader_anchored (fun _ => h₁) hread
  · exact makeHeader_anchored h hread

end Anchor

/-! ## Calls -/

section Call

variable {e : Exchange} {p p' : Proxy} {first : Int}

/-- Without a server connection the cache file is closed. -/
def Proxy.Closed (p : Proxy) : Prop := p.ServerConnected = false → p.ToServer.isOpen = false

theorem respond_connected {contentLengthReference : Int}
    (h : e.respond p = some (.ok (contentLengthReference, p'))) :
    p'.ServerConnected = p.ServerConnected := by
  obtain ⟨⟨ok, header, c⟩, -, hok⟩ := Option.map_eq_some_iff.mp h
  dsimp only at hok
  split at hok
  · cases hok
  · split at hok <;> cases hok
    rfl

theorem deliver_connected {contentLengthReference answer : Int}
    (h : e.deliver contentLengthReference p = some (answer, p')) :
    p'.ServerConnected = p.ServerConnected := by
  unfold Exchange.deliver at h
  dsimp only at h
  split at h
  · unfold Exchange.finish at h
    split at h <;> cases h <;> rfl
  · obtain ⟨⟨n, y⟩, -, heq⟩ := Option.map_eq_some_iff.mp h
    cases heq
    rfl

theorem communicate_connected (h : e.communicate p = some (0, p')) : p'.ServerConnected = true := by
  cases Exchange.ends_of_communicate h with
  | vet vet => exact absurd (vet_answer vet) (by decide)
  | contact vet lookUp contact => exact absurd rfl (contact_answer contact)
  | respond vet lookUp contact respond => exact absurd rfl (respond_answer respond)
  | deliver vet lookUp contact respond deliver =>
    rw [deliver_connected deliver, respond_connected respond, (contact_toServer contact).1]

theorem closed_run {dropBrowser : Bool} {x : Proxy × Bool}
    (hrun : Run LoopStep ({ Proxy.new with DropBrowser := dropBrowser }, false) x) :
    x.1.Closed := by
  refine run_invariant (P := fun x => x.1.Closed) ?_ hrun fun _ => rfl
  rintro x y - ⟨e, hstep⟩
  cases hstep with
  | again answer fits call repeats => exact fun _ => rfl
  | @request p p' retry dropBrowser fits call keeps =>
    intro hconnected
    have hsent := communicate_connected call
    dsimp only at hconnected ⊢
    unfold Exchange.settle at hconnected ⊢
    split at hconnected
    · next hdropped =>
      rw [if_pos hdropped]
      rfl
    · rw [hsent] at hconnected
      cases hconnected

theorem admitted_unsent {admitted : Proxy} (h : e.admitted p = some admitted) :
    getLimitBytes e.header = some admitted.ToServer.toLimits ∧ admitted.ToServer.acumulate = 0 ∧
      admitted.ToServer.filesended = 0 ∧ (p.Closed → admitted.Closed) := by
  obtain ⟨part, hvet, hgoes⟩ := Option.bind_eq_some_iff.mp h
  obtain ⟨limits, hlimits, rfl⟩ := Option.map_eq_some_iff.mp hvet
  split at hgoes
  · cases hgoes
  · cases hgoes
    unfold Exchange.changeHost
    split
    · exact ⟨hlimits, rfl, rfl, fun _ _ => rfl⟩
    · exact ⟨hlimits, rfl, rfl, id⟩

/-- The request is looked up: the plan starts at the first byte that is asked for. -/
theorem lookUp_anchored {admitted : Proxy} {r : Resposta} {limits : Limits}
    (hsent : p.HasSent) (hclosed : p.Closed) (hadmitted : e.admitted p = some admitted)
    (hlookUp : e.lookUp admitted = some p') (hplugin : e.asked.plugin = some r)
    (hlimits : requested e.header r = some limits) : p'.ToServer.AnchorsAt limits.range_min := by
  obtain ⟨hread, hacc, hsended, hkeeps⟩ := admitted_unsent hadmitted
  have hfirst : limits = (chooseRange r admitted.ToServer.toLimits).2 := by
    unfold requested at hlimits
    rw [hread] at hlimits
    exact (Option.some.inj hlimits).symm
  obtain ⟨isOpen, connected, operation, hask, hopen⟩ :=
    asking_toServer (e := e) ((admitted_size hadmitted).2 hsent)
  unfold Exchange.lookUp at hlookUp
  rw [hask] at hlookUp
  obtain ⟨c, hcache, rfl⟩ := Option.map_eq_some_iff.mp hlookUp
  rw [hfirst]
  refine cache_anchored (c := { admitted.ToServer with isOpen, connected, operation })
    ⟨hacc, ?_, hsended⟩ hplugin hcache
  rcases hopen with hfalse | ⟨hconnected, hsame⟩
  · exact hfalse
  · exact hsame.trans (hkeeps hclosed hconnected)

/-- The header of the response leaves the plan as it is, or the entry unused. -/
theorem respond_anchored {contentLengthReference : Int} (hp : p.ToServer.AnchorsAt first)
    (h : e.respond p = some (.ok (contentLengthReference, p'))) : p'.ToServer.AnchorsAt first := by
  obtain ⟨⟨ok, header, c⟩, hheader, hok⟩ := Option.map_eq_some_iff.mp h
  have hc : c.AnchorsAt first := readHeader_anchored hp hheader
  have hanalysed : (c.analyseHeader e.analysed header).AnchorsAt first := by
    unfold Connection.analyseHeader
    split <;> exact fun hmatch => { hc hmatch with }
  have hlength :
      ((c.analyseHeader e.analysed header).getContentLength e.db e.config).2.AnchorsAt first := by
    unfold Connection.getContentLength
    split
    · exact hanalysed
    · split
      · exact .of_not_match (congrArg Resposta.isMatch (liberateEdition_r e.db _))
      · exact hanalysed
  dsimp only at hok
  split at hok
  · cases hok
  · split at hok <;> cases hok
    dsimp only
    split
    · exact fun hmatch => { hlength hmatch with }
    · exact hlength

/-- Behind the header of the response, a connection that uses the entry plans from the first byte that
is asked for. -/
theorem responded_anchored {admitted : Proxy} {out : Int × Proxy} {r : Resposta} {limits : Limits}
    (hsent : p.HasSent) (hclosed : p.Closed) (hadmitted : e.admitted p = some admitted)
    (hresponded : out ∈ e.responded admitted) (hplugin : e.asked.plugin = some r)
    (hlimits : requested e.header r = some limits) :
    (out.2.ToServer.getResponse e.db).2.AnchorsAt limits.range_min := by
  obtain ⟨p₂, p₃, hlookUp, hcontact, hrespond⟩ := responded_cases hresponded
  have h₂ := lookUp_anchored hsent hclosed hadmitted hlookUp hplugin hlimits
  -- the request is sent as it was looked up
  have h₃ : p₃.ToServer.AnchorsAt limits.range_min := by
    obtain ⟨-, etag, hsame⟩ := contact_toServer hcontact
    rw [hsame]
    exact fun hmatch => { h₂ hmatch with }
  have h₄ := respond_anchored h₃ hrespond
  intro hmatch
  obtain ⟨hresponse, -⟩ := getResponse_uses e.db _ hmatch
  rw [hresponse] at hmatch ⊢
  exact h₄ hmatch

end Call

/-! ## The body -/

/-- The blocks that a miss records have their bytes in the file, for every resource and every session
whose response starts at byte `start`. -/
def Connection.StoresRight (c : Connection) (start : Int) : Prop :=
  ∀ (R : Int → Char) (file : Str) (y : Running × Str), Holds id R (Placed c.lranges) file →
    Run (Running.Step R start) (c.toTransfer.session c.range_min, file) y → RecordsRight R y

theorem Connection.Anchored.storesRight_iff {c : Connection} {first start : Int}
    (h : c.Anchored first) (hhit : c.hit = false) (hl : WellFormed c.lranges) (h₀ : 0 ≤ first) :
    c.StoresRight start ↔ start = first ∨ ∀ w ∈ c.lrangeswork, w.b < w.a := by
  have hwork : c.lrangeswork = c.brange := by rw [Transfer.lrangeswork, h.passed, List.nil_append]
  have hmin := h.range_min
  subst hmin
  have hfields : ∀ l, c.lranges.Perm l → c.toTransfer.Starts l c.brange := fun l hperm =>
    ⟨hperm, h.passed, rfl, h.acumulate, h.miss2hit, h.isOpen, h.filesended⟩
  rw [hwork]
  rcases h.plan with hnil | ⟨l, top, hperm, hplan⟩
  · exact session_right_iff hl h₀ (.inl hnil) (hfields _ (.refl _)) hhit
  · rw [hhit] at hplan
    rw [← session_right_iff (hl.perm hperm) h₀ (.inr ⟨top, hplan⟩) (hfields l hperm) hhit]
    unfold Connection.StoresRight
    refine forall₃_congr fun R file y => imp_congr_left ?_
    constructor
    · exact fun hholds => hholds.mono fun n p hn => (placed_perm hperm).mpr hn
    · exact fun hholds => hholds.mono fun n p hn => (placed_perm hperm).mp hn

/-- A request for bytes 5 to 9 of a file that is not stored yet, and five bytes. -/
def fiveBytesExchange : Exchange :=
  { twoBytesExchange with
    header := ['G', 'E', 'T', '\r', '\n'] ++ rangeBytes ++ ['5', '-', '9']
    read := (true, lengthHeader [' ', '5']), analysed := ⟨206, 5, true, false⟩
    recv := [some ['a', 'b', 'c', 'd', 'e']] }

/-- The session behind the header of the response. -/
def Exchange.Accepts (e : Exchange) (p : Proxy) (c : Connection) : Prop :=
  ∃ admitted out, e.admitted p = some admitted ∧ out ∈ e.responded admitted ∧
    c = (out.2.ToServer.getResponse e.db).2 ∧ c.r.isMatch = true ∧ c.hit = false

theorem accepts_new (e : Exchange) (plan : LintervalPositionByteDisk)
    (h : ((e.admitted Proxy.new).bind fun admitted => (e.responded admitted).map fun out =>
      let c := (out.2.ToServer.getResponse e.db).2
      decide (c.r.isMatch = true ∧ c.hit = false ∧ c.lranges = [] ∧ c.lrangeswork = plan)) =
        some true) :
    ∃ c, e.Accepts Proxy.new c ∧ c.lranges = [] ∧ c.lrangeswork = plan := by
  obtain ⟨admitted, hadmitted, h⟩ := Option.bind_eq_some_iff.mp h
  obtain ⟨out, hout, h⟩ := Option.map_eq_some_iff.mp h
  obtain ⟨hmatch, hhit, hnil, hplan⟩ := of_decide_eq_true h
  exact ⟨_, ⟨admitted, out, hadmitted, hout, rfl, hmatch, hhit⟩, hnil, hplan⟩

end Haarp
