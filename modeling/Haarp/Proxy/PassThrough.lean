import Haarp.Cache.Declined
import Haarp.Proxy.Release

/-!
# Requests that do not use the cache

`entries_spared`: along any run of the loop, the requests for which `Cache` ends without a match change
nothing that a row records, if and only if none of them has `Cache2` record the size of a file for a
row that exists and has another size (`Exchange.Overwrites`). The key is what an earlier request, the
plugin or `lockFile` has left in `r`.
-/

namespace Haarp

/-- `Cache` is called for a request, and ends without a match. -/
def Exchange.Declines (e : Exchange) (p : Proxy) : Prop :=
  ∃ admitted ∈ e.admitted p, ∃ c ∈ e.asking admitted, ∃ c' ∈ c.cache e.db e.asked,
    c'.r.isMatch = false

instance (e : Exchange) (p : Proxy) : Decidable (e.Declines p) :=
  inferInstanceAs (Decidable (∃ admitted ∈ e.admitted p, ∃ c ∈ e.asking admitted,
    ∃ c' ∈ c.cache e.db e.asked, _ = _))

/-- The connection for which `ReadHeader` is called. -/
def Exchange.headed (e : Exchange) (p : Proxy) : Option Connection :=
  ((e.admitted p).bind e.lookUp).bind fun p => (e.contact p).goes.map Proxy.ToServer

/-- The length of the response that is read. -/
def Exchange.readLength (e : Exchange) : Int := getOnlyContentLength e.read.2

/-- `Cache2` records the size of the file, and there is a row with another size. -/
def Exchange.Overwrites (tables : Log → Table) (e : Exchange) (p : Proxy) : Prop :=
  ∃ c ∈ e.headed p, c.Records e.readLength ∧ e.db c.log (c.sizeStmt e.readLength) = true ∧
    ∃ row ∈ tables c.log c.r.key, row.size ≠ e.readLength + c.range_min

instance (tables : Log → Table) (e : Exchange) (p : Proxy) : Decidable (e.Overwrites tables p) :=
  inferInstanceAs (Decidable (∃ c ∈ e.headed p, c.Records e.readLength ∧ _ = _ ∧
    ∃ row ∈ tables c.log c.r.key, _ ≠ _))

section Call

variable {e : Exchange} {p p' : Proxy} {answer : Int}

/-- What a call keeps for a request that does not use the cache. -/
structure Passing (log : Log) (c : Connection) : Prop where
  adds : Adds log c.log
  isMatch : c.r.isMatch = false

theorem Passing.of_eq {log : Log} {c c' : Connection} (h : Passing log c) (hlog : c'.log = c.log)
    (hr : c'.r = c.r) : Passing log c' :=
  ⟨by rw [hlog]; exact h.adds, by rw [hr]; exact h.isMatch⟩

theorem Passing.set {log : Log} {c : Connection} {s : Stmt} (h : Passing log c)
    (hs : s.keepsEntries = true) (db : Db) : Passing log (c.set db s).2 :=
  ⟨h.adds.trans (set_adds hs db c.toTransfer), h.isMatch⟩

theorem identify_passing {log : Log} {c : Connection} (e : Exchange) (first second : Str)
    (h : Passing log c) : Passing log (e.identify c first second) := by
  have hstart := h.set (s := .startTransaction) rfl e.db
  have hname : ∀ (name : Str) (found : Option Str) (c₁ : Connection), Passing log c₁ →
      Passing log (e.writeName name found c₁).2 := by
    intro name found c₁ h₁
    unfold Exchange.writeName
    split
    · exact h₁.set rfl e.db
    · exact h₁.set rfl e.db
  have hselect : Passing log { (c.set e.db .startTransaction).2 with operation := some .select } :=
    ⟨hstart.adds, hstart.isMatch⟩
  unfold Exchange.identify
  dsimp only
  split
  · exact hstart
  · split
    · exact hselect.set rfl e.db
    · split
      · exact (hname _ _ _ hselect).set rfl e.db
      · exact ((hname _ _ _ hselect).set (s := .commit) rfl e.db).of_eq rfl rfl

theorem collect_passing {log : Log} {c c' : Connection} {bodyT : Str} (h : Passing log c)
    (hcollect : e.collect c bodyT = some c') : Passing log c' := by
  unfold Exchange.collect at hcollect
  dsimp only at hcollect
  split at hcollect
  · split at hcollect <;> cases hcollect
    · exact h.of_eq rfl rfl
    · exact identify_passing e _ _ (h.of_eq rfl rfl)
  · cases hcollect
    exact h.of_eq rfl rfl

theorem readBodyPart_passing {log : Log} {w w' : Wire} {n : Int} {b : Str}
    (h : Passing log w.ToServer) (hread : e.readBodyPart w = some (n, b, w')) :
    Passing log w'.ToServer := by
  unfold Exchange.readBodyPart at hread
  dsimp only at hread
  split at hread
  · cases hread
    exact h
  · split at hread
    · obtain ⟨part, hpart, heq⟩ := Option.map_eq_some_iff.mp hread
      cases heq
      obtain ⟨hadds, hmatch⟩ := readHit_adds h.isMatch hpart
      exact ⟨h.adds.trans hadds, hmatch⟩
    · split at hread
      · cases hread
        exact h
      · split at hread
        · obtain ⟨c, hcollect, heq⟩ := Option.map_eq_some_iff.mp hread
          cases heq
          exact collect_passing h hcollect
        · split at hread
          · next hmatch =>
            rw [h.isMatch] at hmatch
            cases hmatch
          · cases hread
            exact h

theorem update_passing {log : Log} {c : Connection} (db : Db) (h : Passing log c) :
    Passing log (c.update db) :=
  ⟨h.adds.trans (update_adds db h.isMatch).1, (update_adds db h.isMatch).2⟩

theorem closeUpdate_passing {log : Log} (e : Exchange) (h : Passing log p.ToServer) :
    Passing log (e.closeUpdate p).ToServer := by
  have hupdate := update_passing e.db h
  refine ⟨hupdate.adds.trans (liberateEdition_adds e.db (p.ToServer.update e.db).toTransfer), ?_⟩
  exact (congrArg Resposta.isMatch (liberateEdition_r e.db (p.ToServer.update e.db).toTransfer)).trans
    hupdate.isMatch

/-- A connection that does not use the cache has nothing to give up. -/
theorem getResponse_passing {c : Connection} (db : Db) (hmatch : c.r.isMatch = false) :
    (c.getResponse db).2 = c := by
  unfold Connection.getResponse
  split
  · rfl
  · rw [if_neg (by simp [hmatch])]

theorem deliver_passing {log : Log} {contentLengthReference : Int} (h : Passing log p.ToServer)
    (hdeliver : e.deliver contentLengthReference p = some (answer, p')) :
    Passing log p'.ToServer := by
  unfold Exchange.deliver at hdeliver
  dsimp only at hdeliver
  rw [getResponse_passing e.db h.isMatch] at hdeliver
  split at hdeliver
  · unfold Exchange.finish at hdeliver
    split at hdeliver <;> cases hdeliver <;> exact h
  · obtain ⟨⟨n, y⟩, hrelay, heq⟩ := Option.map_eq_some_iff.mp hdeliver
    cases heq
    exact relay_invariant (K := fun w : Wire => Passing log w.ToServer)
      (fun w n b w' hw hread => readBodyPart_passing hw hread)
      (fun w hw => update_passing e.db hw) h hrelay

theorem lookUp_passing {p₁ p₂ : Proxy} (hdeclines : e.Declines p)
    (hvet : e.vet p = some (.goesOn p₁)) (hlookUp : e.lookUp p₁ = some p₂) :
    Passing p.ToServer.log p₂.ToServer := by
  obtain ⟨admitted, hadmitted, c, hasking, c', hcache, hmatch⟩ := hdeclines
  simp only [Exchange.admitted, hvet, Option.bind_some, Part.goes, Option.mem_def,
    Option.some.injEq] at hadmitted
  subst hadmitted
  rw [Option.mem_def] at hasking hcache
  simp only [Exchange.lookUp, hasking, hcache, Option.map_some, Option.some.injEq] at hlookUp
  subst hlookUp
  have hlog : c.log = p.ToServer.log := (asking_log hasking).trans (vet_log hvet)
  refine ⟨?_, hmatch⟩
  rw [← hlog]
  exact cache_adds hcache hmatch

/-- The header of the response. -/
theorem respond_declined {out : Except (Int × Proxy) (Int × Proxy)}
    (hmatch : p.ToServer.r.isMatch = false) (hrespond : e.respond p = some out) :
    p.ToServer.Declined e.db e.readLength (responseState out).2.ToServer.log ∧
      (responseState out).2.ToServer.r.isMatch = false := by
  obtain ⟨⟨ok, header, c⟩, hread, rfl⟩ := Option.map_eq_some_iff.mp hrespond
  obtain ⟨hlog, hc⟩ := readHeader_declined hmatch hread
  have hanalysed : (c.analyseHeader e.analysed header).log = c.log ∧
      (c.analyseHeader e.analysed header).r = c.r := by
    unfold Connection.analyseHeader
    split <;> exact ⟨rfl, rfl⟩
  have hlength : ((c.analyseHeader e.analysed header).getContentLength e.db e.config).2 =
      c.analyseHeader e.analysed header := by
    unfold Connection.getContentLength
    split
    · rfl
    · rw [if_neg (by simp [hanalysed.2, hc])]
  have hkept : p.ToServer.Declined e.db e.readLength (c.analyseHeader e.analysed header).log ∧
      (c.analyseHeader e.analysed header).r.isMatch = false := by
    rw [hanalysed.1, hanalysed.2]
    exact ⟨hlog, hc⟩
  dsimp only
  rw [hlength]
  split
  · exact ⟨hlog, hc⟩
  · split
    · exact hkept
    · unfold responseState
      dsimp only
      split <;> exact hkept

/-- What a call comes to for a request that does not use the cache. -/
inductive PassesThrough (e : Exchange) (p : Proxy) (c' : Connection) : Prop
  | unread (headed : e.headed p = none) (passing : Passing p.ToServer.log c')
  | read (c : Connection) (headed : e.headed p = some c) (before : Adds p.ToServer.log c.log)
      (declined : c.Declined e.db e.readLength c'.log) (isMatch : c'.r.isMatch = false)

theorem communicate_passesThrough (hdeclines : e.Declines p)
    (hcall : e.communicate p = some (answer, p')) : PassesThrough e p p'.ToServer := by
  have hheaded : ∀ {p₁ p₂ : Proxy}, e.vet p = some (.goesOn p₁) → e.lookUp p₁ = some p₂ →
      e.headed p = (e.contact p₂).goes.map Proxy.ToServer := by
    intro p₁ p₂ hvet hlookUp
    simp only [Exchange.headed, Exchange.admitted, hvet, Option.bind_some, Part.goes, hlookUp]
  have hcontact : ∀ {p₁ p₂ : Proxy}, e.vet p = some (.goesOn p₁) → e.lookUp p₁ = some p₂ →
      Passing p.ToServer.log (e.contact p₂).state.ToServer := by
    intro p₁ p₂ hvet hlookUp
    have hlooked := lookUp_passing hdeclines hvet hlookUp
    have hsame := contact_transfer e p₂
    exact hlooked.of_eq (congrArg Transfer.log hsame) (congrArg Transfer.r hsame)
  cases Exchange.ends_of_communicate hcall with
  | vet vet =>
    obtain ⟨admitted, hadmitted, -⟩ := hdeclines
    simp only [Exchange.admitted, vet, Option.bind_some, Part.goes, Option.mem_def,
      reduceCtorEq] at hadmitted
  | contact vet lookUp contact =>
    have hsent := hcontact vet lookUp
    rw [contact] at hsent
    exact .unread (by rw [hheaded vet lookUp, contact]; rfl) hsent
  | respond vet lookUp contact respond =>
    have hsent := hcontact vet lookUp
    rw [contact] at hsent
    obtain ⟨hdeclined, hmatch⟩ := respond_declined hsent.isMatch respond
    exact .read _ (by rw [hheaded vet lookUp, contact]; rfl) hsent.adds hdeclined hmatch
  | deliver vet lookUp contact respond deliver =>
    have hsent := hcontact vet lookUp
    rw [contact] at hsent
    obtain ⟨hdeclined, hmatch⟩ := respond_declined hsent.isMatch respond
    have hbody := deliver_passing ⟨.refl _, hmatch⟩ deliver
    exact .read _ (by rw [hheaded vet lookUp, contact]; rfl) hsent.adds
      (hdeclined.adds hbody.adds) hbody.isMatch

theorem PassesThrough.adds {c c' : Connection} (h : PassesThrough e p c)
    (hadds : Passing c.log c') : PassesThrough e p c' := by
  cases h with
  | unread headed passing => exact .unread headed ⟨passing.adds.trans hadds.adds, hadds.isMatch⟩
  | read c₀ headed before declined isMatch =>
    exact .read c₀ headed before (declined.adds hadds.adds) hadds.isMatch

/-- **A request that does not use the cache** changes nothing that a row records, unless it has `Cache2`
record another size. -/
theorem PassesThrough.spares_iff {c' : Connection} (h : PassesThrough e p c')
    (tables : Log → Table) :
    Spares tables p.ToServer.log (c'.log.drop p.ToServer.log.length) ↔ ¬ e.Overwrites tables p := by
  cases h with
  | unread headed passing =>
    refine ⟨fun _ hover => ?_, fun _ => passing.adds.spares tables⟩
    obtain ⟨c, hc, -⟩ := hover
    rw [headed] at hc
    cases hc
  | read c headed before declined isMatch =>
    have hover : e.Overwrites tables p ↔ c.Records e.readLength ∧
        e.db c.log (c.sizeStmt e.readLength) = true ∧
        (c.sizeStmt e.readLength).Alters (tables c.log) := by
      unfold Exchange.Overwrites Connection.sizeStmt
      rw [headed, setSize_alters]
      simp only [Option.mem_def, Option.some.injEq, exists_eq_left']
    rw [hover]
    unfold Connection.Declined at declined
    split at declined
    · next hrecords =>
      rw [before.spares_iff declined]
      simp only [hrecords, true_and, not_and]
    · next hrecords =>
      refine ⟨fun _ hover => hrecords hover.1, fun _ => (before.trans declined).spares tables⟩

theorem settle_passing {log : Log} (e : Exchange) (h : Passing log p.ToServer) :
    Passing log (e.settle p).ToServer := by
  unfold Exchange.settle
  split
  · exact closeUpdate_passing e h
  · exact h

theorem Passing.start {c : Connection} (hmatch : c.r.isMatch = false) : Passing c.log c :=
  ⟨.refl c.log, hmatch⟩

theorem PassesThrough.isMatch {c : Connection} (h : PassesThrough e p c) : c.r.isMatch = false := by
  cases h with
  | unread headed passing => exact passing.isMatch
  | read c₀ headed before declined isMatch => exact isMatch

end Call

/-! ## Runs -/

/-- A call of `CommunicationHTTP`: the state before it, and the one in which the loop goes on or
ends. -/
structure Call where
  exchange : Exchange
  before : Proxy
  after : Proxy

/-- The calls for the requests of a browser connection so far, and the state of the loop; `none` when it
has ended. -/
inductive Calls : List Call → Option (Proxy × Bool) → Prop
  | start (dropBrowser : Bool) :
      Calls [] (some ({ Proxy.new with DropBrowser := dropBrowser }, false))
  | next {calls : List Call} {x y : Proxy × Bool} (run : Calls calls (some x)) (e : Exchange)
      (step : Proxy.Next e x y) : Calls (calls ++ [⟨e, x.1, y.1⟩]) (some y)
  | last {calls : List Call} {x : Proxy × Bool} {answer : Int} {p' : Proxy}
      (run : Calls calls (some x)) (e : Exchange) (fits : e.fits x.1)
      (call : e.communicate x.1 = some (answer, p')) :
      Calls (calls ++ [⟨e, x.1, e.settle p'⟩]) none

theorem Proxy.Next.passesThrough {e : Exchange} {x y : Proxy × Bool} (h : Proxy.Next e x y)
    (hdeclines : e.Declines x.1) : PassesThrough e x.1 y.1.ToServer := by
  cases h with
  | again answer fits call repeats =>
    have hcall := communicate_passesThrough hdeclines call
    exact hcall.adds (closeUpdate_passing e (.start hcall.isMatch))
  | @request p p' retry dropBrowser fits call keeps =>
    have hcall := communicate_passesThrough hdeclines call
    exact hcall.adds (settle_passing (p := { p' with DropServer := !retry && p'.DropServer }) e
      (.start hcall.isMatch))

theorem Calls.passesThrough {calls : List Call} {x : Option (Proxy × Bool)} (h : Calls calls x) :
    ∀ call ∈ calls, call.exchange.Declines call.before →
      PassesThrough call.exchange call.before call.after.ToServer := by
  induction h with
  | start dropBrowser => intro call hcall; cases hcall
  | next run e step ih =>
    intro call hcall
    rcases List.mem_append.mp hcall with hold | hnew
    · exact ih call hold
    · rw [List.mem_singleton.mp hnew]
      exact step.passesThrough
  | last run e fits hcall' ih =>
    intro call hcall
    rcases List.mem_append.mp hcall with hold | hnew
    · exact ih call hold
    · rw [List.mem_singleton.mp hnew]
      intro hdeclines
      have hend := communicate_passesThrough hdeclines hcall'
      exact hend.adds (settle_passing e (.start hend.isMatch))

/-- The call changes nothing that a row records, if `Cache` ends without a match in it. -/
def Call.Spares (tables : Log → Table) (call : Call) : Prop :=
  call.exchange.Declines call.before →
    Haarp.Spares tables call.before.ToServer.log
      (call.after.ToServer.log.drop call.before.ToServer.log.length)

/-- `Cache` ends without a match in the call, and `Cache2` records another size for an existing row. -/
def Call.Overwrites (tables : Log → Table) (call : Call) : Prop :=
  call.exchange.Declines call.before ∧ call.exchange.Overwrites tables call.before

/-- **The requests of a browser connection that do not use the cache** change nothing that a row
records, if and only if none of them overwrites a size. -/
theorem entries_spared (tables : Log → Table) {calls : List Call} {x : Option (Proxy × Bool)}
    (h : Calls calls x) :
    (∀ call ∈ calls, call.Spares tables) ↔ ∀ call ∈ calls, ¬ call.Overwrites tables := by
  refine forall₂_congr fun call hcall => ?_
  have hiff := fun hdeclines => (h.passesThrough call hcall hdeclines).spares_iff tables
  constructor
  · rintro hspares ⟨hdeclines, hover⟩
    exact (hiff hdeclines).mp (hspares hdeclines) hover
  · intro hnot hdeclines
    exact (hiff hdeclines).mpr fun hover => hnot ⟨hdeclines, hover⟩

/-- The loop behind `twoBytesExchange`, which ends in the state `p`. -/
def afterTwoBytes (p : Proxy) : Proxy :=
  { twoBytesExchange.settle { p with DropServer := !false && p.DropServer } with
    DropServer := false, DropBrowser := false }

/-- A second request on the connection. -/
theorem calls_twice (e : Exchange) (hget : e.requestType = .get) (P : Proxy → Prop) [DecidablePred P]
    (h : ((twoBytesExchange.communicate Proxy.new).map fun out => decide (out.1 = 0 ∧
      (out.2.DropBrowser = false ∧ out.2.BrowserDropped = false) ∧
      (e.communicate (afterTwoBytes out.2)).isSome = true ∧ P (afterTwoBytes out.2))) = some true) :
    ∃ p p' : Proxy, P p ∧
      Calls [⟨twoBytesExchange, Proxy.new, p⟩, ⟨e, p, e.settle p'⟩] none := by
  obtain ⟨⟨answer, p⟩, hfirst, hout⟩ := Option.map_eq_some_iff.mp h
  obtain ⟨rfl, hkeeps, hsome, hP⟩ := of_decide_eq_true hout
  obtain ⟨⟨answer, p'⟩, hsecond⟩ := Option.isSome_iff_exists.mp hsome
  refine ⟨afterTwoBytes p, p', hP, ?_⟩
  have hstep : Proxy.Next twoBytesExchange (Proxy.new, false) (afterTwoBytes p, false) :=
    .request false (.inl rfl) hfirst hkeeps
  exact .last (.next (.start false) twoBytesExchange hstep) e (.inl hget) hsecond

/-- A request without a plugin, and a response `abcde`. -/
def passedExchange (header : Str) : Exchange :=
  { twoBytesExchange with
    header
    asked := { plugin := none, found := none, directories := [], selected := none }
    read := (true, contentLength ++ ['5']), analysed := ⟨200, 5, true, false⟩
    recv := [some ['a', 'b', 'c', 'd', 'e']] }

/-- The table that a connection meets when no other one changes it. -/
def ownTable (log : Log) : Table := Table.run 0 (fun _ => none) log

theorem entries_spared_range :
    ∃ calls : List Call, calls.length = 2 ∧ ∀ call ∈ calls, call.Spares ownTable := by
  obtain ⟨p, p', ⟨hfirst, hsecond⟩, hcalls⟩ := calls_twice
    (passedExchange (['G', 'E', 'T', '\r', '\n'] ++ rangeBytes ++ ['0', '-', '4'])) rfl
    (fun p => ¬ twoBytesExchange.Declines Proxy.new ∧
      ¬ (passedExchange (['G', 'E', 'T', '\r', '\n'] ++ rangeBytes ++ ['0', '-', '4'])).Overwrites
        ownTable p) (by decide +kernel)
  refine ⟨_, rfl, (entries_spared ownTable hcalls).mpr fun call hcall => ?_⟩
  rcases List.mem_pair.mp hcall with rfl | rfl
  · exact fun h => hfirst h.1
  · exact fun h => hsecond h.2

/-- The size of a response that is passed on is recorded for the entry of the request before it. -/
theorem entries_overwritten : ¬ ∀ calls x, Calls calls x → ∀ call ∈ calls, call.Spares ownTable := by
  obtain ⟨p, p', ⟨hdeclines, hover⟩, hcalls⟩ := calls_twice (passedExchange ['G', 'E', 'T']) rfl
    (fun p => (passedExchange ['G', 'E', 'T']).Declines p ∧
      (passedExchange ['G', 'E', 'T']).Overwrites ownTable p) (by decide +kernel)
  intro hclaim
  have hlast := List.mem_cons_of_mem ⟨twoBytesExchange, Proxy.new, p⟩ (List.mem_singleton_self
    (⟨passedExchange ['G', 'E', 'T'], p, (passedExchange ['G', 'E', 'T']).settle p'⟩ : Call))
  have hspares := hclaim _ _ hcalls _ hlast hdeclines
  exact ((hcalls.passesThrough _ hlast hdeclines).spares_iff ownTable).mp hspares hover

end Haarp
