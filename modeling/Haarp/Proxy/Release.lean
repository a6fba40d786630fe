import Haarp.Cache.Marks
import Haarp.Proxy.Communication
import Haarp.Base.Run

/-!
# Rows that a connection releases

`initializeVariables` forgets the lock that a connection holds. `locks_released`: no row is marked when
`CommunicationHTTP` starts, in every run whose calls avoid two defects. `Cache` has returns behind
`lockFile` that do not release the row (`Connection.Forgets`), and a response without a body is answered
without `Update` (`Exchange.EndsEmpty`); both count where a row is marked.
-/

namespace Haarp

open Base

/-! ## The two defects -/

/-- A response without a body is answered while the entry is in use: nothing releases the row, unless
what the server sends behind it drops the server connection. -/
def Exchange.EndsEmpty (e : Exchange) (retry : Bool) (contentLengthReference : Int) (p : Proxy) :
    Prop :=
  contentLengthReference = 0 ∧ p.ToServer.r.isMatch = true ∧
    (p.ToServer.hit = true ∨ p.ToServer.HTMLResponse = 200 ∨ p.ToServer.HTMLResponse = 206) ∧
    (retry = true ∨ p.ToServer.hit = true ∨ e.unexpected = false) ∧ e.headerTaken = true

instance (e : Exchange) (retry : Bool) (contentLengthReference : Int) (p : Proxy) :
    Decidable (e.EndsEmpty retry contentLengthReference p) :=
  inferInstanceAs (Decidable (_ ∧ _ ∧ (_ ∨ _ ∨ _) ∧ (_ ∨ _ ∨ _) ∧ _))

/-- The state in which the request of a call is looked up. -/
def Exchange.admitted (e : Exchange) (p : Proxy) : Option Proxy := (e.vet p).bind Part.goes

/-- The announced length and the state from which the body of a response is delivered. -/
def Exchange.responded (e : Exchange) (admitted : Proxy) : Option (Int × Proxy) :=
  (((e.lookUp admitted).map e.contact).bind Part.goes).bind fun p =>
    (e.respond p).bind Except.toOption

/-- A call has marked a row and keeps both connections open behind the header of its response, and it
meets one of the defects. (For a netflix file without a row `lockFile` answers 1 and marks nothing.) -/
def Exchange.Leaks (e : Exchange) (retry : Bool) (p : Proxy) : Prop :=
  ∃ admitted ∈ e.admitted p, ∃ out ∈ e.responded admitted,
    out.2.DropBrowser = false ∧ (retry = true ∨ out.2.DropServer = false) ∧
      marks out.2.ToServer.log ≠ [] ∧
      ((∃ c ∈ e.asking admitted, c.Forgets e.db e.asked) ∨ e.EndsEmpty retry out.1 out.2)

instance (e : Exchange) (retry : Bool) (p : Proxy) : Decidable (e.Leaks retry p) :=
  inferInstanceAs (Decidable (∃ admitted ∈ e.admitted p, ∃ out ∈ e.responded admitted,
    _ ∧ (_ ∨ _) ∧ _ ∧ ((∃ c ∈ e.asking admitted, _) ∨ _)))

/-! ## A call of CommunicationHTTP -/

section Call

variable {e : Exchange} {lost : Prop} {p p' : Proxy} {answer : Int}

theorem vet_log {part : Part} (h : e.vet p = some part) :
    part.state.ToServer.log = p.ToServer.log := by
  obtain ⟨limits, -, rfl⟩ := Option.map_eq_some_iff.mp h
  dsimp only
  split
  · rfl
  · unfold Exchange.changeHost
    split <;> rfl

theorem vet_answer (h : e.vet p = some (.answers answer p')) : answer = -10 := by
  obtain ⟨limits, -, h⟩ := Option.map_eq_some_iff.mp h
  dsimp only at h
  split at h <;> cases h
  rfl

theorem asking_log {c : Connection} (h : e.asking p = some c) : c.log = p.ToServer.log := by
  unfold Exchange.asking at h
  split at h
  · cases h
    unfold Exchange.openDatabase
    split
    · rfl
    · split <;> rfl
  · split at h <;> cases h
    rfl

theorem lookUp_locked (hdb : Liberates e.db) (h : marks p.ToServer.log = [])
    (hlookUp : e.lookUp p = some p') :
    Locked (∃ c ∈ e.asking p, c.Forgets e.db e.asked) p'.ToServer.toTransfer := by
  unfold Exchange.lookUp at hlookUp
  split at hlookUp
  · next c hasking =>
    obtain ⟨c', hcache, rfl⟩ := Option.map_eq_some_iff.mp hlookUp
    have hlocked := cache_locked hdb (by rw [asking_log hasking]; exact h) hcache
    exact ⟨hlocked.releasable, fun hnot => hlocked.held fun hforgets => hnot ⟨c, hasking, hforgets⟩⟩
  · cases hlookUp
    exact .free h

/-- To send a request tells nothing. -/
theorem contact_transfer (e : Exchange) (p : Proxy) :
    (e.contact p).state.ToServer.toTransfer = p.ToServer.toTransfer := by
  have hsend : (e.sendHeader p.ToServer).2.toTransfer = p.ToServer.toTransfer := by
    unfold Exchange.sendHeader
    dsimp only
    split <;> rfl
  unfold Exchange.contact
  dsimp only
  split
  · rfl
  · split
    · exact hsend
    · split
      · split <;> exact hsend
      · exact hsend

theorem contact_answer (h : e.contact p = .answers answer p') : answer ≠ 0 := by
  unfold Exchange.contact at h
  dsimp only at h
  split at h
  · cases h
    split <;> decide
  · split at h
    · cases h
      decide
    · split at h
      · split at h <;> cases h <;> decide
      · cases h

/-- The answer and the state behind the header of the response. -/
def responseState : Except (Int × Proxy) (Int × Proxy) → Int × Proxy
  | .error out | .ok out => out

theorem respond_locked (hdb : Liberates e.db) (h : Locked lost p.ToServer.toTransfer)
    {out : Except (Int × Proxy) (Int × Proxy)} (hrespond : e.respond p = some out) :
    Locked lost (responseState out).2.ToServer.toTransfer := by
  obtain ⟨⟨ok, header, c⟩, hread, rfl⟩ := Option.map_eq_some_iff.mp hrespond
  have hc := readHeader_locked hdb h hread
  dsimp only
  split
  · exact hc
  · have hanalysed : Locked lost (c.analyseHeader e.analysed header).toTransfer := by
      unfold Connection.analyseHeader
      split <;> exact hc
    have hlength := getContentLength_locked hdb e.config hanalysed
    split
    · exact hlength
    · unfold responseState
      dsimp only
      split
      · exact hlength.same ⟨rfl, rfl, rfl, rfl⟩
      · exact hlength

theorem respond_answer {out : Int × Proxy} (h : e.respond p = some (.error out)) : out.1 ≠ 0 := by
  obtain ⟨⟨ok, header, c⟩, -, h⟩ := Option.map_eq_some_iff.mp h
  dsimp only at h
  split at h
  · cases h
    exact (by decide : (-80 : Int) ≠ 0)
  · split at h <;> cases h
    exact (by decide : (-233 : Int) ≠ 0)

/-! ## The body of a response -/

theorem SameLock.set {t : Transfer} {c : Connection} {s : Stmt} (hs : s.Neutral) (db : Db)
    (h : SameLock t c.toTransfer) : SameLock t (c.set db s).2.toTransfer :=
  h.trans (set_same hs db c.toTransfer)

theorem writeName_same {t : Transfer} {c : Connection} (e : Exchange) (name : Str)
    (found : Option Str) (h : SameLock t c.toTransfer) :
    SameLock t (e.writeName name found c).2.toTransfer := by
  unfold Exchange.writeName
  split
  · exact h.set (fun _ => rfl) e.db
  · exact h.set (fun _ => rfl) e.db

theorem identify_same (e : Exchange) (c : Connection) (first second : Str) :
    SameLock c.toTransfer (e.identify c first second).toTransfer := by
  have hstart := SameLock.set (s := .startTransaction) (fun _ => rfl) e.db (.refl c.toTransfer)
  have hselect : SameLock c.toTransfer
      ({ (c.set e.db .startTransaction).2 with operation := some .select } : Connection).toTransfer :=
    ⟨hstart.marks, hstart.r, hstart.exists_transaction, hstart.was_liberate⟩
  unfold Exchange.identify
  dsimp only
  split
  · exact hstart
  · split
    · exact SameLock.set (fun _ => rfl) e.db hselect
    · split
      · exact (writeName_same e _ _ hselect).set (fun _ => rfl) e.db
      · exact SameLock.set (s := .commit) (fun _ => rfl) e.db (writeName_same e _ _ hselect)

theorem collect_same {c c' : Connection} {bodyT : Str} (h : e.collect c bodyT = some c') :
    SameLock c.toTransfer c'.toTransfer := by
  unfold Exchange.collect at h
  dsimp only at h
  split at h
  · split at h <;> cases h
    · exact .refl _
    · exact identify_same e { c with readFileHeader := c.readFileHeader ++ bodyT } _ _
  · cases h
    exact .refl _

/-- A read of the body that does not fail. -/
theorem readBodyPart_same {w w' : Wire} {n : Int} {b : Str} (h : e.readBodyPart w = some (n, b, w'))
    (hn : 0 ≤ n) : SameLock w.ToServer.toTransfer w'.ToServer.toTransfer := by
  unfold Exchange.readBodyPart at h
  dsimp only at h
  split at h
  · cases h
    exact .refl _
  · split at h
    · obtain ⟨part, hpart, heq⟩ := Option.map_eq_some_iff.mp h
      cases heq
      exact (readHit_told hpart).told.same hn
    · split at h
      · cases h
        exact .refl _
      · split at h
        · obtain ⟨c, hcollect, heq⟩ := Option.map_eq_some_iff.mp h
          cases heq
          exact collect_same hcollect
        · split at h
          · obtain ⟨part, hpart, heq⟩ := Option.map_eq_some_iff.mp h
            cases heq
            exact (readMiss_told hpart).1.same hn
          · cases h
            exact .refl _

theorem update_wire (hdb : Liberates e.db) {w : Wire} (h : Locked lost w.ToServer.toTransfer) :
    Locked lost (e.update w).ToServer.toTransfer ∧
      (¬ lost → marks (e.update w).ToServer.log = []) :=
  update_locked hdb h

/-- What a body comes to that is delivered without an error. -/
structure Delivered (e : Exchange) (lost : Prop) (contentLengthReference : Int) (p p' : Proxy) :
    Prop where
  locked : Locked lost p'.ToServer.toTransfer
  released : ∀ retry, ¬ lost → e.requestType ≠ .head →
    ¬ (marks p.ToServer.log ≠ [] ∧ e.EndsEmpty retry contentLengthReference p) →
    (retry = true ∨ p'.DropServer = false) → marks p'.ToServer.log = []
  dropServer : p.DropServer = true → p'.DropServer = true
  dropBrowser : p.DropBrowser = true → p'.DropBrowser = true

theorem finish_delivered (hdb : Liberates e.db) {contentLengthReference : Int}
    (h : Locked lost p.ToServer.toTransfer)
    (hbody : e.noBody contentLengthReference (p.ToServer.getResponse e.db).1 = true)
    (hfinish : e.finish { p with ToServer := (p.ToServer.getResponse e.db).2 } = (answer, p')) :
    answer = -10 ∨ (answer = 0 ∧ Delivered e lost contentLengthReference p p') := by
  have hresponse := getResponse_locked hdb h
  unfold Exchange.finish at hfinish
  split at hfinish
  · cases hfinish
    exact .inl rfl
  · next htaken =>
    cases hfinish
    refine .inr ⟨rfl, hresponse, fun retry hlost hhead hempty hkept => ?_, fun hd => ?_, id⟩
    · cases hmatch : (p.ToServer.getResponse e.db).2.r.isMatch with
      | false => exact hresponse.held hlost hmatch
      | true =>
        obtain ⟨hsame, hcached, h304, h204⟩ := getResponse_uses e.db p.ToServer hmatch
        rw [hsame] at hmatch hkept ⊢
        have hzero : contentLengthReference = 0 := by
          simpa [Exchange.noBody, h304, h204, hhead] using hbody
        by_contra hmarked
        refine hempty ⟨hmarked, hzero, hmatch, hcached, ?_, by simpa using htaken⟩
        rcases hkept with hretry | hdrop
        · exact .inl hretry
        · cases hhit : p.ToServer.hit with
          | true => exact .inr (.inl rfl)
          | false =>
            have hquiet : p.DropServer = false ∧ e.unexpected = false := by simpa [hhit] using hdrop
            exact .inr (.inr hquiet.2)
    · simp only [hd, Bool.true_or]

theorem deliver_delivered (hdb : Liberates e.db) {contentLengthReference : Int}
    (h : Locked lost p.ToServer.toTransfer)
    (hdeliver : e.deliver contentLengthReference p = some (answer, p')) :
    answer = -10 ∨ answer = -74 ∨ answer = -75 ∨ (answer = 0 ∧
      (p'.DropBrowser = true ∨ Delivered e lost contentLengthReference p p')) := by
  unfold Exchange.deliver at hdeliver
  dsimp only at hdeliver
  split at hdeliver
  · next hbody =>
    rcases finish_delivered hdb h hbody (Option.some.inj hdeliver) with hfail | ⟨hzero, hend⟩
    · exact .inl hfail
    · exact .inr (.inr (.inr ⟨hzero, .inr hend⟩))
  · obtain ⟨⟨n, y⟩, hrelay, heq⟩ := Option.map_eq_some_iff.mp hdeliver
    cases heq
    have hends := relay_ends (J := fun w _ => Locked lost w.ToServer.toTransfer)
      (fun w k n b w' hw hread hn => hw.same (readBodyPart_same hread hn)) _
      (getResponse_locked hdb h) hrelay
    cases hends with
    | failed answer negative =>
      rcases negative with hfail | hfail | hfail
      · exact .inl hfail
      · exact .inr (.inl hfail)
      · exact .inr (.inr (.inl hfail))
    | dropped dropBrowser => exact .inr (.inr (.inr ⟨rfl, .inl dropBrowser⟩))
    | done w k read toServer length dropServer dropBrowser =>
      obtain ⟨hlocked, hreleased⟩ := update_wire hdb read
      rw [← toServer] at hlocked hreleased
      exact .inr (.inr (.inr ⟨rfl, .inr
        ⟨hlocked, fun _ hlost _ _ _ => hreleased hlost, dropServer, dropBrowser⟩⟩))

/-! ## From one call to the next one -/

theorem closeUpdate_marks (hdb : Liberates e.db) (h : Locked lost p.ToServer.toTransfer) :
    marks (e.closeUpdate p).ToServer.log = [] :=
  liberateEdition_marks hdb (update_locked hdb h).1.releasable

/-- A browser connection that is not kept open stays so. -/
theorem dropBrowser_kept {p₁ p₂ p₃ p₄ : Proxy} {contentLengthReference : Int}
    (hvet : e.vet p = some (.goesOn p₁)) (hlookUp : e.lookUp p₁ = some p₂)
    (hcontact : e.contact p₂ = .goesOn p₃)
    (hrespond : e.respond p₃ = some (.ok (contentLengthReference, p₄)))
    (hdrop : p.DropBrowser = true) : p₄.DropBrowser = true := by
  have h₁ : p₁.DropBrowser = true := by
    obtain ⟨limits, -, hvet⟩ := Option.map_eq_some_iff.mp hvet
    dsimp only at hvet
    split at hvet <;> cases hvet
    unfold Exchange.changeHost
    split <;> exact hdrop
  have h₂ : p₂.DropBrowser = true := by
    unfold Exchange.lookUp at hlookUp
    split at hlookUp
    · obtain ⟨c, -, rfl⟩ := Option.map_eq_some_iff.mp hlookUp
      exact h₁
    · cases hlookUp
      exact h₁
  have h₃ : p₃.DropBrowser = true := by
    unfold Exchange.contact at hcontact
    dsimp only at hcontact
    split at hcontact
    · cases hcontact
    · split at hcontact
      · cases hcontact
      · split at hcontact
        · split at hcontact <;> cases hcontact
          exact h₂
        · cases hcontact
          exact h₂
  obtain ⟨⟨ok, header, c⟩, -, hok⟩ := Option.map_eq_some_iff.mp hrespond
  dsimp only at hok
  split at hok
  · cases hok
  · split at hok <;> cases hok
    simp only [h₃, Bool.true_or]

/-- What is looked up and sent. -/
theorem sent_locked {p₁ p₂ : Proxy} (hdb : Liberates e.db) (h : marks p.ToServer.log = [])
    (hvet : e.vet p = some (.goesOn p₁)) (hlookUp : e.lookUp p₁ = some p₂) :
    Locked (∃ c ∈ e.asking p₁, c.Forgets e.db e.asked)
      (e.contact p₂).state.ToServer.toTransfer := by
  rw [contact_transfer]
  exact lookUp_locked hdb ((congrArg marks (vet_log hvet)).trans h) hlookUp

/-- A call that is repeated has not relayed a body. -/
theorem repeated_locked (hdb : Liberates e.db) (h : marks p.ToServer.log = [])
    (hends : e.Ends p (answer, p')) (hrepeats : e.repeats answer) :
    ∃ lost, Locked lost p'.ToServer.toTransfer := by
  have hanswer : answer = -80 ∨ answer = -60 ∨ answer = -61 := by
    rcases hrepeats with ⟨h, -⟩ | h | h
    · exact .inl h
    · exact .inr (.inl h)
    · exact .inr (.inr h)
  cases hends with
  | vet vet =>
    have := vet_answer vet
    omega
  | contact vet lookUp contact =>
    have hsent := sent_locked hdb h vet lookUp
    rw [contact] at hsent
    exact ⟨_, hsent⟩
  | respond vet lookUp contact respond =>
    have hsent := sent_locked hdb h vet lookUp
    rw [contact] at hsent
    exact ⟨_, respond_locked hdb hsent respond⟩
  | deliver vet lookUp contact respond deliver =>
    have hsent := sent_locked hdb h vet lookUp
    rw [contact] at hsent
    rcases deliver_delivered hdb (respond_locked hdb hsent respond) deliver with
      h | h | h | ⟨h, -⟩ <;> omega

theorem responded_eq {p₁ p₂ p₃ : Proxy} {out : Int × Proxy} (hlookUp : e.lookUp p₁ = some p₂)
    (hcontact : e.contact p₂ = .goesOn p₃) (hrespond : e.respond p₃ = some (.ok out)) :
    e.responded p₁ = some out := by
  simp only [Exchange.responded, hlookUp, Option.map_some, hcontact, Option.bind_some, Part.goes,
    hrespond, Except.toOption]

/-- A call that does not leak, and after which both connections are kept open. -/
theorem clean_marks {retry : Bool} (hdb : Liberates e.db) (hleaks : ¬ e.Leaks retry p)
    (h : marks p.ToServer.log = []) (hfits : e.fits p) (hends : e.Ends p (0, p'))
    (hbrowser : p'.DropBrowser = false) :
    ∃ lost, Locked lost p'.ToServer.toTransfer ∧
      ((retry = true ∨ p'.DropServer = false) → marks p'.ToServer.log = []) := by
  cases hends with
  | vet vet => exact absurd (vet_answer vet) (by decide)
  | contact vet lookUp contact => exact absurd rfl (contact_answer contact)
  | respond vet lookUp contact respond => exact absurd rfl (respond_answer respond)
  | @deliver _ p₁ p₂ p₃ p₄ cl vet lookUp contact respond deliver =>
    have hsent := sent_locked hdb h vet lookUp
    rw [contact] at hsent
    rcases deliver_delivered hdb (respond_locked hdb hsent respond).marked deliver with
      h | h | h | ⟨-, hdrop | hend⟩
    · cases h
    · cases h
    · cases h
    · rw [hdrop] at hbrowser
      cases hbrowser
    · have hbrowser₄ : p₄.DropBrowser = false := by
        rw [← Bool.not_eq_true]
        intro hdrop
        rw [hend.dropBrowser hdrop] at hbrowser
        cases hbrowser
      have hhead : e.requestType ≠ .head := by
        intro hhead
        rcases hfits with hget | hdrop
        · rw [hget] at hhead
          cases hhead
        · rw [dropBrowser_kept vet lookUp contact respond hdrop] at hbrowser₄
          cases hbrowser₄
      refine ⟨_, hend.locked, fun hkept => ?_⟩
      have hserver₄ : retry = true ∨ p₄.DropServer = false := by
        refine hkept.imp id fun hkept => ?_
        rw [← Bool.not_eq_true]
        intro hdrop
        rw [hend.dropServer hdrop] at hkept
        cases hkept
      have hnot : ¬ (marks p₄.ToServer.log ≠ [] ∧
          ((∃ c ∈ e.asking p₁, c.Forgets e.db e.asked) ∨ e.EndsEmpty retry cl p₄)) := by
        intro hdefect
        refine hleaks ⟨p₁, ?_, (cl, p₄), responded_eq lookUp contact respond, hbrowser₄, hserver₄,
          hdefect⟩
        simp only [Exchange.admitted, vet, Option.bind_some, Part.goes, Option.mem_def]
      exact hend.released retry (fun ⟨hmarked, hlost⟩ => hnot ⟨hmarked, .inl hlost⟩) hhead
        (fun ⟨hmarked, hempty⟩ => hnot ⟨hmarked, .inr hempty⟩) hkept

/-- **A step of the loop**: a call that does not leak leaves no row marked for the next one. -/
theorem Proxy.Next.released {retry : Bool} {x : Proxy × Bool} (hdb : Liberates e.db)
    (hleaks : ¬ e.Leaks retry p) (h : marks p.ToServer.log = [])
    (hstep : Proxy.Next e (p, retry) x) : marks x.1.ToServer.log = [] := by
  cases hstep with
  | again answer fits call repeats =>
    obtain ⟨lost, hlocked⟩ := repeated_locked hdb h (Exchange.ends_of_communicate call) repeats
    exact closeUpdate_marks hdb hlocked
  | @request p p' _ dropBrowser fits call keeps =>
    obtain ⟨lost, hlocked, hmarks⟩ :=
      clean_marks hdb hleaks h fits (Exchange.ends_of_communicate call) keeps.1
    change marks (e.settle { p' with DropServer := !retry && p'.DropServer }).ToServer.log = []
    unfold Exchange.settle
    split
    · exact closeUpdate_marks (p := { p' with DropServer := !retry && p'.DropServer }) hdb hlocked
    · next hkept =>
      refine hmarks ?_
      cases retry with
      | true => exact .inl rfl
      | false => exact .inr (by simpa using fun hd => hkept (.inl hd))

end Call

/-! ## Runs -/

/-- A step of the loop; the statements that release a row succeed. -/
def LiberatingStep (x y : Proxy × Bool) : Prop :=
  ∃ e : Exchange, Liberates e.db ∧ Proxy.Next e x y

/-- Such a step whose call meets neither defect. -/
def ReleasingStep (x y : Proxy × Bool) : Prop :=
  ∃ e : Exchange, Liberates e.db ∧ ¬ e.Leaks x.2 x.1 ∧ Proxy.Next e x y

/-- **No row stays marked from one request to the next one**: whatever the statements, the disks and
the servers answer, no row is marked when a call of `CommunicationHTTP` starts. -/
theorem locks_released {dropBrowser : Bool} {x : Proxy × Bool}
    (hrun : Run ReleasingStep ({ Proxy.new with DropBrowser := dropBrowser }, false) x) :
    marks x.1.ToServer.log = [] := by
  refine run_invariant (P := fun x => marks x.1.ToServer.log = []) ?_ hrun rfl
  rintro ⟨p, retry⟩ y h ⟨e, hdb, hleaks, hstep⟩
  exact hstep.released hdb hleaks h

/-- A request for a file that is not stored yet, and a response `ab`. -/
def twoBytesExchange : Exchange :=
  { db := succeeds, header := ['G', 'E', 'T'], requestType := .get, browserLength := -1
    sameHost := true, parent := false, clientBody := .done, opens := true
    asked :=
      { plugin := some ⟨true, ['d'], ['f'], 0, 0, 0, false⟩, found := some none
        directories := [⟨false, true⟩], selected := none }
    connects := true, takesHeader := true
    read := (true, contentLength ++ ['2']), again := (false, [])
    analysed := ⟨200, 2, true, false⟩, config := fun _ => 0, unexpected := false
    recv := [some ['a', 'b']], track := fun _ piece => (piece.length, piece), md5 := id
    identified := none, file := [], clock := fun _ => 0, fuel := 2, headerTaken := true
    send := fun _ _ => true }

theorem locks_released_twoBytes :
    ∃ x : Proxy × Bool, (.insert ⟨['d'], ['f']⟩, true) ∈ x.1.ToServer.log ∧
      marks x.1.ToServer.log = [] := by
  have hcall : (twoBytesExchange.communicate Proxy.new).map (fun out => (out.1, out.2.DropServer,
      out.2.DropBrowser, out.2.BrowserDropped,
      decide ((Stmt.insert ⟨['d'], ['f']⟩, true) ∈ out.2.ToServer.log))) =
      some (0, false, false, false, true) := by decide +kernel
  obtain ⟨⟨answer, p⟩, hcall, hout⟩ := Option.map_eq_some_iff.mp hcall
  simp only [Prod.mk.injEq, decide_eq_true_eq] at hout
  obtain ⟨rfl, hserver, hbrowser, hdropped, hinsert⟩ := hout
  have hstep : ReleasingStep ({ Proxy.new with DropBrowser := false }, false)
      ({ twoBytesExchange.settle { p with DropServer := !false && p.DropServer } with
        DropServer := false, DropBrowser := false }, false) :=
    ⟨twoBytesExchange, fun _ _ => rfl, by decide +kernel,
      .request false (.inl rfl) hcall ⟨hbrowser, hdropped⟩⟩
  refine ⟨_, ?_, locks_released (.single hstep)⟩
  unfold Exchange.settle
  rw [if_neg (by simp [hserver, hbrowser, hdropped])]
  exact hinsert

/-- A response of length 0 leaves its row marked. -/
theorem locks_leaked :
    ¬ ∀ x, Run LiberatingStep (Proxy.new, false) x → marks x.1.ToServer.log = [] := by
  let empty : Exchange :=
    { twoBytesExchange with read := (true, contentLength ++ ['0']), analysed := ⟨200, 0, true, false⟩ }
  have hcall : (empty.communicate Proxy.new).map (fun out => (out.1, out.2.DropServer,
      out.2.DropBrowser, out.2.BrowserDropped, marks out.2.ToServer.log)) =
      some (0, false, false, false, [⟨['d'], ['f']⟩]) := by decide +kernel
  obtain ⟨⟨answer, p⟩, hcall, hout⟩ := Option.map_eq_some_iff.mp hcall
  simp only [Prod.mk.injEq] at hout
  obtain ⟨rfl, hserver, hbrowser, hdropped, hmarks⟩ := hout
  intro hclaim
  have hfree := hclaim _ (.single ⟨empty, fun _ _ => rfl,
    .request false (.inl rfl) hcall ⟨hbrowser, hdropped⟩⟩)
  unfold Exchange.settle at hfree
  rw [if_neg (by simp [hserver, hbrowser, hdropped]), hmarks] at hfree
  cases hfree

end Haarp
