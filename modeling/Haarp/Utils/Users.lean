import Haarp.Base.Keyed
import Haarp.Utils.Strings

/-!
# The users of a file

The history of a row: who loaded or requested its file, when, and how many bytes. `addUserCache`
credits one transfer to one client. `addUserCaches_credit` is about runs of such calls: what becomes of
a client is told by the calls for it alone.

Dates and byte counts are signed 64-bit numbers and are added as such.
-/

namespace Haarp

open Base

/-- `usercache` -/
structure Usercache where
  ip : Str
  date_downloaded : Int64
  date_modified : Int64
  bytes_acumulate : Int64
  bytes_requested : Int64
deriving DecidableEq

/-- `lusercache` -/
abbrev Lusercache := List Usercache

/-- `saveClientIP`: what it stores in `ip_browser`; `none` when `lip.at` throws. -/
def saveClientIP (ip : Str) : Option Str := (stringexplode ip [' ']).getLast?

/-- Any word is stored as it is. -/
theorem saveClientIP_word {ip : Str} (hne : ip ≠ []) (hip : ' ' ∉ ip) : saveClientIP ip = some ip := by
  have hsplit : stringexplode ip [' '] = [ip] :=
    stringexplode_of_not_mem (fun c hc hmem => hip (List.mem_singleton.mp hmem ▸ hc)) hne
  rw [saveClientIP, hsplit]
  rfl

/-- The loop of `addUserCache`, and what follows it when it finds no node. -/
def addUserCacheLoop (ip : Str) (date_modified bytes : Int64) (hit : Bool) : Lusercache → Lusercache
  | [] =>
    [{ ip, date_downloaded := date_modified, date_modified,
       bytes_requested := if hit then bytes else 0,
       bytes_acumulate := if hit then 0 else bytes }]
  | it :: luc =>
    if it.ip = ip then
      (if hit then { it with date_modified, bytes_requested := it.bytes_requested + bytes }
       else { it with date_modified, bytes_acumulate := it.bytes_acumulate + bytes }) :: luc
    else it :: addUserCacheLoop ip date_modified bytes hit luc

/-- `addUserCache`: what it returns, and the list after it. -/
def addUserCache (luc : Lusercache) (ip : Str) (date_modified bytes : Int64) (hit : Bool) :
    Bool × Lusercache :=
  if ip = [] ∨ date_modified ≤ 0 then
    (false, addUserCacheLoop ['0', '.', '0', '.', '0', '.', '0'] 1 bytes hit luc)
  else (true, addUserCacheLoop ip date_modified bytes hit luc)

/-- A call of `addUserCache`. -/
structure UserCall where
  ip : Str
  date_modified : Int64
  bytes : Int64
  hit : Bool

/-- A run of calls. -/
def addUserCaches (luc : Lusercache) (calls : List UserCall) : Lusercache :=
  calls.foldl (fun luc c => (addUserCache luc c.ip c.date_modified c.bytes c.hit).2) luc

/-! ## Calls as changes of one node -/

/-- A call as it is carried out: without an address or a date it is one for `0.0.0.0`. -/
def UserCall.read (c : UserCall) : UserCall :=
  if c.ip = [] ∨ c.date_modified ≤ 0 then
    { c with ip := ['0', '.', '0', '.', '0', '.', '0'], date_modified := 1 }
  else c

/-- What a call makes of the node of its client. -/
def UserCall.change (c : UserCall) (u : Usercache) : Usercache :=
  if c.hit then { u with date_modified := c.date_modified, bytes_requested := u.bytes_requested + c.bytes }
  else { u with date_modified := c.date_modified, bytes_acumulate := u.bytes_acumulate + c.bytes }

/-- The node of a client that had none. -/
def UserCall.new (c : UserCall) : Usercache where
  ip := c.ip
  date_downloaded := c.date_modified
  date_modified := c.date_modified
  bytes_requested := if c.hit then c.bytes else 0
  bytes_acumulate := if c.hit then 0 else c.bytes

theorem UserCall.change_ip (c : UserCall) (u : Usercache) : (c.change u).ip = u.ip := by
  unfold change
  split <;> rfl

theorem addUserCacheLoop_eq (c : UserCall) (luc : Lusercache) :
    addUserCacheLoop c.ip c.date_modified c.bytes c.hit luc =
      searchInsert Usercache.ip c.ip c.change c.new luc := by
  induction luc with
  | nil => rfl
  | cons it luc ih =>
    rw [addUserCacheLoop, searchInsert, ih]
    rfl

theorem addUserCache_eq (luc : Lusercache) (c : UserCall) :
    (addUserCache luc c.ip c.date_modified c.bytes c.hit).2 =
      searchInsert Usercache.ip c.read.ip c.read.change c.read.new luc := by
  unfold addUserCache UserCall.read
  split
  · exact addUserCacheLoop_eq { c with ip := ['0', '.', '0', '.', '0', '.', '0'], date_modified := 1 } luc
  · exact addUserCacheLoop_eq c luc

theorem addUserCaches_eq (luc : Lusercache) (calls : List UserCall) :
    addUserCaches luc calls = (calls.map UserCall.read).foldl
      (fun luc c => searchInsert Usercache.ip c.ip c.change c.new luc) luc := by
  induction calls generalizing luc with
  | nil => rfl
  | cons c calls ih =>
    have hstep := addUserCache_eq luc c
    rw [List.map_cons, List.foldl_cons, ← hstep]
    exact ih _

/-- A read call has an address and a date. -/
theorem UserCall.read_valid (c : UserCall) : c.read.ip ≠ [] ∧ 0 < c.read.date_modified := by
  unfold read
  split
  · exact ⟨by simp, show (0 : Int64) < 1 by decide⟩
  · rename_i h
    rw [not_or] at h
    have hdate := mt Int64.le_iff_toInt_le.mpr h.2
    exact ⟨h.1, Int64.lt_iff_toInt_lt.mpr (not_le.mp hdate)⟩

/-- A node of a list that was built by calls has an address of one of them, and dates. -/
structure BuiltFrom (calls : List UserCall) (u : Usercache) : Prop where
  ip : ∃ c ∈ calls, u.ip = c.read.ip
  date_downloaded : 0 < u.date_downloaded
  date_modified : 0 < u.date_modified

/-- One call. -/
theorem addUserCache_built {calls : List UserCall} {luc : Lusercache} {c : UserCall} (hc : c ∈ calls)
    (hluc : ∀ u ∈ luc, BuiltFrom calls u) :
    ∀ u ∈ (addUserCache luc c.ip c.date_modified c.bytes c.hit).2, BuiltFrom calls u := by
  intro u hu
  have hdate := c.read_valid.2
  rw [addUserCache_eq] at hu
  rcases mem_searchInsert hu with hu | rfl | ⟨v, hv, -, rfl⟩
  · exact hluc u hu
  · exact ⟨⟨c, hc, rfl⟩, hdate, hdate⟩
  · have hbuilt := hluc v hv
    refine ⟨(c.read.change_ip v).symm ▸ hbuilt.ip, ?_, ?_⟩
    · unfold UserCall.change
      split <;> exact hbuilt.date_downloaded
    · unfold UserCall.change
      split <;> exact hdate

/-- A run of calls from the empty list. -/
theorem addUserCaches_built (calls : List UserCall) :
    ∀ u ∈ addUserCaches [] calls, BuiltFrom calls u := by
  have hrun : ∀ rest luc, (∀ c ∈ rest, c ∈ calls) → (∀ u ∈ luc, BuiltFrom calls u) →
      ∀ u ∈ addUserCaches luc rest, BuiltFrom calls u := by
    intro rest
    induction rest with
    | nil => exact fun luc _ hluc => hluc
    | cons c rest ih =>
      intro luc hrest hluc
      have hstep := addUserCache_built (hrest c List.mem_cons_self) hluc
      exact ih _ (fun d hd => hrest d (List.mem_cons_of_mem c hd)) hstep
  exact hrun calls [] (fun c hc => hc) fun u hu => absurd hu List.not_mem_nil

theorem BuiltFrom.ip_ne_nil {calls : List UserCall} {u : Usercache} (h : BuiltFrom calls u) :
    u.ip ≠ [] := by
  obtain ⟨c, -, hip⟩ := h.ip
  rw [hip]
  exact c.read_valid.1

/-! ## Credit -/

/-- The node of a client. -/
def userOf (luc : Lusercache) (ip : Str) : Option Usercache := itemAt Usercache.ip luc ip

/-- The calls that are carried out for a client. -/
def callsFor (calls : List UserCall) (ip : Str) : List UserCall :=
  (calls.map UserCall.read).filter fun c => c.ip = ip

/-- The bytes of the calls with this `hit`. -/
def callBytes (hit : Bool) : List UserCall → Int
  | [] => 0
  | c :: calls => if c.hit = hit then c.bytes.toInt + callBytes hit calls else callBytes hit calls

/-- A 64-bit number has grown by `sum`, exactly when the result fits. -/
structure GrownBy (before after : Int64) (sum : Int) : Prop where
  value : after = Int64.ofInt (before.toInt + sum)
  exact_of_fits : -llongMax - 1 ≤ before.toInt + sum → before.toInt + sum ≤ llongMax →
    after.toInt = before.toInt + sum

theorem GrownBy.of_value {before after : Int64} {sum : Int}
    (h : after = Int64.ofInt (before.toInt + sum)) : GrownBy before after sum := by
  refine ⟨h, fun hmin hmax => ?_⟩
  have hlt : before.toInt + sum < 2 ^ 63 := by
    unfold llongMax at hmax
    omega
  rw [h, Int64.toInt_ofInt_of_le (by unfold llongMax at hmin; omega) hlt]

theorem GrownBy.refl (x : Int64) : GrownBy x x 0 :=
  .of_value (by rw [Int.add_zero, Int64.ofInt_toInt])

theorem GrownBy.trans {x y z : Int64} {s t : Int} (h : GrownBy x y s) (h' : GrownBy y z t) :
    GrownBy x z (s + t) := by
  refine .of_value ?_
  rw [h'.value, h.value, ← Int.add_assoc]
  exact Int64.toInt.inj (by simp)

theorem GrownBy.add (x y : Int64) : GrownBy x (x + y) y.toInt :=
  .of_value (Int64.toInt.inj (by simp))

/-- The item of a client that had one, after calls for it. -/
theorem foldl_changeItem_some (calls : List UserCall) (u : Usercache) :
    ∃ u', calls.foldl (changeItem UserCall.change UserCall.new) (some u) = some u' ∧
      u'.date_downloaded = u.date_downloaded ∧
      u'.date_modified = (calls.getLast?.elim u.date_modified (·.date_modified)) ∧
      GrownBy u.bytes_acumulate u'.bytes_acumulate (callBytes false calls) ∧
      GrownBy u.bytes_requested u'.bytes_requested (callBytes true calls) := by
  induction calls generalizing u with
  | nil => exact ⟨u, rfl, rfl, rfl, .refl _, .refl _⟩
  | cons c calls ih =>
    obtain ⟨u', hu', hdown, hmod, hacu, hreq⟩ := ih (c.change u)
    have hlast : (c :: calls).getLast?.elim u.date_modified (·.date_modified) =
        calls.getLast?.elim c.date_modified (·.date_modified) := by
      rw [List.getLast?_cons]
      cases calls.getLast? <;> rfl
    refine ⟨u', hu', ?_, ?_, ?_, ?_⟩
    · rw [hdown]
      unfold UserCall.change
      split <;> rfl
    · rw [hmod, hlast]
      unfold UserCall.change
      split <;> rfl
    · cases hhit : c.hit with
      | true =>
        rw [callBytes, if_neg (by simp [hhit])]
        simpa [UserCall.change, hhit] using hacu
      | false =>
        rw [callBytes, if_pos hhit]
        refine (GrownBy.add u.bytes_acumulate c.bytes).trans ?_
        simpa [UserCall.change, hhit] using hacu
    · cases hhit : c.hit with
      | true =>
        rw [callBytes, if_pos hhit]
        refine (GrownBy.add u.bytes_requested c.bytes).trans ?_
        simpa [UserCall.change, hhit] using hreq
      | false =>
        rw [callBytes, if_neg (by simp [hhit])]
        simpa [UserCall.change, hhit] using hreq

/-- A new node is one without bytes that the call has changed. -/
theorem UserCall.new_eq (c : UserCall) :
    c.new = c.change { ip := c.ip, date_downloaded := c.date_modified, date_modified := c.date_modified,
                       bytes_acumulate := 0, bytes_requested := 0 } := by
  unfold new change
  split <;> simp

/-- What becomes of a client in a run with calls for it. -/
theorem foldl_changeItem (calls : List UserCall) {c : UserCall} (item : Option Usercache)
    (hc : calls.head? = some c) :
    ∃ u', calls.foldl (changeItem UserCall.change UserCall.new) item = some u' ∧
      u'.date_downloaded = item.elim c.date_modified (·.date_downloaded) ∧
      u'.date_modified = calls.getLast?.elim c.date_modified (·.date_modified) ∧
      GrownBy (item.elim 0 (·.bytes_acumulate)) u'.bytes_acumulate (callBytes false calls) ∧
      GrownBy (item.elim 0 (·.bytes_requested)) u'.bytes_requested (callBytes true calls) := by
  obtain ⟨rest, rfl⟩ := List.head?_eq_some_iff.mp hc
  -- a client without a node has the node without bytes before the first call
  let before : Usercache := item.getD
    { ip := c.ip, date_downloaded := c.date_modified, date_modified := c.date_modified,
      bytes_acumulate := 0, bytes_requested := 0 }
  have hfirst : changeItem UserCall.change UserCall.new item c =
      changeItem UserCall.change UserCall.new (some before) c := by
    cases item with
    | none => exact congrArg some c.new_eq
    | some u => rfl
  obtain ⟨u', hu', hdown, hmod, hacu, hreq⟩ := foldl_changeItem_some (c :: rest) before
  refine ⟨u', ?_, ?_, ?_, ?_, ?_⟩
  · rw [List.foldl_cons, hfirst]
    exact hu'
  · rw [hdown]
    cases item <;> rfl
  · rw [hmod, List.getLast?_cons]
    rfl
  · cases item <;> exact hacu
  · cases item <;> exact hreq

/-- **Traffic is credited once per client.** -/
theorem addUserCaches_credit {luc : Lusercache} (hluc : (luc.map Usercache.ip).Nodup)
    (calls : List UserCall) :
    ((addUserCaches luc calls).map Usercache.ip).Nodup ∧
    ∀ ip,
      (callsFor calls ip = [] → userOf (addUserCaches luc calls) ip = userOf luc ip) ∧
      ∀ first last, (callsFor calls ip).head? = some first → (callsFor calls ip).getLast? = some last →
        ∃ u, userOf (addUserCaches luc calls) ip = some u ∧
          u.date_downloaded = (userOf luc ip).elim first.date_modified (·.date_downloaded) ∧
          u.date_modified = last.date_modified ∧
          GrownBy ((userOf luc ip).elim 0 (·.bytes_acumulate)) u.bytes_acumulate
            (callBytes false (callsFor calls ip)) ∧
          GrownBy ((userOf luc ip).elim 0 (·.bytes_requested)) u.bytes_requested
            (callBytes true (callsFor calls ip)) := by
  have hchange : ∀ (c : UserCall) (u : Usercache), u.ip = c.ip → (c.change u).ip = c.ip :=
    fun c u h => (c.change_ip u).trans h
  have hitem : ∀ ip, userOf (addUserCaches luc calls) ip =
      (callsFor calls ip).foldl (changeItem UserCall.change UserCall.new) (userOf luc ip) := by
    intro ip
    rw [userOf, addUserCaches_eq]
    exact itemAt_foldl hchange (fun _ => rfl) _ luc ip
  refine ⟨?_, fun ip => ⟨fun hnone => ?_, fun first last hfirst hlast => ?_⟩⟩
  · rw [addUserCaches_eq]
    exact nodup_foldl hchange (fun _ => rfl) _ hluc
  · rw [hitem, hnone]
    rfl
  · obtain ⟨u, hu, hdown, hmod, hacu, hreq⟩ := foldl_changeItem _ (userOf luc ip) hfirst
    rw [hlast] at hmod
    exact ⟨u, (hitem ip).trans hu, hdown, hmod, hacu, hreq⟩

/-- Two transfers to a new client. -/
theorem addUserCaches_credit_two :
    ∃ u, userOf (addUserCaches [] [⟨['a'], 5, 10, false⟩, ⟨['a'], 7, 20, false⟩]) ['a'] = some u ∧
      u.date_downloaded = 5 ∧ u.date_modified = 7 ∧ u.bytes_acumulate = 30 := by
  have hnil : (([] : Lusercache).map Usercache.ip).Nodup := List.nodup_nil
  obtain ⟨-, h⟩ := addUserCaches_credit hnil [⟨['a'], 5, 10, false⟩, ⟨['a'], 7, 20, false⟩]
  obtain ⟨u, hu, hdown, hmod, hacu, -⟩ :=
    (h ['a']).2 ⟨['a'], 5, 10, false⟩ ⟨['a'], 7, 20, false⟩ rfl rfl
  exact ⟨u, hu, hdown, hmod, hacu.value.trans (by decide)⟩

end Haarp
