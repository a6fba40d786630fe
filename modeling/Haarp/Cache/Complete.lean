import Haarp.Cache.Delivery
import Haarp.Proxy.Relay
import Haarp.Utils.LongLong

/-!
# Complete downloads

`ToServer` is the state behind `ToServer.ReadBodyPart` while a body is transferred: the session, the
cache file, and the pieces of the body that the server has sent and nobody has read. The relay of
`CommunicationHTTP` calls `ToServer.readBodyPart` until the announced length is reached.

A complete download is kept exactly when the plan of the request is as long as the response, which
`planEnd` decides (`completed_download_kept`).
-/

namespace Haarp

open Base

def ToServer.update (db : Db) (s : ToServer) : ToServer := { s with t := Haarp.update db s.t }

/-! ## A download -/

/-- A download of the session `t₀` after `k` bytes. Nothing of the bytes matters here but that they are
in the file. -/
structure ToServer.Downloading (t₀ : Transfer) (range_min e : Int) (s : ToServer) (k : Int) : Prop where
  going : s.Going (fun _ => ()) (fun _ => ()) range_min e k
  grows : Grows range_min e t₀.lranges s.t.lranges
  frame : Frame t₀ s.t
  tells : ∀ st ∈ s.t.log, ∃ key l, Tells key l st.1

/-- Each call of a download delivers a part of the body, unless the plan is not as long as the
response. -/
theorem downloading_delivers (db : Db) (clock : Nat → Int) {t₀ : Transfer} {range_min e : Int}
    (hmatch : t₀.r.isMatch = true) (hhit : t₀.hit = false) (hle : e ≤ range_min + t₀.filesizeneto) :
    Delivers (ToServer.readBodyPart db clock) (ToServer.Downloading t₀ range_min e)
      (range_min + t₀.filesizeneto ≠ e) t₀.filesizeneto := by
  rintro s k ⟨going, grows, frame, tells⟩ hk
  rw [← frame.r] at hmatch
  rw [← frame.hit] at hhit
  rw [← frame.filesizeneto] at hk hle ⊢
  obtain ⟨n, b, s', hcall, hfailed | hmoves⟩ := going.call db clock hmatch hhit hk hle
  · exact ⟨n, b, s', hcall, .inl hfailed⟩
  · exact ⟨n, b, s', hcall, .inr ⟨hmoves.positive, hmoves.bound, hmoves.going,
      grows.trans hmoves.grows, frame.trans hmoves.frame, hmoves.logged.tells tells⟩⟩

/-! ## What is recorded -/

/-- The members of the connection when the plan of a request is made, with the plan as the machine
computes it. -/
def Transfer.startLL (r : Resposta) (l : LintervalPositionByteDisk) (range_min range_max now : Int) :
    Transfer :=
  let (lrangeswork, hit) := getRangeWorkLL l range_min range_max
  { Transfer.start r l range_min range_max now with brange := lrangeswork, hit }

theorem Transfer.startLL_eq {l : LintervalPositionByteDisk} {range_min range_max : Int}
    (h : getRangeWorkLL l range_min range_max = getRangeWork l range_min range_max) (r : Resposta)
    (now : Int) :
    Transfer.startLL r l range_min range_max now = .start r l range_min range_max now := by
  rw [Transfer.startLL, h]
  rfl

/-- The relay of a body for the session `t`, to a browser that takes all of it. -/
def download (clock : Nat → Int) (fuel : Nat) (t : Transfer) (file : Str) (pieces : List Str) :
    Option (Int × Relay ToServer) :=
  relay (ToServer.readBodyPart succeeds clock) (ToServer.update succeeds) (fun _ _ => true)
    t.filesizeneto true fuel
    { ToServer := { t, file, pieces, calls := 0 }, sent := [], ContentLength := 0
      DropServer := false, DropBrowser := false, BrowserDropped := false }

/-- No call failed, and the row records a list that holds every byte of `l` and of the request, for
which the request is a hit. -/
def Kept (tb : Table) (key : Key) (now : Int) (l : LintervalPositionByteDisk)
    (range_min range_max : Int) (out : Option (Int × Relay ToServer)) : Prop :=
  ∃ y l', out = some (0, y) ∧ (tb.run now y.ToServer.t.log).columns key = list2string l' ∧
    (∀ n, n ∈ storedBytes l ∨ (range_min ≤ n ∧ n ≤ range_max) → n ∈ storedBytes l') ∧
    ∀ l'', l''.Perm l' → (getRangeWorkLL l'' range_min range_max).2 = true

section Recorded

variable {l : LintervalPositionByteDisk} {r : Resposta} {range_min range_max start now : Int}
  {tb : Table}

/-- What `Update` records of a complete download. -/
theorem ToServer.Downloading.kept (hl : WellFormed l) (hfits : ∀ x ∈ l, x.b < llongMax)
    (hmatch : r.isMatch = true) (h₀ : 0 ≤ range_min) (hle : range_min ≤ range_max)
    (hmax : range_max < llongMax)
    (hmiss : (getRangeWork l range_min range_max).2 = false) (hrow : (tb r.key).isSome)
    {s : ToServer} (h : s.Downloading (.start r l range_min range_max start) range_min
      (planEnd l range_min range_max) (range_max - range_min + 1)) {y : Relay ToServer}
    (hy : y.ToServer = s.update succeeds) :
    planEnd l range_min range_max = range_max + 1 ∧
      Kept tb r.key now l range_min range_max (some (0, y)) := by
  obtain ⟨going, grows, frame, tells⟩ := h
  have hneto : s.t.filesizeneto = range_max - range_min + 1 := frame.filesizeneto
  have hend : ∀ l', planEnd l' range_min range_max ≤ range_max + 1 := by
    intro l'
    rw [planEnd]
    split <;> omega
  cases going with
  | receiving miss unfailed waits sent nonempty carries size =>
    have := waits.more
    have := hend l
    omega
  | serving turned serves sent =>
    have := serves.inside.more
    have := hend l
    omega
  | complete settled covered sent whole =>
    have hperm := sortIntervals_perm l
    have hwf := grows.wellFormed (hl.perm hperm.symm)
    have hr : s.t.r = r := frame.r
    have hall : ∀ n, n ∈ storedBytes l ∨ (range_min ≤ n ∧ n ≤ range_max) →
        n ∈ storedBytes s.t.lranges := by
      rintro n (hn | hn)
      · refine grows.stored (hl.perm hperm.symm) ?_
        obtain ⟨p, hp⟩ := exists_placed hn
        exact ((placed_perm hperm).mpr hp).stored
      · exact covered n hn.1 (by omega)
    refine ⟨by omega, y, s.t.lranges, rfl, ?_, hall, fun l'' hl'' => ?_⟩
    · have hholding : Holding s.t :=
        ⟨by rw [hr]; exact hmatch, frame.exists_transaction, frame.was_liberate, frame.hasupdate,
          frame.connected⟩
      rw [hy, ToServer.update, update_miss hholding (frame.hit.trans hmiss), Transfer.recordStmt,
        appendCurrent_r, hr, appendCurrent_settled settled]
      exact run_record_columns now hrow tells _ _ _ _ (by simp)
    · have hstored : StoredList l'' := hwf.toStoredList.perm hl''.symm
      have hbelow : ∀ x ∈ l'', x.b < llongMax := by
        intro x hx
        have hb := (hstored.bounds x hx).2.1
        rcases grows.gained (hl.perm hperm.symm) ⟨x, hl''.mem_iff.mp hx, hb, le_rfl⟩ with hold | hnew
        · obtain ⟨y, hy, -, hyb⟩ := hold
          have := hfits y (hperm.mem_iff.mp hy)
          omega
        · have := hend l
          omega
      have hno : ¬ Overflows l'' range_min range_max := by
        rintro ⟨x, hx, hxb, -⟩
        have := hbelow x hx
        omega
      rw [getRangeWorkLL_eq hstored (fun x hx => (hbelow x hx).le) h₀ hle hmax.le]
      simp only [hno, decide_false, Bool.not_false, Bool.and_true]
      rw [getRangeWork_hit hstored h₀ hle]
      intro n hn hn'
      have := hend l''
      obtain ⟨p, hp⟩ := exists_placed (hall n (.inr ⟨hn, by omega⟩))
      exact ((placed_perm hl'').mpr hp).stored

/-- **A complete download is kept**, unless the request ends one byte behind the last stored byte. -/
theorem completed_download_kept (hl : WellFormed l) (hfits : ∀ x ∈ l, x.b < llongMax)
    (hmatch : r.isMatch = true) (h₀ : 0 ≤ range_min) (hle : range_min ≤ range_max)
    (hmax : range_max < llongMax) (hmiss : (getRangeWorkLL l range_min range_max).2 = false)
    {file : Str} (hfile : ∀ x ∈ l, x.lastPosition < file.length) (hlong : file.length ≤ llongMax)
    {pieces : List Str} (hne : ∀ d ∈ pieces, d ≠ [])
    (hsize : ((pieces.map List.length).sum : Int) = range_max - range_min + 1) (clock : Nat → Int)
    (start now : Int) (hrow : (tb r.key).isSome) {fuel : Nat}
    (hfuel : (range_max - range_min + 1).toNat ≤ fuel) :
    Kept tb r.key now l range_min range_max
        (download clock fuel (.startLL r l range_min range_max start) file pieces) ↔
      ¬ (range_min < range_max ∧ getExtremeb l = range_max - 1) := by
  have hplan : getRangeWorkLL l range_min range_max = getRangeWork l range_min range_max := by
    refine getRangeWorkLL_of_below hl.toStoredList hfits (fun x hx => ?_) h₀ hle hmax.le
    have hlast := hfile x hx
    rw [IntervalPositionByteDisk.lastPosition] at hlast
    omega
  rw [hplan] at hmiss
  rw [Transfer.startLL_eq hplan]
  have hholds := holds_of_length hl hfile
  have hbound : planEnd l range_min range_max ≤ range_min + (range_max - range_min + 1) := by
    rw [planEnd]
    split <;> omega
  have hwhole : range_min + (range_max - range_min + 1) = planEnd l range_min range_max ↔
      ¬ (range_min < range_max ∧ getExtremeb l = range_max - 1) := by
    rw [planEnd]
    split <;> omega
  have hdelivers : Delivers (ToServer.readBodyPart succeeds clock)
      (ToServer.Downloading (.start r l range_min range_max start) range_min
        (planEnd l range_min range_max))
      (range_min + (range_max - range_min + 1) ≠ planEnd l range_min range_max)
      (Transfer.start r l range_min range_max start).filesizeneto :=
    downloading_delivers succeeds clock hmatch hmiss hbound
  obtain ⟨⟨answer, y⟩, hout, hspec⟩ := @relay_spec _ _ (ToServer.update succeeds)
    (fun _ _ => true) _ _ _ hdelivers (fun _ _ => rfl) fuel
    { ToServer := { t := .start r l range_min range_max start, file, pieces, calls := 0 }, sent := []
      ContentLength := 0, DropServer := false, DropBrowser := false, BrowserDropped := false }
    ⟨.receiving rfl rfl (start_receiving hl hholds r start h₀ hle) rfl hne (carries_unit _ _)
      (by rw [List.length_flatten]; simp only [Transfer.start]; omega), .refl, .refl _,
      by simp [Transfer.start]⟩
    (by simp only [Transfer.start]; omega) hfuel
  rw [download, hout, ← hwhole]
  cases hspec with
  | complete s delivered toServer dropServer dropBrowser =>
    obtain ⟨hend, hkept⟩ := delivered.kept hl hfits hmatch h₀ hle hmax hmiss hrow toServer
    exact iff_of_true hkept (by omega)
  | failed answer negative reason dropServer =>
    refine iff_of_false ?_ reason
    rintro ⟨y', l', hsome, -⟩
    cases hsome
    omega

end Recorded

theorem completed_download_kept_ten :
    Kept (fun _ => some (Row.inserted 0)) ⟨[], ['f']⟩ 0 [⟨5, 9, 0⟩] 0 9
      (download (fun _ => 0) 10 (.startLL ⟨true, [], ['f'], 0, 0, 0, false⟩ [⟨5, 9, 0⟩] 0 9 0)
        (List.replicate 5 'x') [List.replicate 5 'y', List.replicate 5 'x']) :=
  (completed_download_kept (r := ⟨true, [], ['f'], 0, 0, 0, false⟩) (by decide) (by decide) rfl
    (by decide) (by decide) (by decide) (by decide) (by decide) (by decide) (by decide) (by decide)
    (fun _ => 0) 0 0 rfl (by decide)).mpr (by decide)

/-- Bytes 5 to 9 are stored. A request for bytes 0 to 10 is planned without byte 10, and the piece
that brings them is refused. -/
theorem completed_download_lost :
    WellFormed [⟨5, 9, 0⟩] ∧ (getRangeWorkLL [⟨5, 9, 0⟩] 0 10).2 = false ∧
      ¬ Kept (fun _ => some (Row.inserted 0)) ⟨[], ['f']⟩ 0 [⟨5, 9, 0⟩] 0 10
        (download (fun _ => 0) 11 (.startLL ⟨true, [], ['f'], 0, 0, 0, false⟩ [⟨5, 9, 0⟩] 0 10 0)
          (List.replicate 5 'x') [List.replicate 11 'y']) := by
  refine ⟨by decide, by decide, ?_⟩
  rintro ⟨y, l', hout, -⟩
  have hanswer : (download (fun _ => 0) 11
      (.startLL ⟨true, [], ['f'], 0, 0, 0, false⟩ [⟨5, 9, 0⟩] 0 10 0) (List.replicate 5 'x')
      [List.replicate 11 'y']).map Prod.fst = some (-74) := by decide +kernel
  rw [hout] at hanswer
  cases hanswer

end Haarp
