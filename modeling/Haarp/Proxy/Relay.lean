import Haarp.Utils.Strings

/-!
# The relay of a body

The part of `ProxyHandler::CommunicationHTTP` that moves the body of a response from `ToServer` to
the browser. `ToServer` is any state with the two functions that the loop calls: `readBodyPart`,
which gives the value of the call and the piece it leaves in `BodyTemp`, and `update`. What the
browser takes is up to the environment: `header` is the outcome of `ToBrowser.SendHeader`, and `send`
the one of `ToBrowser.Send`, given the pieces sent before.

`relay_spec` is the rule for a body of which each read delivers a part, up to a failure. `relay_ends`
is the rule for what each read keeps, whatever it yields, and `relay_kept` the one for a relay that
keeps both connections. `relay_first` is what the first read can do, and `relayLoop_turn` what one turn
of the loop can.
-/

namespace Haarp

/-- The variables of `CommunicationHTTP` while a body is relayed. -/
structure Relay (σ : Type) where
  ToServer : σ
  sent : List Str
  ContentLength : Int
  DropServer : Bool
  DropBrowser : Bool
  BrowserDropped : Bool

section Loop

variable {σ : Type} (readBodyPart : σ → Option (Int × Str × σ)) (update : σ → σ)
  (send : List Str → Str → Bool) (ContentLengthReference : Int)

/-- What is received beyond the announced length is discarded; `none` where `erase` is outside the
piece. -/
def discard (y : Relay σ) (BodyTemp : Str) : Option (Relay σ × Str) :=
  if ContentLengthReference > 0 ∧ y.ContentLength > ContentLengthReference then
    let rest := (y.ContentLength - ContentLengthReference).toNat
    if BodyTemp.length < rest then none
    else
      some ({ y with ContentLength := ContentLengthReference, DropServer := true },
        BodyTemp.take (BodyTemp.length - rest))
  else some (y, BodyTemp)

/-- The body loop of `CommunicationHTTP`, with the `Update` that follows it. -/
def relayLoop : Nat → Relay σ → Str → Option (Int × Relay σ)
  | 0, _, _ => none
  | fuel + 1, y, BodyTemp =>
    (discard ContentLengthReference y BodyTemp).bind fun (y, BodyTemp) =>
      if ¬ send y.sent BodyTemp then
        some (-10, { y with BrowserDropped := true, ToServer := update y.ToServer })
      else
        let y := { y with sent := y.sent ++ [BodyTemp] }
        if y.ContentLength = ContentLengthReference then
          some (0, { y with ToServer := update y.ToServer })
        else
          (readBodyPart y.ToServer).bind fun (BodyLength, BodyTemp, ToServer) =>
            if BodyLength < 0 then
              some (-75, { y with DropServer := true, ToServer := update ToServer })
            else if BodyLength = 0 then
              let short := decide (y.ContentLength < ContentLengthReference)
              some (0, { y with DropBrowser := y.DropBrowser || short, ToServer := update ToServer })
            else
              let y := { y with ToServer, ContentLength := y.ContentLength + BodyLength }
              relayLoop fuel y BodyTemp

/-- The end of `CommunicationHTTP`, from the first read of the body on. -/
def relay (header : Bool) (fuel : Nat) (y : Relay σ) : Option (Int × Relay σ) :=
  (readBodyPart y.ToServer).bind fun (BodyLength, BodyTemp, ToServer) =>
    let y := { y with ToServer }
    if BodyLength < 0 then some (-74, { y with DropServer := true })
    else
      let y := { y with DropBrowser := y.DropBrowser || decide (BodyLength = 0) }
      if ¬ header then some (-10, { y with BrowserDropped := true })
      else if BodyLength = 0 then some (0, y)
      else
        let y := { y with ContentLength := BodyLength }
        relayLoop readBodyPart update send ContentLengthReference fuel y BodyTemp

end Loop

/-! ## The rule of the loop -/

/-- How the relay ends when the browser takes everything: the whole body is delivered (`I` holds with
the announced length) and `Update` follows, or a read has failed, for the reason `F`. -/
inductive RelaySpec {σ : Type} (update : σ → σ) (I : σ → Int → Prop) (F : Prop) (ref : Int)
    (y : Relay σ) : Int × Relay σ → Prop
  | complete {y' : Relay σ} (s : σ) (delivered : I s ref) (toServer : y'.ToServer = update s)
      (dropServer : y'.DropServer = y.DropServer) (dropBrowser : y'.DropBrowser = y.DropBrowser) :
      RelaySpec update I F ref y (0, y')
  | failed {y' : Relay σ} (answer : Int) (negative : answer < 0) (reason : F)
      (dropServer : y'.DropServer = true) : RelaySpec update I F ref y (answer, y')

section Rule

variable {σ : Type} {readBodyPart : σ → Option (Int × Str × σ)} {update : σ → σ}
  {send : List Str → Str → Bool} {ref : Int} {I : σ → Int → Prop}
  {F : Prop}

theorem discard_of_le {y : Relay σ} (h : y.ContentLength ≤ ref) (BodyTemp : Str) :
    discard ref y BodyTemp = some (y, BodyTemp) := by
  unfold discard
  rw [if_neg (by omega)]

/-- Each read delivers a part of the body, or fails for the reason `F`. -/
def Delivers (readBodyPart : σ → Option (Int × Str × σ)) (I : σ → Int → Prop) (F : Prop) (ref : Int) :
    Prop :=
  ∀ s k, I s k → k < ref → ∃ n b s', readBodyPart s = some (n, b, s') ∧
    ((n < 0 ∧ F) ∨ (0 < n ∧ k + n ≤ ref ∧ I s' (k + n)))

theorem relayLoop_spec (hread : Delivers readBodyPart I F ref) (hsend : ∀ sent b, send sent b = true)
    (fuel : Nat) (y : Relay σ) (BodyTemp : Str) (hI : I y.ToServer y.ContentLength)
    (hle : y.ContentLength ≤ ref) (hfuel : (ref - y.ContentLength).toNat < fuel) :
    ∃ out, relayLoop readBodyPart update send ref fuel y BodyTemp = some out ∧
      RelaySpec update I F ref y out := by
  induction fuel generalizing y BodyTemp with
  | zero => omega
  | succ fuel ih =>
    simp only [relayLoop, discard_of_le hle, Option.bind_some, hsend, not_true_eq_false, if_false]
    by_cases hend : y.ContentLength = ref
    · rw [if_pos hend]
      exact ⟨_, rfl, .complete y.ToServer (hend ▸ hI) rfl rfl rfl⟩
    · rw [if_neg hend]
      obtain ⟨n, b, s', hr, hn⟩ := hread y.ToServer y.ContentLength hI (by omega)
      rw [hr, Option.bind_some]
      rcases hn with ⟨hneg, hF⟩ | ⟨hpos, hn, hI'⟩
      · rw [if_pos hneg]
        exact ⟨_, rfl, .failed (-75) (by decide) hF rfl⟩
      · rw [if_neg (by omega), if_neg (by omega)]
        obtain ⟨out, hout, hspec⟩ := ih
          { y with ToServer := s', sent := y.sent ++ [BodyTemp], ContentLength := y.ContentLength + n }
          b hI' hn (by simp only; omega)
        refine ⟨out, hout, ?_⟩
        cases hspec with
        | complete s delivered toServer dropServer dropBrowser =>
          exact .complete s delivered toServer dropServer dropBrowser
        | failed answer negative reason dropServer => exact .failed answer negative reason dropServer

/-- **The rule of the relay**: when each read delivers a part of the body or fails, the whole body
is relayed or a read has failed; one turn of the loop for each byte is enough. -/
theorem relay_spec (hread : Delivers readBodyPart I F ref) (hsend : ∀ sent b, send sent b = true)
    {fuel : Nat} (y : Relay σ) (hI : I y.ToServer 0) (href : 0 < ref) (hfuel : ref.toNat ≤ fuel) :
    ∃ out, relay readBodyPart update send ref true fuel y = some out ∧
      RelaySpec update I F ref y out := by
  obtain ⟨n, b, s', hr, hn⟩ := hread y.ToServer 0 hI href
  simp only [relay, hr, Option.bind_some]
  rcases hn with ⟨hneg, hF⟩ | ⟨hpos, hn, hI'⟩
  · rw [if_pos hneg]
    exact ⟨_, rfl, .failed (-74) (by decide) hF rfl⟩
  · have hnz : n ≠ 0 := by omega
    rw [if_neg (by omega)]
    simp only [hnz, decide_false, Bool.or_false, not_true_eq_false, if_false]
    rw [Int.zero_add] at hn hI'
    obtain ⟨out, hout, hspec⟩ := @relayLoop_spec _ _ update _ _ _ _ hread hsend fuel
      { y with ToServer := s', ContentLength := n } b hI' hn (by simp only; omega)
    refine ⟨out, hout, ?_⟩
    cases hspec with
    | complete s delivered toServer dropServer dropBrowser =>
      exact .complete s delivered toServer dropServer dropBrowser
    | failed answer negative reason dropServer => exact .failed answer negative reason dropServer

/-! ## One turn of the loop -/

theorem discard_cases {y y' : Relay σ} {BodyTemp BodyTemp' : Str}
    (h : discard ref y BodyTemp = some (y', BodyTemp')) :
    (y = y' ∧ ¬ (ref > 0 ∧ y.ContentLength > ref)) ∨
      y' = { y with ContentLength := ref, DropServer := true } := by
  unfold discard at h
  split at h
  · dsimp only at h
    split at h <;> cases h
    exact .inr rfl
  · next hle =>
    cases h
    exact .inl ⟨rfl, hle⟩

/-- How a turn of the loop ends, where `loop` is the rest of it: the browser takes no more, the
announced length is reached or exceeded, a read fails or yields nothing, or the loop goes on. -/
inductive RelayTurn (readBodyPart : σ → Option (Int × Str × σ)) (update : σ → σ) (ref : Int)
    (loop : Relay σ → Str → Option (Int × Relay σ)) (y : Relay σ) : Int × Relay σ → Prop
  | dropped {y' : Relay σ} (toServer : y'.ToServer = update y.ToServer) :
      RelayTurn readBodyPart update ref loop y (-10, y')
  | reached {y' : Relay σ} (length : y.ContentLength = ref)
      (toServer : y'.ToServer = update y.ToServer) (dropServer : y'.DropServer = y.DropServer)
      (dropBrowser : y'.DropBrowser = y.DropBrowser) : RelayTurn readBodyPart update ref loop y (0, y')
  | exceeded {y' : Relay σ} (toServer : y'.ToServer = update y.ToServer)
      (dropServer : y'.DropServer = true) (dropBrowser : y'.DropBrowser = y.DropBrowser) :
      RelayTurn readBodyPart update ref loop y (0, y')
  | failed {n : Int} {b : Str} {s' : σ} {y' : Relay σ}
      (read : readBodyPart y.ToServer = some (n, b, s')) (toServer : y'.ToServer = update s') :
      RelayTurn readBodyPart update ref loop y (-75, y')
  | nothing {b : Str} {s' : σ} {y' : Relay σ} (more : y.ContentLength ≠ ref)
      (fits : ¬ (ref > 0 ∧ y.ContentLength > ref))
      (read : readBodyPart y.ToServer = some (0, b, s')) (toServer : y'.ToServer = update s')
      (dropServer : y'.DropServer = y.DropServer)
      (dropBrowser : y'.DropBrowser = (y.DropBrowser || decide (y.ContentLength < ref))) :
      RelayTurn readBodyPart update ref loop y (0, y')
  | goesOn {n : Int} {b : Str} {s' : σ} {sent : List Str} {out : Int × Relay σ}
      (more : y.ContentLength ≠ ref) (fits : ¬ (ref > 0 ∧ y.ContentLength > ref))
      (read : readBodyPart y.ToServer = some (n, b, s')) (part : 0 < n)
      (rest : loop { y with ToServer := s', sent, ContentLength := y.ContentLength + n } b = some out) :
      RelayTurn readBodyPart update ref loop y out

theorem relayLoop_turn {fuel : Nat} {y : Relay σ} {BodyTemp : Str} {out : Int × Relay σ}
    (h : relayLoop readBodyPart update send ref (fuel + 1) y BodyTemp = some out) :
    RelayTurn readBodyPart update ref (relayLoop readBodyPart update send ref fuel) y out := by
  obtain ⟨⟨y₁, BodyTemp₁⟩, hdiscard, hturn⟩ := Option.bind_eq_some_iff.mp h
  rcases discard_cases hdiscard with ⟨rfl, hle⟩ | rfl
  · dsimp only at hturn
    split at hturn
    · cases hturn
      exact .dropped rfl
    · split at hturn
      · next hend =>
        cases hturn
        exact .reached hend rfl rfl rfl
      · next hne =>
        obtain ⟨⟨n, b, s'⟩, hr, hturn⟩ := Option.bind_eq_some_iff.mp hturn
        dsimp only at hturn
        split at hturn
        · cases hturn
          exact .failed hr rfl
        · next hn =>
          split at hturn
          · next hzero =>
            subst hzero
            cases hturn
            exact .nothing hne hle hr rfl rfl rfl
          · next hnz => exact .goesOn hne hle hr (by omega) hturn
  · -- more is received than announced, and the loop ends with this piece
    dsimp only at hturn
    split at hturn
    · cases hturn
      exact .dropped rfl
    · rw [if_pos rfl] at hturn
      cases hturn
      exact .exceeded rfl rfl rfl

/-- How the first read ends, where `loop` is the loop behind it: the read fails, the browser has not
taken the header, there is no body, or the loop begins. -/
inductive RelayFirst (readBodyPart : σ → Option (Int × Str × σ))
    (loop : Relay σ → Str → Option (Int × Relay σ)) (y : Relay σ) : Int × Relay σ → Prop
  | failed {n : Int} {b : Str} {y' : Relay σ}
      (read : readBodyPart y.ToServer = some (n, b, y'.ToServer)) :
      RelayFirst readBodyPart loop y (-74, y')
  | header {n : Int} {b : Str} {y' : Relay σ}
      (read : readBodyPart y.ToServer = some (n, b, y'.ToServer)) :
      RelayFirst readBodyPart loop y (-10, y')
  | nothing {b : Str} {y' : Relay σ} (read : readBodyPart y.ToServer = some (0, b, y'.ToServer))
      (dropBrowser : y'.DropBrowser = true) : RelayFirst readBodyPart loop y (0, y')
  | goesOn {n : Int} {b : Str} {s' : σ} {out : Int × Relay σ}
      (read : readBodyPart y.ToServer = some (n, b, s')) (part : 0 < n)
      (rest : loop { y with ToServer := s', ContentLength := n } b = some out) :
      RelayFirst readBodyPart loop y out

theorem relay_first {header : Bool} {fuel : Nat} {y : Relay σ} {out : Int × Relay σ}
    (h : relay readBodyPart update send ref header fuel y = some out) :
    RelayFirst readBodyPart (relayLoop readBodyPart update send ref fuel) y out := by
  obtain ⟨⟨n, b, s'⟩, hr, h⟩ := Option.bind_eq_some_iff.mp h
  dsimp only at h
  split at h
  · cases h
    exact .failed hr
  · next hn =>
    split at h
    · cases h
      exact .header hr
    · split at h
      · next hzero =>
        subst hzero
        cases h
        exact .nothing hr (by simp)
      · next hnz =>
        rw [decide_eq_false hnz, Bool.or_false] at h
        exact .goesOn hr (by omega) h

/-! ## What every relay keeps -/

/-- How a relay ends, when `J` holds of the state and the length so far: it fails, or it drops the
browser, or `Update` follows; the announced length is reached then, unless the server is dropped. -/
inductive RelayEnds {σ : Type} (update : σ → σ) (J : σ → Int → Prop) (ref : Int) (y : Relay σ) :
    Int × Relay σ → Prop
  | failed {y' : Relay σ} (answer : Int) (negative : answer = -10 ∨ answer = -74 ∨ answer = -75) :
      RelayEnds update J ref y (answer, y')
  | dropped {y' : Relay σ} (dropBrowser : y'.DropBrowser = true) : RelayEnds update J ref y (0, y')
  | done {y' : Relay σ} (s : σ) (k : Int) (read : J s k) (toServer : y'.ToServer = update s)
      (length : k = ref ∨ y'.DropServer = true ∨ ref ≤ 0)
      (dropServer : y.DropServer = true → y'.DropServer = true)
      (dropBrowser : y.DropBrowser = true → y'.DropBrowser = true) : RelayEnds update J ref y (0, y')

/-- What a relay comes to that starts with the state of another one, or has dropped more. -/
theorem RelayEnds.mono {J : σ → Int → Prop} {y₁ y₂ : Relay σ} {out : Int × Relay σ}
    (h : RelayEnds update J ref y₁ out) (hserver : y₂.DropServer = true → y₁.DropServer = true)
    (hbrowser : y₂.DropBrowser = true → y₁.DropBrowser = true) : RelayEnds update J ref y₂ out := by
  cases h with
  | failed answer negative => exact .failed answer negative
  | dropped dropBrowser => exact .dropped dropBrowser
  | done s k read toServer length dropServer dropBrowser =>
    exact .done s k read toServer length (fun h => dropServer (hserver h))
      (fun h => dropBrowser (hbrowser h))

/-- A relay that keeps the browser, and does not fail. -/
theorem RelayEnds.updated {J : σ → Int → Prop} {y y' : Relay σ} (h : RelayEnds update J ref y (0, y'))
    (hbrowser : y'.DropBrowser = false) :
    ∃ s k, J s k ∧ y'.ToServer = update s ∧ (y.DropServer = true → y'.DropServer = true) := by
  cases h with
  | failed answer negative => rcases negative with h | h | h <;> cases h
  | dropped dropBrowser =>
    rw [dropBrowser] at hbrowser
    cases hbrowser
  | done s k read toServer length dropServer dropBrowser => exact ⟨s, k, read, toServer, dropServer⟩

variable {J : σ → Int → Prop}

/-- Each read that does not fail keeps `J`. -/
def Reading (readBodyPart : σ → Option (Int × Str × σ)) (J : σ → Int → Prop) : Prop :=
  ∀ s k n b s', J s k → readBodyPart s = some (n, b, s') → 0 ≤ n → J s' (k + n)

theorem relayLoop_ends (hread : Reading readBodyPart J) (fuel : Nat) (y : Relay σ) (BodyTemp : Str)
    (hJ : J y.ToServer y.ContentLength) {out : Int × Relay σ}
    (h : relayLoop readBodyPart update send ref fuel y BodyTemp = some out) :
    RelayEnds update J ref y out := by
  induction fuel generalizing y BodyTemp with
  | zero => cases h
  | succ fuel ih =>
    cases relayLoop_turn h with
    | dropped toServer => exact .failed (-10) (.inl rfl)
    | reached length toServer dropServer dropBrowser =>
      exact .done y.ToServer y.ContentLength hJ toServer (.inl length) (fun h => dropServer.trans h)
        (fun h => dropBrowser.trans h)
    | exceeded toServer dropServer dropBrowser =>
      exact .done y.ToServer y.ContentLength hJ toServer (.inr (.inl dropServer)) (fun _ => dropServer)
        (fun h => dropBrowser.trans h)
    | failed read toServer => exact .failed (-75) (.inr (.inr rfl))
    | @nothing b s' y' more fits read toServer dropServer dropBrowser =>
      have hJ' := hread _ _ 0 b s' hJ read le_rfl
      by_cases hshort : y.ContentLength < ref
      · exact .dropped (by simp [dropBrowser, hshort])
      · refine .done s' _ hJ' toServer (.inr (.inr (by omega))) (fun h => dropServer.trans h)
          fun hb => ?_
        simp [dropBrowser, hb]
    | goesOn more fits read part rest =>
      exact (ih _ _ (hread _ _ _ _ _ hJ read part.le) rest).mono id id

/-- **What a relay keeps**: when each read keeps `J`, so does the relay, up to the `Update` at its
end. -/
theorem relay_ends (hread : Reading readBodyPart J) {header : Bool} {fuel : Nat} (y : Relay σ)
    (hJ : J y.ToServer 0) {out : Int × Relay σ}
    (h : relay readBodyPart update send ref header fuel y = some out) :
    RelayEnds update J ref y out := by
  cases relay_first h with
  | failed read => exact .failed (-74) (.inr (.inl rfl))
  | header read => exact .failed (-10) (.inl rfl)
  | nothing read dropBrowser => exact .dropped dropBrowser
  | @goesOn n b s' out read part rest =>
    have hJ' := hread _ _ n b s' hJ read part.le
    rw [Int.zero_add] at hJ'
    exact (relayLoop_ends hread fuel _ b hJ' rest).mono id id

/-- Each read that delivers bytes keeps `J`, up to the announced length. -/
def Counting (readBodyPart : σ → Option (Int × Str × σ)) (J : σ → Int → Prop) (ref : Int) : Prop :=
  ∀ s k n b s', J s k → k < ref → readBodyPart s = some (n, b, s') → 0 < n → J s' (k + n)

theorem relayLoop_kept (hread : Counting readBodyPart J ref) (href : 0 < ref) (fuel : Nat)
    (y : Relay σ) (BodyTemp : Str) (hJ : J y.ToServer y.ContentLength) {y' : Relay σ}
    (h : relayLoop readBodyPart update send ref fuel y BodyTemp = some (0, y'))
    (hserver : y'.DropServer = false) (hbrowser : y'.DropBrowser = false) :
    ∃ s, J s ref ∧ y'.ToServer = update s := by
  induction fuel generalizing y BodyTemp with
  | zero => cases h
  | succ fuel ih =>
    cases relayLoop_turn h with
    | reached length toServer dropServer dropBrowser => exact ⟨y.ToServer, length ▸ hJ, toServer⟩
    | exceeded toServer dropServer dropBrowser =>
      rw [dropServer] at hserver
      cases hserver
    | nothing more fits read toServer dropServer dropBrowser =>
      rw [dropBrowser, Bool.or_eq_false_iff, decide_eq_false_iff_not] at hbrowser
      omega
    | goesOn more fits read part rest =>
      exact ih _ _ (hread _ _ _ _ _ hJ (by omega) read part) rest

/-- **A relay that keeps both connections open** has come to the announced length. -/
theorem relay_kept (hread : Counting readBodyPart J ref) (href : 0 < ref) {header : Bool} {fuel : Nat}
    (y : Relay σ) (hJ : J y.ToServer 0) {y' : Relay σ}
    (h : relay readBodyPart update send ref header fuel y = some (0, y'))
    (hserver : y'.DropServer = false) (hbrowser : y'.DropBrowser = false) :
    ∃ s, J s ref ∧ y'.ToServer = update s := by
  cases relay_first h with
  | nothing read dropBrowser =>
    rw [dropBrowser] at hbrowser
    cases hbrowser
  | @goesOn n b s' out read part rest =>
    have hJ' := hread _ _ n b s' hJ href read part
    rw [Int.zero_add] at hJ'
    exact relayLoop_kept hread href fuel _ b hJ' rest hserver hbrowser

theorem relayLoop_invariant {K : σ → Prop}
    (hread : ∀ s n b s', K s → readBodyPart s = some (n, b, s') → K s')
    (hupdate : ∀ s, K s → K (update s)) (fuel : Nat) (y : Relay σ) (BodyTemp : Str)
    (hK : K y.ToServer) {out : Int × Relay σ}
    (h : relayLoop readBodyPart update send ref fuel y BodyTemp = some out) : K out.2.ToServer := by
  induction fuel generalizing y BodyTemp with
  | zero => cases h
  | succ fuel ih =>
    cases relayLoop_turn h with
    | dropped toServer => exact toServer ▸ hupdate _ hK
    | reached length toServer dropServer dropBrowser => exact toServer ▸ hupdate _ hK
    | exceeded toServer dropServer dropBrowser => exact toServer ▸ hupdate _ hK
    | failed read toServer => exact toServer ▸ hupdate _ (hread _ _ _ _ hK read)
    | nothing more fits read toServer dropServer dropBrowser =>
      exact toServer ▸ hupdate _ (hread _ _ _ _ hK read)
    | goesOn more fits read part rest => exact ih _ _ (hread _ _ _ _ hK read) rest

/-- What each read and `Update` keep holds at the end of every relay, failures included. -/
theorem relay_invariant {K : σ → Prop}
    (hread : ∀ s n b s', K s → readBodyPart s = some (n, b, s') → K s')
    (hupdate : ∀ s, K s → K (update s)) {header : Bool} {fuel : Nat} {y : Relay σ}
    (hK : K y.ToServer) {out : Int × Relay σ}
    (h : relay readBodyPart update send ref header fuel y = some out) : K out.2.ToServer := by
  cases relay_first h with
  | failed read => exact hread _ _ _ _ hK read
  | header read => exact hread _ _ _ _ hK read
  | nothing read dropBrowser => exact hread _ _ _ _ hK read
  | goesOn read part rest =>
    exact relayLoop_invariant hread hupdate fuel _ _ (hread _ _ _ _ hK read) rest

end Rule

/-! ## A sequence of reads -/

section Sequence

variable {rs : Nat → Int × Str} {update : Nat → Nat} {send : List Str → Str → Bool} {ref : Int}

/-- The reads that give the results of a sequence; the state is the number of the next one. -/
def readNext (rs : Nat → Int × Str) (i : Nat) : Option (Int × Str × Nat) :=
  some ((rs i).1, (rs i).2, i + 1)

/-- The pieces of the first `k` results. -/
def received (rs : Nat → Int × Str) (k : Nat) : Str := ((List.range k).map fun i => (rs i).2).flatten

theorem received_succ (k : Nat) : received rs (k + 1) = received rs k ++ (rs k).2 := by
  simp [received, List.range_succ]

theorem received_le {j k : Nat} (h : j ≤ k) : (received rs j).length ≤ (received rs k).length := by
  induction k with
  | zero => rw [Nat.le_zero.mp h]
  | succ k ih =>
    rcases Nat.le_succ_iff.mp h with h | rfl
    · rw [received_succ, List.length_append]
      exact (ih h).trans (Nat.le_add_right _ _)
    · exact le_rfl

/-- The pieces behind the announced length do not change what comes before it. -/
theorem take_received {j k L : Nat} (h : j ≤ k) (hL : L ≤ (received rs j).length) :
    (received rs k).take L = (received rs j).take L := by
  induction k with
  | zero => rw [Nat.le_zero.mp h]
  | succ k ih =>
    rcases Nat.le_succ_iff.mp h with h | rfl
    · rw [received_succ, List.take_append_of_le_length (hL.trans (received_le h)), ih h]
    · rfl

/-- What is sent of a sequence of results of which `k` deliver a piece before the relay ends: the
front of the pieces, of the announced length. The relay ends with the piece that comes to it, and
drops the server when there is more of that piece, or it ends with a read that yields nothing. -/
structure Relayed (rs : Nat → Int × Str) (update : Nat → Nat) (ref : Int) (k : Nat) (answer : Int)
    (y : Relay Nat) : Prop where
  pieces : ∀ i < k, 0 < (rs i).1
  sent : ∀ m, k ≤ m → (∀ i < m, 0 < (rs i).1) → y.sent.flatten = (received rs m).take ref.toNat
  ends : (answer = 0 ∧ y.ToServer = update k ∧ ref ≤ (received rs k).length ∧
      ∀ j < k, (received rs j).length < ref) ∨
    ((received rs k).length < ref ∧ (rs k).1 ≤ 0)
  discarded : ref < (received rs k).length → y.DropServer = true

/-- The announced length is reached with the piece `k`. -/
theorem Relayed.of_reached {k : Nat} {y : Relay Nat} (hpieces : ∀ i < k + 1, 0 < (rs i).1)
    (hsent : y.sent.flatten = (received rs (k + 1)).take ref.toNat)
    (hbefore : (received rs k).length < ref) (hreached : ref ≤ (received rs (k + 1)).length)
    (hserver : y.ToServer = update (k + 1))
    (hdiscarded : ref < (received rs (k + 1)).length → y.DropServer = true) :
    Relayed rs update ref (k + 1) 0 y := by
  refine ⟨hpieces, fun m hm _ => ?_, .inl ⟨rfl, hserver, hreached, fun j hj => ?_⟩, hdiscarded⟩
  · rw [hsent, take_received hm (by omega)]
  · have := @received_le rs j k (by omega)
    omega

/-- The read behind `k` pieces yields nothing. -/
theorem Relayed.of_ended {k : Nat} {answer : Int} {y : Relay Nat} (hpieces : ∀ i < k, 0 < (rs i).1)
    (hsent : y.sent.flatten = received rs k) (hbefore : (received rs k).length < ref)
    (hend : (rs k).1 ≤ 0) : Relayed rs update ref k answer y := by
  refine ⟨hpieces, fun m hm hpieces' => ?_, .inr ⟨hbefore, hend⟩, fun h => by omega⟩
  have hmk : m = k := by
    by_contra hne
    have := hpieces' k (by omega)
    omega
  rw [hsent, hmk, List.take_of_length_le (by omega)]

theorem relayLoop_sends (hsized : ∀ i, 0 < (rs i).1 → (rs i).1 = (rs i).2.length)
    (hsend : ∀ sent b, send sent b = true) (fuel : Nat) (k : Nat) (y : Relay Nat)
    (hpieces : ∀ i < k + 1, 0 < (rs i).1) (hserver : y.ToServer = k + 1)
    (hlength : y.ContentLength = (received rs (k + 1)).length)
    (hsent : y.sent.flatten = received rs k) (hbefore : (received rs k).length < ref)
    (hfuel : (ref - (received rs k).length).toNat ≤ fuel) :
    ∃ answer y' k', relayLoop (readNext rs) update send ref fuel y (rs k).2 = some (answer, y') ∧
      Relayed rs update ref k' answer y' := by
  induction fuel generalizing k y with
  | zero => omega
  | succ fuel ih =>
    have hpart := hsized k (hpieces k (Nat.lt_succ_self k))
    have hpos := hpieces k (Nat.lt_succ_self k)
    have hadd : (received rs (k + 1)).length = (received rs k).length + (rs k).2.length := by
      rw [received_succ, List.length_append]
    rw [relayLoop]
    by_cases hmore : y.ContentLength > ref
    · -- the piece is cut where the announced length ends
      have hrest : ¬ (rs k).2.length < (y.ContentLength - ref).toNat := by omega
      rw [discard, if_pos ⟨by omega, hmore⟩]
      dsimp only
      rw [if_neg hrest, Option.bind_some]
      dsimp only
      rw [hsend, if_neg (by simp), if_pos rfl]
      refine ⟨_, _, k + 1, rfl, .of_reached hpieces ?_ hbefore (by omega) (congrArg update hserver)
        fun _ => rfl⟩
      have hcut : ref.toNat = (received rs k).length +
          ((rs k).2.length - (y.ContentLength - ref).toNat) := by omega
      simp only [List.flatten_append, List.flatten_cons, List.flatten_nil, List.append_nil, hsent]
      rw [received_succ, hcut, List.take_length_add_append]
    · rw [discard_of_le (by omega), Option.bind_some]
      dsimp only
      rw [hsend, if_neg (by simp)]
      have hsent' : (y.sent ++ [(rs k).2]).flatten = received rs (k + 1) := by
        rw [List.flatten_append, hsent, received_succ]
        simp
      by_cases hend : y.ContentLength = ref
      · rw [if_pos hend]
        refine ⟨_, _, k + 1, rfl, .of_reached hpieces ?_ hbefore (by omega) (congrArg update hserver)
          fun h => by omega⟩
        rw [hsent', List.take_of_length_le (by omega)]
      · rw [if_neg hend, readNext, hserver, Option.bind_some]
        dsimp only
        have hbefore' : (received rs (k + 1)).length < ref := by omega
        split
        · exact ⟨_, _, k + 1, rfl, .of_ended hpieces hsent' hbefore' (by omega)⟩
        · split
          · exact ⟨_, _, k + 1, rfl, .of_ended hpieces hsent' hbefore' (by omega)⟩
          · next hneg hnz =>
            have hpieces' : ∀ i < k + 1 + 1, 0 < (rs i).1 := by
              intro i hi
              rcases Nat.lt_succ_iff_lt_or_eq.mp hi with hi | rfl
              · exact hpieces i hi
              · omega
            refine ih (k + 1) _ hpieces' rfl ?_ hsent' hbefore' (by omega)
            dsimp only
            rw [hlength, @received_succ rs (k + 1), List.length_append,
              hsized _ (hpieces' _ (Nat.lt_succ_self _))]
            omega

/-- **What the relay sends**: when the value of each read is the length of its piece and the browser
takes everything, the front of the pieces, up to the announced length. -/
theorem relay_sends (hsized : ∀ i, 0 < (rs i).1 → (rs i).1 = (rs i).2.length)
    (hsend : ∀ sent b, send sent b = true) (href : 0 < ref) {fuel : Nat} (hfuel : ref.toNat ≤ fuel)
    {y : Relay Nat} (hserver : y.ToServer = 0) (hsent : y.sent = []) :
    ∃ answer y' k, relay (readNext rs) update send ref true fuel y = some (answer, y') ∧
      Relayed rs update ref k answer y' := by
  have hnil : y.sent.flatten = received rs 0 := by
    rw [hsent]
    rfl
  have hzero : ((received rs 0).length : Int) < ref := href
  rw [relay, readNext, hserver, Option.bind_some]
  dsimp only
  split
  · exact ⟨_, _, 0, rfl, .of_ended (by simp) hnil hzero (by omega)⟩
  · rw [if_neg (by simp)]
    split
    · exact ⟨_, _, 0, rfl, .of_ended (by simp) hnil hzero (by omega)⟩
    · next hneg hnz =>
      have hpieces : ∀ i < 0 + 1, 0 < (rs i).1 := by
        intro i hi
        obtain rfl : i = 0 := by omega
        omega
      refine relayLoop_sends hsized hsend fuel 0 _ hpieces rfl ?_ hnil hzero (by omega)
      rw [hsized 0 (by omega)]
      simp [received]

theorem relay_sends_two :
    ∃ answer y' k,
      relay (readNext fun i => if i < 2 then (3, ['a', 'b', 'c']) else (0, [])) id (fun _ _ => true) 4
        true 4 ⟨0, [], 0, false, false, false⟩ = some (answer, y') ∧
      Relayed (fun i => if i < 2 then (3, ['a', 'b', 'c']) else (0, [])) id 4 k answer y' := by
  refine relay_sends (fun i hi => ?_) (fun _ _ => rfl) (by decide) (by decide) rfl rfl
  by_cases h : i < 2
  · simp [h]
  · simp [h] at hi

end Sequence

end Haarp
