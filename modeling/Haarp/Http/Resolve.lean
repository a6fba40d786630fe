import Haarp.Base.Run
import Haarp.Utils.Strings
import Mathlib.Data.List.Induction
import Mathlib.Logic.Function.Basic

/-!
# The addresses of a host

`SocketHandler::SetDomainAndPort` asks the resolver for a host and goes through the addresses of its
answer when the same host is asked for again. An answer without a usable address leaves `LastHost`
and replaces `server`, so that the host before it then gets the addresses of another one.

`rotates_iff`: in a run, every call for a host that succeeds leaves one of its addresses exactly when
no call asks for `LastHost` behind such an answer (`Stale`). `setDomainAndPort_finds`: calls that find
their hosts, one after the other, leave addresses of these.
-/

namespace Haarp

open Base

/-- `AF_INET` -/
def AF_INET : Nat := 2

/-- `struct hostent`: the family, and the addresses in front of the `NULL`. -/
structure Hostent (Address : Type*) where
  h_addrtype : Nat
  h_addr_list : List Address
  deriving DecidableEq, Repr

variable {Address : Type*}

/-- The loop that counts the usable addresses. -/
def countIPs (h_addrtype : Nat) : Nat → List Address → Nat
  | ips, [] => ips
  | ips, _ :: l => if h_addrtype = AF_INET ∧ ips ≠ 16 then countIPs h_addrtype (ips + 1) l else ips

/-- The number of usable addresses. -/
def Hostent.ips (server : Hostent Address) : Nat := countIPs server.h_addrtype 0 server.h_addr_list

/-- The members of `SocketHandler` that stand for the peer. `answers` is what the resolver answered
last for each name, which the source does not keep. -/
structure PeerAddress (Address : Type*) where
  sin_port : Int
  sin_addr : Address
  server : Option (Hostent Address)
  ips : Nat
  ip_count : Nat
  LastHost : Str
  answers : Str → Option (Hostent Address)

/-- A call of `SetDomainAndPort`, with the answer of the resolver if it is asked. -/
structure SetCall (Address : Type*) where
  domainT : Str
  portT : Int
  answer : Option (Hostent Address)

/-- The text is taken for an IP address. -/
def LooksLikeIP (domainT : Str) : Prop :=
  7 ≤ domainT.length ∧ domainT.length ≤ 15 ∧
    findFirstNotOf ['0', '1', '2', '3', '4', '5', '6', '7', '8', '9', '.'] domainT = none

instance (domainT : Str) : Decidable (LooksLikeIP domainT) :=
  inferInstanceAs (Decidable (7 ≤ domainT.length ∧ domainT.length ≤ 15 ∧
    findFirstNotOf ['0', '1', '2', '3', '4', '5', '6', '7', '8', '9', '.'] domainT = none))

/-- The name that the resolver is asked for. -/
def SetCall.name (c : SetCall Address) : Str :=
  if c.domainT.length > 250 then c.domainT.take 250 else c.domainT

/-- The call is for a host name. -/
def SetCall.IsHost (c : SetCall Address) : Prop := c.domainT ≠ [] ∧ ¬ LooksLikeIP c.domainT

namespace PeerAddress

variable (inet_aton : Str → Option Address)

/-- `LastHost` again: the next address; behind the last one there is none. -/
def nextIP (server : Hostent Address) (s : PeerAddress Address) : Option (Bool × PeerAddress Address) :=
  if s.ips = 1 then some (true, s)
  else
    let ip_count := if s.ip_count + 1 = s.ips then 0 else s.ip_count + 1
    server.h_addr_list[ip_count]?.map fun sin_addr => (true, { s with ip_count, sin_addr })

/-- `gethostbyname` for `domainT`, and its first address. -/
def resolve (domainT : Str) (answer : Option (Hostent Address)) (s : PeerAddress Address) :
    Option (Bool × PeerAddress Address) :=
  let s := { s with server := answer, answers := Function.update s.answers domainT answer }
  match answer with
  | some server =>
    let s := { s with ips := server.ips }
    if s.ips = 0 then some (false, s)
    else
      server.h_addr_list[0]?.map fun sin_addr =>
        (true, { s with sin_addr, ip_count := 0, LastHost := domainT })
  | none => some (false, { s with LastHost := [] })

/-- `SetDomainAndPort`: whether there is an address. There is no result where the source reads behind
the end of the addresses. -/
def setDomainAndPort (c : SetCall Address) (s : PeerAddress Address) :
    Option (Bool × PeerAddress Address) :=
  if c.domainT = [] then some (false, s)
  else if c.portT < 1 ∨ c.portT > 65536 then some (false, s)
  else
    let s := { s with sin_port := c.portT % 65536 }
    if LooksLikeIP c.domainT then
      let s := { s with LastHost := [] }
      match inet_aton c.name with
      | some sin_addr => some (true, { s with sin_addr })
      | none => some (false, s)
    else
      match s.server with
      | some server =>
        if s.LastHost = c.name then s.nextIP server else s.resolve c.name c.answer
      | none => s.resolve c.name c.answer

/-- The calls one after the other. -/
def setAll (s : PeerAddress Address) (calls : List (SetCall Address)) :
    Option (PeerAddress Address) :=
  calls.foldlM (fun s c => (s.setDomainAndPort inet_aton c).map (·.2)) s

/-! ## The addresses of `LastHost` -/

/-- With a name in `LastHost`, `server` and `ips` are the last answer of the resolver. If that has a
usable address it is the answer for `LastHost`, and `sin_addr` is its address number `ip_count`. -/
def Kept (s : PeerAddress Address) : Prop :=
  s.LastHost ≠ [] → ∃ server, s.server = some server ∧ s.ips = server.ips ∧
    (0 < s.ips → s.answers s.LastHost = some server ∧ s.ip_count < s.ips ∧
      server.h_addr_list[s.ip_count]? = some s.sin_addr)

/-- The host is that of `LastHost`, but the last answer of the resolver has no usable address. -/
def Stale (s : PeerAddress Address) (name : Str) : Prop :=
  s.LastHost = name ∧ ∃ server, s.server = some server ∧ server.ips = 0

/-- What is asked of a call for a host: `server` is the answer for `LastHost` if that is the host, and
the call leaves one of the addresses that the resolver answered last for the host. -/
def Rotates (s : PeerAddress Address) (c : SetCall Address) : Prop :=
  (s.LastHost = c.name →
    ∃ server, s.server = some server ∧ s.answers c.name = some server ∧ s.ip_count < s.ips) ∧
  ∃ ok s', s.setDomainAndPort inet_aton c = some (ok, s') ∧
    (ok = true → ∃ server, s'.answers c.name = some server ∧ s'.sin_addr ∈ server.h_addr_list)

theorem countIPs_le (h_addrtype ips : Nat) (l : List Address) :
    countIPs h_addrtype ips l ≤ ips + l.length := by
  induction l generalizing ips with
  | nil => exact le_rfl
  | cons a l ih =>
    rw [countIPs, List.length_cons]
    split
    · have := ih (ips + 1)
      omega
    · omega

theorem ips_le (server : Hostent Address) : server.ips ≤ server.h_addr_list.length := by
  have h := countIPs_le server.h_addrtype 0 server.h_addr_list
  rwa [Nat.zero_add] at h

theorem name_ne_nil {c : SetCall Address} (h : c.domainT ≠ []) : c.name ≠ [] := by
  unfold SetCall.name
  split
  · next hlong => simp [h]
  · exact h

/-- The next address, while `server` is the answer for `LastHost`. -/
theorem nextIP_spec {s : PeerAddress Address} {server : Hostent Address} (hips : s.ips = server.ips)
    (hcount : s.ip_count < s.ips)
    (haddr : server.h_addr_list[s.ip_count]? = some s.sin_addr) :
    ∃ s', s.nextIP server = some (true, s') ∧ s'.server = s.server ∧ s'.ips = s.ips ∧
      s'.LastHost = s.LastHost ∧ s'.answers = s.answers ∧ s'.ip_count < s'.ips ∧
      server.h_addr_list[s'.ip_count]? = some s'.sin_addr := by
  unfold nextIP
  by_cases hone : s.ips = 1
  · rw [if_pos hone]
    exact ⟨s, rfl, rfl, rfl, rfl, rfl, hcount, haddr⟩
  · rw [if_neg hone]
    generalize hnext : (if s.ip_count + 1 = s.ips then 0 else s.ip_count + 1) = ip_count
    have hlt : ip_count < s.ips := by
      split at hnext <;> omega
    have hin : ip_count < server.h_addr_list.length := by
      have := ips_le server
      omega
    have hget := List.getElem?_eq_getElem hin
    exact ⟨{ s with ip_count, sin_addr := server.h_addr_list[ip_count] }, by simp only [hget]; rfl,
      rfl, rfl, rfl, rfl, hlt, hget⟩

theorem nextIP_frame {s s' : PeerAddress Address} {server : Hostent Address} {ok : Bool}
    (h : s.nextIP server = some (ok, s')) :
    s'.server = s.server ∧ s'.ips = s.ips ∧ s'.LastHost = s.LastHost := by
  unfold nextIP at h
  split at h
  · cases h
    exact ⟨rfl, rfl, rfl⟩
  · obtain ⟨sin_addr, -, heq⟩ := Option.map_eq_some_iff.mp h
    cases heq
    exact ⟨rfl, rfl, rfl⟩

/-- A new answer of the resolver. -/
theorem resolve_spec {s : PeerAddress Address} {domainT : Str} (answer : Option (Hostent Address)) :
    ∃ ok s', s.resolve domainT answer = some (ok, s') ∧ s'.Kept ∧
      (ok = true → ∃ server, s'.answers domainT = some server ∧ s'.sin_addr ∈ server.h_addr_list) := by
  unfold resolve
  cases answer with
  | none => exact ⟨false, _, rfl, fun h => absurd rfl h, nofun⟩
  | some server =>
    by_cases hnone : server.ips = 0
    · refine ⟨false, _, if_pos hnone, fun _ => ⟨server, rfl, rfl, fun hpos => ?_⟩, nofun⟩
      exact absurd hnone (Nat.ne_of_gt hpos)
    · have hin : 0 < server.h_addr_list.length := by
        have := ips_le server
        omega
      have hfirst := List.getElem?_eq_getElem hin
      dsimp only
      rw [if_neg hnone, hfirst]
      refine ⟨true, _, rfl, fun _ => ?_, fun _ => ?_⟩
      · exact ⟨server, rfl, rfl, fun hpos => ⟨Function.update_self .., hpos, hfirst⟩⟩
      · exact ⟨server, Function.update_self .., List.getElem_mem hin⟩

/-- A call that is not for a host keeps what is known, or forgets it. -/
theorem setDomainAndPort_other {s : PeerAddress Address} {c : SetCall Address} (hkept : s.Kept)
    (hother : ¬ c.IsHost) : ∃ ok s', s.setDomainAndPort inet_aton c = some (ok, s') ∧ s'.Kept := by
  unfold setDomainAndPort
  by_cases hempty : c.domainT = []
  · exact ⟨false, s, if_pos hempty, hkept⟩
  · have hip : LooksLikeIP c.domainT := by
      by_contra hip
      exact hother ⟨hempty, hip⟩
    rw [if_neg hempty]
    by_cases hport : c.portT < 1 ∨ c.portT > 65536
    · exact ⟨false, s, if_pos hport, hkept⟩
    · rw [if_neg hport, if_pos hip]
      cases inet_aton c.name with
      | none => exact ⟨false, _, rfl, fun h => absurd rfl h⟩
      | some sin_addr => exact ⟨true, _, rfl, fun h => absurd rfl h⟩

/-- A call for a host. -/
theorem setDomainAndPort_host {s : PeerAddress Address} {c : SetCall Address} (hkept : s.Kept)
    (hhost : c.IsHost) (hstale : ¬ s.Stale c.name) :
    ∃ ok s', s.setDomainAndPort inet_aton c = some (ok, s') ∧ s'.Kept ∧
      (ok = true → ∃ server, s'.answers c.name = some server ∧ s'.sin_addr ∈ server.h_addr_list) := by
  unfold setDomainAndPort
  rw [if_neg hhost.1]
  by_cases hport : c.portT < 1 ∨ c.portT > 65536
  · exact ⟨false, s, if_pos hport, hkept, nofun⟩
  · rw [if_neg hport, if_neg hhost.2]
    cases hserver : s.server with
    | none => exact resolve_spec c.answer
    | some server =>
      dsimp only
      by_cases hsame : s.LastHost = c.name
      · rw [if_pos hsame]
        obtain ⟨server', heq, hips, hpos⟩ := hkept (hsame ▸ name_ne_nil hhost.1)
        obtain rfl : server = server' := Option.some.inj (hserver.symm.trans heq)
        have husable : 0 < s.ips := by
          by_contra hzero
          exact hstale ⟨hsame, server, hserver, by omega⟩
        obtain ⟨hanswer, hcount, haddr⟩ := hpos husable
        obtain ⟨s', hnext, hserver', hips', hlast, hanswers, hcount', haddr'⟩ :=
          nextIP_spec (s := { s with sin_port := c.portT % 65536, server := some server }) hips hcount
            haddr
        refine ⟨true, s', hnext, fun _ => ⟨server, ?_, ?_, fun _ => ⟨?_, hcount', haddr'⟩⟩, fun _ => ?_⟩
        · exact hserver'
        · exact hips'.trans hips
        · rw [hanswers, hlast]
          exact hanswer
        · refine ⟨server, ?_, List.mem_of_getElem? haddr'⟩
          rw [hanswers, ← hsame]
          exact hanswer
      · rw [if_neg hsame]
        exact resolve_spec c.answer

/-- What is known of `LastHost` stays right, whatever is called. -/
theorem setDomainAndPort_kept {s s' : PeerAddress Address} {c : SetCall Address} {ok : Bool}
    (hkept : s.Kept) (h : s.setDomainAndPort inet_aton c = some (ok, s')) : s'.Kept := by
  by_cases hhost : c.IsHost
  · by_cases hstale : s.Stale c.name
    · -- `server` and `ips` are those of the answer without a usable address
      obtain ⟨hsame, server, hserver, hnone⟩ := hstale
      obtain ⟨server', heq, hips, -⟩ := hkept (hsame ▸ name_ne_nil hhost.1)
      obtain rfl : server = server' := Option.some.inj (hserver.symm.trans heq)
      unfold setDomainAndPort at h
      rw [if_neg hhost.1] at h
      split at h
      · cases h
        exact hkept
      · rw [if_neg hhost.2] at h
        simp only [hserver, hsame, if_true] at h
        obtain ⟨hserver', hips', hlast⟩ := nextIP_frame h
        refine fun _ => ⟨server, hserver', hips'.trans hips, fun hpos => ?_⟩
        rw [hips'] at hpos
        exact absurd (hips.trans hnone) (Nat.ne_of_gt hpos)
    · obtain ⟨ok', s₁, hset, hkept₁, -⟩ := setDomainAndPort_host inet_aton hkept hhost hstale
      cases hset.symm.trans h
      exact hkept₁
  · obtain ⟨ok', s₁, hset, hkept₁⟩ := setDomainAndPort_other inet_aton hkept hhost
    cases hset.symm.trans h
    exact hkept₁

/-- A call for a host, as long as what is known of `LastHost` is right. -/
theorem rotates_iff_not_stale {s : PeerAddress Address} {c : SetCall Address} (hkept : s.Kept)
    (hhost : c.IsHost) : s.Rotates inet_aton c ↔ ¬ s.Stale c.name := by
  constructor
  · rintro ⟨hlast, -⟩ ⟨hsame, server, hserver, hnone⟩
    obtain ⟨-, -, -, hcount⟩ := hlast hsame
    obtain ⟨server', heq, hips, -⟩ := hkept (hsame ▸ name_ne_nil hhost.1)
    cases hserver.symm.trans heq
    omega
  · intro hstale
    refine ⟨fun hsame => ?_, ?_⟩
    · obtain ⟨server, hserver, hips, hpos⟩ := hkept (hsame ▸ name_ne_nil hhost.1)
      have husable : 0 < s.ips := by
        by_contra hzero
        exact hstale ⟨hsame, server, hserver, by omega⟩
      obtain ⟨hanswer, hcount, -⟩ := hpos husable
      exact ⟨server, hserver, hsame ▸ hanswer, hcount⟩
    · obtain ⟨ok, s', hset, -, hmem⟩ := setDomainAndPort_host inet_aton hkept hhost hstale
      exact ⟨ok, s', hset, hmem⟩

/-! ## Runs -/

/-- No call of the run asks for a stale host. -/
def NeverStale (s : PeerAddress Address) (calls : List (SetCall Address)) : Prop :=
  ∀ before c, before ++ [c] <+: calls → c.IsHost →
    ∀ s', s.setAll inet_aton before = some s' → ¬ s'.Stale c.name

/-- What is known of `LastHost` is right in every state of a run. -/
theorem setAll_kept {s s' : PeerAddress Address} {calls : List (SetCall Address)}
    (hfresh : s.LastHost = []) (h : s.setAll inet_aton calls = some s') : s'.Kept := by
  have hrun : Run (fun s s' : PeerAddress Address =>
      ∃ c ok, s.setDomainAndPort inet_aton c = some (ok, s')) s s' := by
    refine run_of_foldlM ?_ h
    intro s₁ c s₂ hset
    obtain ⟨out, hout, rfl⟩ := Option.map_eq_some_iff.mp hset
    exact ⟨c, out.1, hout⟩
  refine run_invariant ?_ hrun fun hne => absurd hfresh hne
  rintro s₁ s₂ hkept ⟨c, ok, hset⟩
  exact setDomainAndPort_kept inet_aton hkept hset

/-- A run without a stale host returns. -/
theorem setAll_isSome {s : PeerAddress Address} {calls : List (SetCall Address)}
    (hfresh : s.LastHost = []) (hstale : s.NeverStale inet_aton calls) :
    (s.setAll inet_aton calls).isSome = true := by
  induction calls using List.reverseRecOn with
  | nil => rfl
  | append_singleton before c ih =>
    have hbefore := ih fun before' c' hleads =>
      hstale before' c' (hleads.trans (List.prefix_append _ _))
    obtain ⟨s', hs'⟩ := Option.isSome_iff_exists.mp hbefore
    have hkept := setAll_kept inet_aton hfresh hs'
    have hreturns : ∃ ok s'', s'.setDomainAndPort inet_aton c = some (ok, s'') := by
      by_cases hhost : c.IsHost
      · obtain ⟨ok, s'', hset, -⟩ := setDomainAndPort_host inet_aton hkept hhost
          (hstale before c List.prefix_rfl hhost s' hs')
        exact ⟨ok, s'', hset⟩
      · obtain ⟨ok, s'', hset, -⟩ := setDomainAndPort_other inet_aton hkept hhost
        exact ⟨ok, s'', hset⟩
    obtain ⟨ok, s'', hset⟩ := hreturns
    have hlast : s.setAll inet_aton (before ++ [c]) =
        (s.setAll inet_aton before).bind fun s' => (s'.setDomainAndPort inet_aton c).map (·.2) := by
      rw [setAll, List.foldlM_append]
      simp [setAll]
    rw [hlast, hs', Option.bind_some, hset]
    rfl

/-- **The addresses of a host.** From a socket that has not asked for a host yet, all calls return and
each call for a host leaves one of the addresses that were answered last for it, exactly when no call
asks for a stale host. -/
theorem rotates_iff {s : PeerAddress Address} (hfresh : s.LastHost = [])
    (calls : List (SetCall Address)) :
    ((s.setAll inet_aton calls).isSome = true ∧
      ∀ before c, before ++ [c] <+: calls → c.IsHost →
        ∀ s', s.setAll inet_aton before = some s' → s'.Rotates inet_aton c) ↔
      s.NeverStale inet_aton calls := by
  constructor
  · rintro ⟨-, hrotates⟩ before c hprefix hhost s' hs'
    have hkept := setAll_kept inet_aton hfresh hs'
    exact (rotates_iff_not_stale inet_aton hkept hhost).mp (hrotates before c hprefix hhost s' hs')
  · intro hstale
    refine ⟨setAll_isSome inet_aton hfresh hstale, fun before c hprefix hhost s' hs' => ?_⟩
    have hkept := setAll_kept inet_aton hfresh hs'
    exact (rotates_iff_not_stale inet_aton hkept hhost).mpr (hstale before c hprefix hhost s' hs')

/-! ## Hosts that are found -/

/-- The call finds its host: the name is not cut off and the port is one, and the resolver has usable
addresses, all of them of the host, or the name is the text of an address. `names` says which
addresses a host has. -/
structure Finds (names : Str → Address → Prop) (c : SetCall Address) : Prop where
  domainT : c.domainT ≠ [] ∧ c.domainT.length ≤ 250
  portT : 1 ≤ c.portT ∧ c.portT < 65536
  address : LooksLikeIP c.domainT → ∃ a, inet_aton c.domainT = some a ∧ names c.domainT a
  answer : ¬ LooksLikeIP c.domainT →
    ∃ server, c.answer = some server ∧ 0 < server.ips ∧ ∀ a ∈ server.h_addr_list, names c.domainT a

/-- The resolver has found the hosts so far: no answer is without a usable address, and the addresses
are those of the hosts. -/
structure Found (names : Str → Address → Prop) (s : PeerAddress Address) : Prop where
  kept : s.Kept
  usable : ∀ server, s.server = some server → 0 < server.ips
  named : ∀ name server, s.answers name = some server → ∀ a ∈ server.h_addr_list, names name a

section Found

variable {names : Str → Address → Prop} {s s' : PeerAddress Address} {c : SetCall Address} {ok : Bool}

/-- What is left of an answer of the resolver, which is a success if it has a usable address. -/
theorem resolve_frame {domainT : Str} {answer : Option (Hostent Address)}
    (h : s.resolve domainT answer = some (ok, s')) :
    s'.server = answer ∧ s'.answers = Function.update s.answers domainT answer ∧
      s'.sin_port = s.sin_port ∧ ((∃ server, answer = some server ∧ 0 < server.ips) → ok = true) := by
  unfold resolve at h
  dsimp only at h
  split at h
  · next server =>
    split at h
    · next hnone =>
      cases h
      refine ⟨rfl, rfl, rfl, ?_⟩
      rintro ⟨server', heq, hpos⟩
      cases heq
      omega
    · obtain ⟨sin_addr, -, heq⟩ := Option.map_eq_some_iff.mp h
      cases heq
      exact ⟨rfl, rfl, rfl, fun _ => rfl⟩
  · cases h
    exact ⟨rfl, rfl, rfl, fun ⟨_, heq, _⟩ => Option.noConfusion rfl (heq_of_eq heq)⟩

theorem nextIP_answers {server : Hostent Address} (h : s.nextIP server = some (ok, s')) :
    s'.answers = s.answers ∧ s'.sin_port = s.sin_port ∧ ok = true := by
  unfold nextIP at h
  split at h
  · cases h
    exact ⟨rfl, rfl, rfl⟩
  · obtain ⟨sin_addr, -, heq⟩ := Option.map_eq_some_iff.mp h
    cases heq
    exact ⟨rfl, rfl, rfl⟩

/-- What a call for a host that the resolver finds leaves: the next address, or a new answer. -/
theorem setDomainAndPort_frame (hhost : c.IsHost) (hport : ¬ (c.portT < 1 ∨ c.portT > 65536))
    (hanswer : ∃ server, c.answer = some server ∧ 0 < server.ips)
    (h : s.setDomainAndPort inet_aton c = some (ok, s')) :
    ok = true ∧ s'.sin_port = c.portT % 65536 ∧
      ((s'.server = s.server ∧ s'.answers = s.answers) ∨
        (s'.server = c.answer ∧ s'.answers = Function.update s.answers c.name c.answer)) := by
  unfold setDomainAndPort at h
  rw [if_neg hhost.1, if_neg hport, if_neg hhost.2] at h
  split at h
  · split at h
    · obtain ⟨hserver', -, -⟩ := nextIP_frame h
      obtain ⟨hanswers', hport', hok⟩ := nextIP_answers h
      exact ⟨hok, hport', .inl ⟨hserver', hanswers'⟩⟩
    · obtain ⟨hserver', hanswers', hport', hok⟩ := resolve_frame h
      exact ⟨hok hanswer, hport', .inr ⟨hserver', hanswers'⟩⟩
  · obtain ⟨hserver', hanswers', hport', hok⟩ := resolve_frame h
    exact ⟨hok hanswer, hport', .inr ⟨hserver', hanswers'⟩⟩

/-- **A call that finds its host** leaves one of its addresses and the port. -/
theorem setDomainAndPort_finds (hfound : s.Found names) (hfinds : Finds inet_aton names c)
    (h : s.setDomainAndPort inet_aton c = some (ok, s')) :
    s'.Found names ∧ names c.domainT s'.sin_addr ∧ s'.sin_port = c.portT := by
  have hrange : ¬ (c.portT < 1 ∨ c.portT > 65536) := by
    have := hfinds.portT
    omega
  have hport : c.portT % 65536 = c.portT := by
    have := hfinds.portT
    omega
  have hname : c.name = c.domainT := if_neg (Nat.not_lt.mpr hfinds.domainT.2)
  by_cases hip : LooksLikeIP c.domainT
  · obtain ⟨a, ha, hnames⟩ := hfinds.address hip
    unfold setDomainAndPort at h
    rw [if_neg hfinds.domainT.1, if_neg hrange, if_pos hip, hname, ha] at h
    cases h
    exact ⟨⟨fun hlast => absurd rfl hlast, hfound.usable, hfound.named⟩, hnames, hport⟩
  · obtain ⟨server, hanswer, husable, hnames⟩ := hfinds.answer hip
    have hhost : c.IsHost := ⟨hfinds.domainT.1, hip⟩
    have hstale : ¬ s.Stale c.name := by
      rintro ⟨-, server', hserver', hnone⟩
      have := hfound.usable server' hserver'
      omega
    obtain ⟨hok, hport', hframe⟩ :=
      setDomainAndPort_frame inet_aton hhost hrange ⟨server, hanswer, husable⟩ h
    obtain ⟨ok', s'', hset, hkept, haddress⟩ :=
      setDomainAndPort_host inet_aton hfound.kept hhost hstale
    cases hset.symm.trans h
    have hfound' : s'.Found names := by
      rcases hframe with ⟨hserver, hanswers⟩ | ⟨hserver, hanswers⟩
      · exact ⟨hkept, hserver ▸ hfound.usable, hanswers ▸ hfound.named⟩
      · refine ⟨hkept, fun server' heq => ?_, fun name server' heq => ?_⟩
        · rw [hserver, hanswer] at heq
          cases heq
          exact husable
        · rw [hanswers, hname, Function.update_apply] at heq
          split at heq
          · next hsame =>
            rw [hanswer] at heq
            cases heq
            rw [hsame]
            exact hnames
          · exact hfound.named name server' heq
    obtain ⟨server', hserver', hmem⟩ := haddress hok
    rw [hname] at hserver'
    exact ⟨hfound', hfound'.named _ server' hserver' _ hmem, hport'.trans hport⟩

end Found

/-- A socket that has not asked for a host. -/
def blank (sin_addr : Address) : PeerAddress Address :=
  { sin_port := 0, sin_addr, server := none, ips := 0, ip_count := 0, LastHost := []
    answers := fun _ => none }

/-- `a.example`, with two addresses. -/
def twoAddresses : SetCall Nat := ⟨"a.example".toList, 80, some ⟨AF_INET, [11, 12]⟩⟩

/-- The same host twice. -/
theorem rotates_twice :
    ∃ s', (blank 0).setAll (fun _ => none) [twoAddresses] = some s' ∧
      s'.Rotates (fun _ => none) twoAddresses := by
  have hhost : twoAddresses.IsHost := ⟨by decide, by decide⟩
  refine ⟨_, rfl, ((rotates_iff (fun _ => none) (s := blank 0) rfl
    [twoAddresses, twoAddresses]).mpr ?_).2 [twoAddresses] twoAddresses List.prefix_rfl hhost _ rfl⟩
  rintro before c hprefix - s' hs' ⟨hlast, server, hserver, hnone⟩
  rcases before with _ | ⟨c₁, _ | ⟨c₂, before⟩⟩
  · cases hs'
    cases hserver
  · obtain ⟨rfl, hc⟩ := List.cons_prefix_cons.mp hprefix
    cases hs'
    cases hserver
    exact absurd hnone (by decide)
  · have hlen := hprefix.length_le
    simp at hlen

/-- Behind a host with addresses of another family only, the first host gets one of these. -/
theorem not_rotates_unusable :
    ∃ s', (blank 0).setAll (fun _ => none)
        [twoAddresses, ⟨"b.example".toList, 80, some ⟨10, [21, 22]⟩⟩] = some s' ∧
      twoAddresses.IsHost ∧
      (s'.setDomainAndPort (fun _ => none) twoAddresses).map (fun out =>
        (out.1, out.2.sin_addr, out.2.answers twoAddresses.name)) =
          some (true, 22, some ⟨AF_INET, [11, 12]⟩) ∧
      ¬ s'.Rotates (fun _ => none) twoAddresses := by
  refine ⟨_, rfl, ⟨by decide, by decide⟩, by decide, fun h => ?_⟩
  obtain ⟨-, -, -, hcount⟩ := h.1 (by decide)
  exact absurd hcount (by decide)

end PeerAddress

end Haarp
