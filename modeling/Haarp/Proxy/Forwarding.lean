import Haarp.Proxy.RequestLine

/-!
# Forwarding a request line

A parent proxy is given the address that the browser has asked for, put together from its parts, and
takes it apart again. The parts have no blank and no slash but in the path, so the address falls apart
in the same places (`splitUrl_written`), except at the port: it is left out where it is 80 or 21,
whatever the protocol, and then the parser looks for the last colon of the host.

* `Parsed`: what is known of the members behind a request line (`parsed_of_analyse`).
* `analyse_requestLine`: what the parent makes of the line that is written for it.
* `forwarded_iff`: when these are the members again.
-/

namespace Haarp

/-! ## Searching -/

theorem findFrom_eq_self {needle str : Str} {pos : Nat} (hpos : pos ≤ str.length) :
    findFrom needle pos str = some pos ↔ needle <+: str.drop pos := by
  rw [findFrom, if_pos hpos, Option.map_eq_some_iff, ← find_eq_zero]
  constructor
  · rintro ⟨k, hk, heq⟩
    rwa [show k = 0 by omega] at hk
  · exact fun h => ⟨0, h, rfl⟩

/-- The first place of a character. -/
theorem find_append_cons {c : Char} {before : Str} (h : c ∉ before) (after : Str) :
    find [c] (before ++ c :: after) = some before.length := by
  have hnot : ¬ [c] <:+: before := fun hin => h ((List.singleton_infix_iff c before).mp hin)
  have hlast : ∀ d, before.getLast? = some d → d ∉ [c] := by
    intro d hd hmem
    rw [List.mem_singleton] at hmem
    exact h (hmem ▸ List.mem_of_getLast? hd)
  have hzero : find [c] (c :: after) = some 0 := find_eq_zero.mpr ⟨after, rfl⟩
  rw [find_append hnot hlast, hzero, Option.map_some, Nat.zero_add]

/-! ## The login -/

/-- The length of a login with its colons and at signs escaped. -/
def escapedLength (login : Str) : Nat :=
  login.length + 2 * login.countP fun d => d = ':' ∨ d = '@'

theorem escapeLogin_eq (login : Str) :
    ConnectionToBrowser.escapeLogin login = login.flatMap fun d =>
      if d = ':' then ['%', '3', 'A'] else if d = '@' then ['%', '4', '0'] else [d] := by
  obtain ⟨n, out, hout, hreplaced⟩ :=
    searchReplace_spec (List.cons_ne_nil ':' []) (List.cons_ne_nil '%' ['3', 'A']) login
  obtain ⟨m, out', hout', hreplaced'⟩ :=
    searchReplace_spec (List.cons_ne_nil '@' []) (List.cons_ne_nil '%' ['4', '0']) out
  rw [ConnectionToBrowser.escapeLogin, hout, hout', hreplaced'.flatMap, hreplaced.flatMap,
    List.flatMap_assoc]
  refine List.flatMap_congr fun d _ => ?_
  split <;> simp

theorem length_escapeLogin (login : Str) :
    (ConnectionToBrowser.escapeLogin login).length = escapedLength login := by
  rw [escapeLogin_eq, escapedLength]
  induction login with
  | nil => rfl
  | cons d login ih =>
    rw [List.flatMap_cons, List.length_append, ih, List.length_cons]
    by_cases hcolon : d = ':'
    · simp [hcolon]
      omega
    · by_cases hat : d = '@'
      · simp [hat]
        omega
      · simp [hcolon, hat]
        omega

/-- Escaping puts no other character into a login. -/
theorem not_mem_escapeLogin {c : Char} {login : Str} (h : c ∉ login)
    (hc : c ∉ ['%', '3', 'A', '4', '0']) : c ∉ ConnectionToBrowser.escapeLogin login := by
  rw [escapeLogin_eq, List.mem_flatMap]
  rintro ⟨d, hd, hmem⟩
  split at hmem
  · exact hc (List.mem_append_left ['4', '0'] hmem)
  · split at hmem
    · have hsub : ['%', '4', '0'] ⊆ ['%', '3', 'A', '4', '0'] := by simp
      exact hc (hsub hmem)
    · exact h (List.mem_singleton.mp hmem ▸ hd)

namespace ConnectionToBrowser

/-! ## What is read -/

/-- The members that come from an address do not have the characters that end them. -/
structure Parts (c : ConnectionToBrowser) : Prop where
  request : ∃ path, c.Request = '/' :: path ∧ ' ' ∉ path
  user : ' ' ∉ c.FtpUser ∧ '/' ∉ c.FtpUser
  pass : ' ' ∉ c.FtpPass ∧ '/' ∉ c.FtpPass
  host : ' ' ∉ c.Host ∧ '/' ∉ c.Host ∧ '@' ∉ c.Host
  hostLength : c.Host.length ≤ 256
  port : 1 ≤ c.Port ∧ c.Port ≤ 65535

/-- What is known of the members behind a request line for `http` or `ftp`. -/
structure Parsed (sslTunnel : Bool) (line : Str) (c : ConnectionToBrowser) : Prop extends Parts c where
  method : c.RequestType ∈ Methods
  tunnel : ¬ (sslTunnel = true ∧ c.RequestType = connectMethod)
  protocol : c.RequestProtocol = httpText ∨ c.RequestProtocol = ftpText
  length : c.RequestType.length + c.RequestProtocol.length + 4 + c.Host.length + c.Request.length ≤
    line.length

variable {c c' : ConnectionToBrowser} {domain url : Str}

/-- The port and the host that a domain leaves. -/
theorem hostAndPort_ok (h : hostAndPort domain c = (0, c')) :
    ∃ Host Port, c' = { c with Host, Port } ∧ Host <+: domain ∧ Host.length ≤ 256 ∧ 1 ≤ Port ∧
      Port ≤ 65535 := by
  unfold hostAndPort at h
  cases hcolon : rfind [':'] domain with
  | none =>
    simp only [hcolon] at h
    split at h
    · by_cases hlength : domain.length > 256
      · simp [hlength] at h
      · simp only [hlength, if_false, Prod.mk.injEq, true_and] at h
        refine ⟨domain, _, h.symm, List.prefix_refl domain, by omega, ?_⟩
        split <;> decide
    · simp at h
  | some LastPosition =>
    simp only [hcolon] at h
    by_cases hlong : (domain.drop LastPosition).length > 6
    · rw [if_pos hlong] at h
      exact absurd (Prod.mk.inj h).1 (by decide)
    rw [if_neg hlong] at h
    cases hscan : scanPort (domain.drop LastPosition) with
    | none => simp [hscan] at h
    | some Port =>
      simp only [hscan] at h
      by_cases hport : Port < 1 ∨ Port > 65535
      · simp [hport] at h
      · rw [if_neg hport] at h
        by_cases hlength : (domain.take LastPosition).length > 256
        · rw [if_pos hlength] at h
          exact absurd (Prod.mk.inj h).1 (by decide)
        · rw [if_neg hlength, Prod.mk.injEq] at h
          exact ⟨domain.take LastPosition, Port, h.2.symm, List.take_prefix _ _, by omega, by omega,
            by omega⟩

/-- The login is a part of what stands in front of the host. -/
theorem login_ok (UserPass : Str) (huser : c.FtpUser = []) (hpass : c.FtpPass = []) :
    ∃ FtpUser FtpPass, c.login UserPass = { c with FtpUser, FtpPass } ∧ FtpUser ⊆ UserPass ∧
      FtpPass ⊆ UserPass := by
  unfold login
  split
  · cases find [':'] UserPass with
    | none => exact ⟨UserPass, [], rfl, List.Subset.refl _, List.nil_subset _⟩
    | some Position => exact ⟨_, _, rfl, List.take_subset _ _, List.drop_subset _ _⟩
  · exact ⟨c.FtpUser, c.FtpPass, rfl, by rw [huser]; exact List.nil_subset _,
      by rw [hpass]; exact List.nil_subset _⟩

/-- What a domain leaves. -/
theorem splitDomain_ok (huser : c.FtpUser = []) (hpass : c.FtpPass = [])
    (h : splitDomain domain c = (0, c')) :
    ∃ FtpUser FtpPass Host Port, c' = { c with FtpUser, FtpPass, Host, Port } ∧ FtpUser ⊆ domain ∧
      FtpPass ⊆ domain ∧ Host <:+: domain ∧ '@' ∉ Host ∧ Host.length ≤ 256 ∧ 1 ≤ Port ∧
      Port ≤ 65535 := by
  unfold splitDomain at h
  rcases rfind_cases '@' domain with ⟨hat, hfind⟩ | ⟨before, after, rfl, hat, hfind⟩
  · simp only [hfind] at h
    obtain ⟨Host, Port, rfl, hhost, hlength, hport⟩ := hostAndPort_ok h
    exact ⟨c.FtpUser, c.FtpPass, Host, Port, rfl, by rw [huser]; exact List.nil_subset _,
      by rw [hpass]; exact List.nil_subset _, hhost.isInfix, fun hmem => hat (hhost.subset hmem),
      hlength, hport⟩
  · have htake : (before ++ '@' :: after).take before.length = before := List.take_left
    have hdrop : (before ++ '@' :: after).drop (before.length + 1) = after := by
      rw [← List.drop_drop, List.drop_left]
      rfl
    simp only [hfind, htake, hdrop] at h
    split at h
    · simp at h
    · obtain ⟨FtpUser, FtpPass, hlogin, hu, hp⟩ := login_ok before huser hpass
      rw [hlogin] at h
      obtain ⟨Host, Port, rfl, hhost, hlength, hport⟩ := hostAndPort_ok h
      have hbefore : before ⊆ before ++ '@' :: after := List.subset_append_left _ _
      have hafter : after <:+ before ++ '@' :: after :=
        (List.suffix_cons '@' after).trans (List.suffix_append _ _)
      exact ⟨FtpUser, FtpPass, Host, Port, rfl, List.Subset.trans hu hbefore,
        List.Subset.trans hp hbefore, hhost.isInfix.trans hafter.isInfix,
        fun hmem => hat (hhost.subset hmem), hlength, hport⟩

/-- What an address leaves. -/
theorem splitUrl_ok (huser : c.FtpUser = []) (hpass : c.FtpPass = []) (hurl : ' ' ∉ url)
    (h : splitUrl url c = (0, c')) :
    c'.Parts ∧ c'.RequestType = c.RequestType ∧ c'.RequestProtocol = c.RequestProtocol ∧
      c'.Host.length + c'.Request.length ≤ url.length + 1 := by
  -- a domain without a blank and a slash, and a path
  have hsplit : ∀ domain path, ' ' ∉ domain → '/' ∉ domain → ' ' ∉ path →
      domain.length + path.length ≤ url.length →
      splitDomain domain { c with Request := '/' :: path } = (0, c') →
      c'.Parts ∧ c'.RequestType = c.RequestType ∧ c'.RequestProtocol = c.RequestProtocol ∧
        c'.Host.length + c'.Request.length ≤ url.length + 1 := by
    intro domain path hblank hslash hpath hlength h
    obtain ⟨FtpUser, FtpPass, Host, Port, rfl, hu, hp, hhost, hat, hmax, hport⟩ :=
      @splitDomain_ok { c with Request := '/' :: path } c' domain huser hpass h
    have hle := hhost.length_le
    refine ⟨⟨⟨path, rfl, hpath⟩, ?_, ?_, ?_, hmax, hport⟩, rfl, rfl, ?_⟩
    · exact ⟨fun hmem => hblank (hu hmem), fun hmem => hslash (hu hmem)⟩
    · exact ⟨fun hmem => hblank (hp hmem), fun hmem => hslash (hp hmem)⟩
    · exact ⟨fun hmem => hblank (hhost.subset hmem), fun hmem => hslash (hhost.subset hmem), hat⟩
    · dsimp only
      rw [List.length_cons]
      omega
  unfold splitUrl at h
  cases hfind : find ['/'] url with
  | none =>
    simp only [hfind, Option.elim_none] at h
    exact hsplit url [] hurl (not_mem_of_find hfind) List.not_mem_nil (by simp) h
  | some position =>
    obtain ⟨before, after, rfl, rfl, hslash⟩ := find_singleton hfind
    simp only [hfind, Option.elim_some, List.take_left, List.drop_left] at h
    rw [List.mem_append, List.mem_cons, not_or, not_or] at hurl
    exact hsplit before after hurl.1 hslash hurl.2.2 (by simp) h

/-- An address ends at the first blank behind the protocol. -/
theorem urlRequest_ok {line : Str} {Begin : Nat} (h : urlRequest line Begin c = (0, c')) :
    ∃ url IsKeepAlive, ' ' ∉ url ∧ Begin + url.length < line.length ∧
      splitUrl url { c with IsKeepAlive } = (0, c') := by
  unfold urlRequest at h
  cases hfind : findFrom [' '] Begin line with
  | none => simp [hfind] at h
  | some LastPosition =>
    simp only [hfind] at h
    split at h
    · simp at h
    · unfold findFrom at hfind
      split at hfind
      · obtain ⟨k, hk, rfl⟩ := Option.map_eq_some_iff.mp hfind
        obtain ⟨url, after, heq, rfl, hblank⟩ := find_singleton hk
        have htake : (line.drop Begin).take (Begin + url.length - Begin) = url := by
          rw [Nat.add_sub_cancel_left, heq, List.take_left]
        rw [htake] at h
        refine ⟨url, _, hblank, ?_, h⟩
        have hlength := congrArg List.length heq
        simp only [List.length_drop, List.length_append, List.length_cons] at hlength
        omega
      · cases hfind

theorem connectRequest_protocol (line : Str) (c : ConnectionToBrowser) :
    (c.connectRequest line).2.RequestProtocol = connectText := by
  unfold connectRequest
  repeat' first | rfl | split | dsimp only

/-- The parser leaves members that can be told apart. -/
theorem parsed_of_analyse {sslTunnel : Bool} {line : Str} {b c : ConnectionToBrowser}
    (htransparent : b.Transparent = false)
    (h : analyseFirstHeaderLine sslTunnel line b.clearVars = (0, c))
    (hprotocol : c.RequestProtocol = httpText ∨ c.RequestProtocol = ftpText) :
    c.Parsed sslTunnel line := by
  unfold analyseFirstHeaderLine at h
  split at h
  · next m hfind =>
    have hmethod : m ∈ Methods := List.mem_of_find?_eq_some hfind
    -- from the place behind a protocol on
    have hurl : ∀ (protocol : Str) (Begin : Nat), Begin = m.length + protocol.length + 4 →
        ¬ (sslTunnel = true ∧ m = connectMethod) → protocol = httpText ∨ protocol = ftpText →
        urlRequest line Begin { b.clearVars with RequestType := m, RequestProtocol := protocol } =
          (0, c) → c.Parsed sslTunnel line := by
      intro protocol Begin hbegin htunnel hprotocol hurl
      obtain ⟨url, IsKeepAlive, hblank, hlength, hsplit⟩ := urlRequest_ok hurl
      obtain ⟨hparts, htype, hproto, hle⟩ := splitUrl_ok rfl rfl hblank hsplit
      refine ⟨hparts, ?_, ?_, ?_, ?_⟩
      · rwa [htype]
      · rwa [htype]
      · rwa [hproto]
      · rw [htype, hproto]
        dsimp only
        omega
    unfold getHostAndPortOfRequest at h
    split at h
    · have hconnect := connectRequest_protocol line { b.clearVars with RequestType := m }
      rw [h] at hconnect
      rw [hconnect] at hprotocol
      exact absurd hprotocol (by decide)
    · next htunnel =>
      rw [if_neg (by simp [clearVars, htransparent])] at h
      split at h
      · exact hurl httpText _ rfl htunnel (.inl rfl) h
      · split at h
        · exact hurl ftpText _ rfl htunnel (.inr rfl) h
        · simp at h
  · simp at h

/-! ## What is written -/

theorem scanPort_longText {port : Int} (hport : 1 ≤ port ∧ port ≤ 65535) :
    scanPort (':' :: longText port) = some port := by
  have hdigits := longText_isDigit (show 0 ≤ port by omega)
  have hnul : Char.ofNat 0 ∉ ':' :: longText port := by
    rw [List.mem_cons, not_or]
    exact ⟨by decide, fun hmem => absurd (hdigits _ hmem) (by decide)⟩
  have hnumber : hasNumber (longText port) = true := by
    obtain ⟨d, rest, heq⟩ := List.exists_cons_of_ne_nil (longText_ne_nil port)
    have hd : d.isDigit = true := hdigits d (heq ▸ List.mem_cons_self)
    have hminus : d ≠ '-' := fun h => absurd (h ▸ hd) (by decide)
    have hplus : d ≠ '+' := fun h => absurd (h ▸ hd) (by decide)
    rw [heq, hasNumber, List.dropWhile_cons_of_neg (by simp [isspace_of_isDigit hd])]
    simp [hminus, hplus, hd]
  have hvalue : toInt (atoll (longText port)) = port := by
    rw [atoll_longText (by omega) (by unfold llongMax; omega)]
    exact toInt_of_fits (by unfold intMax; omega) (by unfold intMax; omega)
  rw [scanPort, cStr_eq_self hnul]
  simp only [hnumber, if_true, hvalue]

theorem length_longText_le {port : Int} (hport : 1 ≤ port ∧ port ≤ 65535) :
    (longText port).length ≤ 5 := by
  obtain ⟨n, rfl⟩ := Int.eq_ofNat_of_zero_le (show 0 ≤ port by omega)
  exact (Nat.length_toDigits_le_iff (by decide) (by decide)).mpr (by omega)

theorem not_mem_portString {x : Char} (hport : 1 ≤ c.Port) (hcolon : x ≠ ':')
    (hdigit : x.isDigit = false) : x ∉ c.portString := by
  unfold portString
  split
  · rw [List.mem_cons, not_or]
    refine ⟨hcolon, fun hmem => ?_⟩
    have hx := longText_isDigit (show 0 ≤ c.Port by omega) x hmem
    rw [hdigit] at hx
    cases hx
  · exact List.not_mem_nil

/-- The port that the parser assumes. -/
def defaultPort (protocol : Str) : Int := if protocol = httpText then 80 else 21

/-- The parser finds the port again: it is written, or it is the one of the protocol and the host has
no colon. -/
def PortKept (c : ConnectionToBrowser) : Prop :=
  (c.Port ≠ 80 ∧ c.Port ≠ 21) ∨ (c.Port = defaultPort c.RequestProtocol ∧ ':' ∉ c.Host)

/-- A port that is written is read. -/
theorem hostAndPort_port (h : c.Parts) (hport : c.Port ≠ 80 ∧ c.Port ≠ 21)
    (d : ConnectionToBrowser) :
    hostAndPort (c.Host ++ c.portString) d = (0, { d with Host := c.Host, Port := c.Port }) := by
  have hcolon : ':' ∉ longText c.Port := fun hmem =>
    absurd (longText_isDigit (le_trans Int.one_nonneg h.port.1) _ hmem) (by decide)
  have hlength := length_longText_le h.port
  have hwritten : c.portString = ':' :: longText c.Port := if_pos hport
  unfold hostAndPort
  simp only [hwritten, rfind_append hcolon, List.drop_left, List.take_left, scanPort_longText h.port]
  rw [if_neg (by rw [List.length_cons]; omega), if_neg (by have := h.port; omega),
    if_neg (by have := h.hostLength; omega)]

/-- A host without a colon is followed by the port of the protocol. -/
theorem hostAndPort_default {d : ConnectionToBrowser}
    (hprotocol : d.RequestProtocol = httpText ∨ d.RequestProtocol = ftpText) {Host : Str}
    (hlength : Host.length ≤ 256) (hcolon : ':' ∉ Host) :
    hostAndPort Host d = (0, { d with Host, Port := defaultPort d.RequestProtocol }) := by
  have hfind : rfind [':'] Host = none := by
    rcases rfind_cases ':' Host with ⟨-, hfind⟩ | ⟨before, after, rfl, -, -⟩
    · exact hfind
    · simp at hcolon
  unfold hostAndPort
  simp only [hfind, if_pos hprotocol]
  rw [if_neg (by omega)]
  rfl

/-- A host is cut at its last colon. -/
theorem hostAndPort_colon {d d' : ConnectionToBrowser} {Host : Str} (hcolon : ':' ∈ Host)
    (h : hostAndPort Host d = (0, d')) : d'.Host ≠ Host := by
  rcases rfind_cases ':' Host with ⟨hno, -⟩ | ⟨before, after, rfl, -, hfind⟩
  · exact absurd hcolon hno
  · unfold hostAndPort at h
    simp only [hfind, List.take_left] at h
    have hne : before ≠ before ++ ':' :: after := by simp
    split at h
    · simp at h
    · split at h
      · simp at h
      · split at h
        · simp at h
        · rw [← (Prod.mk.inj h).2]
          exact hne

/-- **The host and the port** come back as they were if and only if the port is kept. -/
theorem hostAndPort_written (h : c.Parts)
    (hprotocol : c.RequestProtocol = httpText ∨ c.RequestProtocol = ftpText)
    {d : ConnectionToBrowser} (hd : d.RequestProtocol = c.RequestProtocol) :
    (∃ d', hostAndPort (c.Host ++ c.portString) d = (0, d') ∧ d'.Host = c.Host ∧ d'.Port = c.Port) ↔
      c.PortKept := by
  by_cases hport : c.Port ≠ 80 ∧ c.Port ≠ 21
  · have hread := hostAndPort_port h hport d
    exact ⟨fun _ => .inl hport, fun _ => ⟨_, hread, rfl, rfl⟩⟩
  have hwritten : c.portString = [] := if_neg hport
  rw [hwritten, List.append_nil]
  by_cases hcolon : ':' ∈ c.Host
  · constructor
    · rintro ⟨d', hread, hhost, -⟩
      exact absurd hhost (hostAndPort_colon hcolon hread)
    · rintro (hkept | ⟨-, hkept⟩)
      · exact absurd hkept hport
      · exact absurd hcolon hkept
  · rw [← hd] at hprotocol
    have hread := hostAndPort_default hprotocol h.hostLength hcolon
    rw [hd] at hread
    constructor
    · rintro ⟨d', hread', -, hsame⟩
      rw [hread] at hread'
      obtain rfl := (Prod.mk.inj hread').2
      exact .inr ⟨hsame.symm, hcolon⟩
    · rintro (hkept | ⟨hkept, -⟩)
      · exact absurd hkept hport
      · exact ⟨_, hread, rfl, hkept.symm⟩

/-- A login that is written ends at its at sign, and has neither a blank nor a slash. -/
theorem authString_cases (h : c.Parts) :
    c.authString = [] ∨ ∃ w, c.authString = w ++ ['@'] ∧ ' ' ∉ w ∧ '/' ∉ w := by
  have huser : ' ' ∉ escapeLogin c.FtpUser ∧ '/' ∉ escapeLogin c.FtpUser :=
    ⟨not_mem_escapeLogin h.user.1 (by decide), not_mem_escapeLogin h.user.2 (by decide)⟩
  have hpass : ' ' ∉ escapeLogin c.FtpPass ∧ '/' ∉ escapeLogin c.FtpPass :=
    ⟨not_mem_escapeLogin h.pass.1 (by decide), not_mem_escapeLogin h.pass.2 (by decide)⟩
  unfold authString
  split
  · exact .inl rfl
  · split
    · exact .inr ⟨_, rfl, huser⟩
    · refine .inr ⟨_, rfl, ?_, ?_⟩
      · simp [huser.1, hpass.1]
      · simp [huser.2, hpass.2]

/-- A domain with or without a login in front. -/
theorem splitDomain_written {auth : Str} (hauth : auth = [] ∨ ∃ w, auth = w ++ ['@'])
    (hat : '@' ∉ domain) (hne : domain ≠ []) (huser : c.FtpUser = []) (hpass : c.FtpPass = []) :
    ∃ FtpUser FtpPass,
      splitDomain (auth ++ domain) c = hostAndPort domain { c with FtpUser, FtpPass } := by
  unfold splitDomain
  rcases hauth with rfl | ⟨w, rfl⟩
  · rcases rfind_cases '@' domain with ⟨-, hfind⟩ | ⟨before, after, rfl, -, -⟩
    · refine ⟨c.FtpUser, c.FtpPass, ?_⟩
      rw [List.nil_append, hfind]
    · simp at hat
  · obtain ⟨FtpUser, FtpPass, hlogin, -, -⟩ := login_ok w huser hpass
    have hdrop : (w ++ '@' :: domain).drop (w.length + 1) = domain := by
      rw [← List.drop_drop, List.drop_left]
      rfl
    refine ⟨FtpUser, FtpPass, ?_⟩
    rw [List.append_assoc, List.singleton_append, rfind_append hat]
    simp only [List.take_left, hdrop, hlogin]
    exact if_neg (by simpa using hne)

/-- **An address that is put together from its parts** falls apart into them, up to the port. -/
theorem splitUrl_written (h : c.Parts) (hne : c.Host ≠ []) {auth : Str}
    (hauth : auth = [] ∨ ∃ w, auth = w ++ ['@'] ∧ '/' ∉ w) {d : ConnectionToBrowser}
    (huser : d.FtpUser = []) (hpass : d.FtpPass = []) :
    ∃ FtpUser FtpPass, splitUrl (auth ++ c.Host ++ c.portString ++ c.Request) d =
      hostAndPort (c.Host ++ c.portString) { d with Request := c.Request, FtpUser, FtpPass } := by
  obtain ⟨path, hpath, -⟩ := h.request
  have hslashAuth : '/' ∉ auth := by
    rcases hauth with rfl | ⟨w, rfl, hw⟩
    · exact List.not_mem_nil
    · simp [hw]
  have hslash : '/' ∉ auth ++ (c.Host ++ c.portString) := by
    simp only [List.mem_append, not_or]
    exact ⟨hslashAuth, h.host.2.1, not_mem_portString h.port.1 (by decide) (by decide)⟩
  have hat : '@' ∉ c.Host ++ c.portString := by
    simp only [List.mem_append, not_or]
    exact ⟨h.host.2.2, not_mem_portString h.port.1 (by decide) (by decide)⟩
  have hform : auth = [] ∨ ∃ w, auth = w ++ ['@'] := by
    rcases hauth with hauth | ⟨w, hw, -⟩
    · exact .inl hauth
    · exact .inr ⟨w, hw⟩
  have hdomain : c.Host ++ c.portString ≠ [] := List.append_ne_nil_of_left_ne_nil hne _
  have hurl : auth ++ c.Host ++ c.portString ++ c.Request =
      auth ++ (c.Host ++ c.portString) ++ '/' :: path := by
    rw [hpath, List.append_assoc auth]
  rw [splitUrl, hurl, find_append_cons hslash, Option.elim_some, Option.elim_some, List.take_left,
    List.drop_left, ← hpath]
  exact @splitDomain_written { d with Request := c.Request } _ auth hform hat hdomain huser hpass

/-! ## What is read again -/

theorem methods_plain : ∀ m ∈ Methods, ' ' ∉ m ∧ UpperCase m = m := by decide +kernel

/-- The method is found again. -/
theorem find?_methods {m : Str} (hm : m ∈ Methods) (rest : Str) :
    (Methods.find? fun m' => find (m' ++ [' ']) (UpperCase (m ++ ' ' :: rest)) = some 0) = some m := by
  have hupper : UpperCase (m ++ ' ' :: rest) = m ++ ' ' :: UpperCase rest := by
    have hself := (methods_plain m hm).2
    unfold UpperCase at hself ⊢
    rw [List.map_append, hself, List.map_cons]
    rfl
  rw [hupper]
  cases hfind : Methods.find? fun m' => find (m' ++ [' ']) (m ++ ' ' :: UpperCase rest) = some 0 with
  | none =>
    have hno := List.find?_eq_none.mp hfind m hm
    rw [decide_eq_true_eq, find_eq_zero] at hno
    exact absurd ⟨UpperCase rest, by simp⟩ hno
  | some m' =>
    have hm' : m' ∈ Methods := List.mem_of_find?_eq_some hfind
    have hprefix := List.find?_some hfind
    rw [decide_eq_true_eq, find_eq_zero] at hprefix
    obtain ⟨tail, htail⟩ := hprefix
    rw [List.append_assoc, List.singleton_append] at htail
    rw [(append_cons_inj (methods_plain m' hm').1 (methods_plain m hm).1 htail).1]

/-- A scheme is looked for behind the method. -/
theorem findFrom_scheme (m rest scheme : Str) :
    findFrom (UpperCase scheme) (m.length + 1) (UpperCase (m ++ ' ' :: rest)) =
      some (m.length + 1) ↔ UpperCase scheme <+: UpperCase rest := by
  have hpos : m.length + 1 ≤ (UpperCase (m ++ ' ' :: rest)).length := by
    rw [UpperCase, List.length_map, List.length_append, List.length_cons]
    omega
  have hbehind : (UpperCase (m ++ ' ' :: rest)).drop (m.length + 1) = UpperCase rest := by
    unfold UpperCase
    rw [← List.map_drop, ← List.drop_drop, List.drop_left]
    rfl
  rw [findFrom_eq_self hpos, hbehind]

/-- The address behind a part of the line. -/
theorem urlRequest_written {front rest : Str} (hblank : ' ' ∉ url) (hne : url ≠ []) :
    ∃ IsKeepAlive, ∀ c', urlRequest (front ++ (url ++ ' ' :: rest)) front.length c = (0, c') ↔
      front.length + url.length ≤ 4096 ∧ splitUrl url { c with IsKeepAlive } = (0, c') := by
  have hpos := List.length_pos_iff.mpr hne
  unfold urlRequest
  rw [findFrom_append, find_append_cons hblank, Option.map_some]
  simp only [List.drop_left, Nat.add_sub_cancel_left, List.take_left]
  refine ⟨c.IsKeepAlive || (findFrom http11 (front.length + url.length + 1)
    (UpperCase (front ++ (url ++ ' ' :: rest)))).isSome, fun c' => ?_⟩
  by_cases hlong : front.length + url.length > 4096
  · rw [if_pos (.inr hlong)]
    constructor
    · exact fun h => absurd (Prod.mk.inj h).1 (by decide)
    · exact fun h => absurd h.1 (Nat.not_le.mpr hlong)
  · rw [if_neg (not_or.mpr ⟨by omega, hlong⟩)]
    exact (and_iff_right (Nat.not_lt.mp hlong)).symm

/-- A line of a method, a protocol and an address is taken apart at these. -/
theorem analyse_written {sslTunnel : Bool} {b : ConnectionToBrowser} {m protocol rest : Str}
    (htransparent : b.Transparent = false) (hm : m ∈ Methods)
    (htunnel : ¬ (sslTunnel = true ∧ m = connectMethod))
    (hprotocol : protocol = httpText ∨ protocol = ftpText) (hblank : ' ' ∉ url) (hne : url ≠ []) :
    ∃ IsKeepAlive, ∀ c', analyseFirstHeaderLine sslTunnel
        (m ++ ' ' :: (protocol ++ schemeEnd ++ (url ++ ' ' :: rest))) b.clearVars = (0, c') ↔
      m.length + protocol.length + 4 + url.length ≤ 4096 ∧
        splitUrl url { b.clearVars with
          RequestType := m, RequestProtocol := protocol, IsKeepAlive } = (0, c') := by
  generalize hline : m ++ ' ' :: (protocol ++ schemeEnd ++ (url ++ ' ' :: rest)) = line
  have hfront : line = m ++ ' ' :: (protocol ++ schemeEnd) ++ (url ++ ' ' :: rest) := by
    rw [← hline, List.append_assoc m, List.cons_append]
  have hlength : (m ++ ' ' :: (protocol ++ schemeEnd)).length = m.length + protocol.length + 4 := by
    simp only [List.length_append, List.length_cons, schemeEnd, List.length_nil]
    omega
  have hscheme : ∀ scheme, findFrom (UpperCase scheme) (m.length + 1) (UpperCase line) =
      some (m.length + 1) ↔
        UpperCase scheme <+: UpperCase (protocol ++ schemeEnd ++ (url ++ ' ' :: rest)) := by
    intro scheme
    rw [← hline]
    exact findFrom_scheme m _ scheme
  have hmethod : (Methods.find? fun m' => find (m' ++ [' ']) (UpperCase line) = some 0) = some m := by
    rw [← hline]
    exact find?_methods hm _
  obtain ⟨IsKeepAlive, hread⟩ := @urlRequest_written
    { b.clearVars with RequestType := m, RequestProtocol := protocol } url
    (m ++ ' ' :: (protocol ++ schemeEnd)) rest hblank hne
  refine ⟨IsKeepAlive, fun c' => ?_⟩
  rw [hlength, ← hfront] at hread
  have hread := hread c'
  unfold analyseFirstHeaderLine
  simp only [hmethod]
  unfold getHostAndPortOfRequest
  rw [if_neg htunnel, if_neg (by simp [clearVars, htransparent])]
  rcases hprotocol with rfl | rfl
  · rw [if_pos ((hscheme _).mpr ((List.prefix_append _ _).map upper))]
    exact hread
  · have hhttp : ¬ UpperCase (httpText ++ schemeEnd) <+:
        UpperCase (ftpText ++ schemeEnd ++ (url ++ ' ' :: rest)) := by
      rintro ⟨tail, htail⟩
      exact absurd (List.cons.inj htail).1 (by decide)
    rw [if_neg fun h => hhttp ((hscheme _).mp h),
      if_pos ((hscheme _).mpr ((List.prefix_append _ _).map upper))]
    exact hread

/-! ## The request that the parent reads -/

/-- The request is the same. -/
structure SameRequest (c c' : ConnectionToBrowser) : Prop where
  RequestType : c'.RequestType = c.RequestType
  RequestProtocol : c'.RequestProtocol = c.RequestProtocol
  Host : c'.Host = c.Host
  Port : c'.Port = c.Port
  Request : c'.Request = c.Request

/-- The length of the login in an address. -/
def loginLength (c : ConnectionToBrowser) : Nat :=
  if c.FtpUser = [] then 0
  else if c.FtpPass = [] then escapedLength c.FtpUser + 1
  else escapedLength c.FtpUser + escapedLength c.FtpPass + 2

/-- The length of the port in an address. -/
def portLength (c : ConnectionToBrowser) : Nat :=
  if c.Port ≠ 80 ∧ c.Port ≠ 21 then (longText c.Port).length + 1 else 0

/-- The login is not too long with its escapes. -/
def LoginFits (c : ConnectionToBrowser) : Prop :=
  c.RequestProtocol = ftpText →
    c.RequestType.length + 7 + c.loginLength + c.Host.length + c.portLength + c.Request.length ≤ 4096

theorem length_authString (c : ConnectionToBrowser) : c.authString.length = c.loginLength := by
  unfold authString loginLength
  split
  · rfl
  · split
    · rw [List.length_append, length_escapeLogin]
      rfl
    · simp only [List.length_append, List.length_cons, List.length_nil, length_escapeLogin]
      omega

theorem length_portString (c : ConnectionToBrowser) : c.portString.length = c.portLength := by
  unfold portString portLength
  split <;> rfl

theorem portLength_le (h : c.Parts) : c.portLength ≤ 6 := by
  have := length_longText_le h.port
  unfold portLength
  split <;> omega

/-- The line for the parent: a method, a protocol and an address that begins with the login. -/
theorem requestLine_eq (h : c.Parts)
    (hprotocol : c.RequestProtocol = httpText ∨ c.RequestProtocol = ftpText) :
    ∃ auth, c.requestLine true = c.RequestType ++ ' ' :: (c.RequestProtocol ++ schemeEnd ++
        (auth ++ c.Host ++ c.portString ++ c.Request ++ ' ' :: http10)) ∧
      (auth = [] ∨ ∃ w, auth = w ++ ['@'] ∧ '/' ∉ w) ∧ ' ' ∉ auth ∧
      auth.length = if c.RequestProtocol = ftpText then c.loginLength else 0 := by
  have hwritten : c.requestLine true = c.forwardedRequest true ++ ' ' :: http10 := by
    refine if_neg ?_
    unfold forwardedRequest
    rcases hprotocol with hhttp | hftp
    · simp [hhttp]
    · simp [hftp, httpText, ftpText]
  rcases hprotocol with hhttp | hftp
  · refine ⟨[], ?_, .inl rfl, List.not_mem_nil, ?_⟩
    · rw [hwritten, forwardedRequest, if_pos rfl, if_pos hhttp, hhttp]
      simp only [List.append_assoc, List.cons_append, List.nil_append]
    · rw [hhttp]
      rfl
  · have hne : ¬ c.RequestProtocol = httpText := by rw [hftp]; decide
    refine ⟨c.authString, ?_, ?_, ?_, ?_⟩
    · rw [hwritten, forwardedRequest, if_pos rfl, if_neg hne, if_pos hftp, hftp]
      simp only [List.append_assoc, List.cons_append]
    · rcases authString_cases h with hauth | ⟨w, hauth, -, hslash⟩
      · exact .inl hauth
      · exact .inr ⟨w, hauth, hslash⟩
    · rcases authString_cases h with hauth | ⟨w, hauth, hblank, -⟩
      · rw [hauth]
        exact List.not_mem_nil
      · rw [hauth]
        simp [hblank]
    · rw [if_pos hftp, length_authString]

/-- Only an escaped login makes a short line too long. -/
theorem Parsed.room_iff {sslTunnel : Bool} {line : Str} (h : c.Parsed sslTunnel line)
    (hlength : line.length < 4000) :
    c.RequestType.length + c.RequestProtocol.length + 4 +
      ((if c.RequestProtocol = ftpText then c.loginLength else 0) + c.Host.length + c.portLength +
        c.Request.length) ≤ 4096 ↔ c.LoginFits := by
  have hle := portLength_le h.toParts
  have hparsed := h.length
  unfold LoginFits
  rcases h.protocol with hhttp | hftp
  · rw [hhttp] at hparsed ⊢
    have hne : httpText ≠ ftpText := by decide
    have hfour : httpText.length = 4 := rfl
    rw [if_neg hne]
    exact ⟨fun _ heq => absurd heq hne, fun _ => by omega⟩
  · have hthree : ftpText.length = 3 := rfl
    rw [hftp, if_pos rfl]
    constructor
    · intro hle _
      omega
    · intro hfits
      have := hfits rfl
      omega

/-- **What the parent reads**: the parts of the address, if it is not too long, with the host and the
port still to be found. -/
theorem analyse_requestLine {sslTunnel : Bool} {line : Str} {b : ConnectionToBrowser}
    (h : c.Parsed sslTunnel line) (hne : c.Host ≠ []) (hlength : line.length < 4000)
    (htransparent : b.Transparent = false) :
    ∃ d : ConnectionToBrowser, d.RequestType = c.RequestType ∧
      d.RequestProtocol = c.RequestProtocol ∧ d.Request = c.Request ∧
      ∀ c', analyseFirstHeaderLine sslTunnel (c.requestLine true) b.clearVars = (0, c') ↔
        c.LoginFits ∧ hostAndPort (c.Host ++ c.portString) d = (0, c') := by
  obtain ⟨auth, hwritten, hauth, hblank, hauthLength⟩ := requestLine_eq h.toParts h.protocol
  obtain ⟨path, hpath, hpathBlank⟩ := h.request
  have hport : ' ' ∉ c.portString := not_mem_portString h.port.1 (by decide) (by decide)
  have hurl : ' ' ∉ auth ++ c.Host ++ c.portString ++ c.Request := by
    rw [hpath]
    simp [hblank, h.host.1, hport, hpathBlank]
  have hurlNe : auth ++ c.Host ++ c.portString ++ c.Request ≠ [] := by
    simp [hne]
  have hroom : c.RequestType.length + c.RequestProtocol.length + 4 +
      (auth ++ c.Host ++ c.portString ++ c.Request).length ≤ 4096 ↔ c.LoginFits := by
    simp only [List.length_append, hauthLength, length_portString]
    exact h.room_iff hlength
  obtain ⟨IsKeepAlive, hread⟩ := analyse_written htransparent h.method h.tunnel h.protocol hurl hurlNe
  obtain ⟨FtpUser, FtpPass, hsplit⟩ := @splitUrl_written c h.toParts hne auth hauth
    { b.clearVars with
      RequestType := c.RequestType, RequestProtocol := c.RequestProtocol, IsKeepAlive } rfl rfl
  refine ⟨{ b.clearVars with
    RequestType := c.RequestType, RequestProtocol := c.RequestProtocol, Request := c.Request
    IsKeepAlive, FtpUser, FtpPass }, rfl, rfl, rfl, fun c' => ?_⟩
  rw [hwritten, hread c', hroom, hsplit]

/-- **Forwarding a request.** The parent reads the same request if and only if the port is kept and
the login fits. -/
theorem forwarded_iff {sslTunnel : Bool} {line : Str} {b b' c : ConnectionToBrowser}
    (hb : b.Transparent = false) (hb' : b'.Transparent = false)
    (haccepted : analyseFirstHeaderLine sslTunnel line b.clearVars = (0, c))
    (hprotocol : c.RequestProtocol = httpText ∨ c.RequestProtocol = ftpText) (hne : c.Host ≠ [])
    (hlength : line.length < 4000) :
    (∃ c', analyseFirstHeaderLine sslTunnel (c.requestLine true) b'.clearVars = (0, c') ∧
      c.SameRequest c') ↔ c.PortKept ∧ c.LoginFits := by
  have h := parsed_of_analyse hb haccepted hprotocol
  obtain ⟨d, htype, hproto, hrequest, hread⟩ := analyse_requestLine h hne hlength hb'
  rw [← hostAndPort_written h.toParts hprotocol hproto]
  constructor
  · rintro ⟨c', hagain, hsame⟩
    obtain ⟨hfits, hfound⟩ := (hread c').mp hagain
    exact ⟨⟨c', hfound, hsame.Host, hsame.Port⟩, hfits⟩
  · rintro ⟨⟨c', hfound, hhost, hport⟩, hfits⟩
    refine ⟨c', (hread c').mpr ⟨hfits, hfound⟩, ?_⟩
    obtain ⟨Host, Port, rfl, -⟩ := hostAndPort_ok hfound
    exact ⟨htype, hproto, hhost, hport, hrequest⟩

/-- A connection without the transparent mode. -/
def direct : ConnectionToBrowser where
  Request := []
  Host := []
  Port := -1
  RequestType := []
  RequestProtocol := []
  FtpUser := []
  FtpPass := []
  IsKeepAlive := false
  Transparent := false

/-- The members behind `get FTP://u:p:q@h:+2121/x HTTP/1.0`. -/
def ftpRequest : ConnectionToBrowser :=
  { direct with
    RequestType := ['G', 'E', 'T'], RequestProtocol := ftpText, Host := ['h'], Port := 2121
    Request := ['/', 'x'], FtpUser := ['u'], FtpPass := ['p', ':', 'q'] }

/-- A port of its own, and a password with a colon. -/
theorem forwarded_ftpRequest : ∃ c', analyseFirstHeaderLine false
    "GET ftp://u:p%3Aq@h:2121/x HTTP/1.0".toList direct.clearVars = (0, c') ∧
      ftpRequest.SameRequest c' := by
  have hread : analyseFirstHeaderLine false "get FTP://u:p:q@h:+2121/x HTTP/1.0".toList
      direct.clearVars = (0, ftpRequest) := by decide +kernel
  have hfits : ftpRequest.LoginFits := fun _ => by decide +kernel
  have hwritten : ftpRequest.requestLine true = "GET ftp://u:p%3Aq@h:2121/x HTTP/1.0".toList := by
    decide +kernel
  rw [← hwritten]
  exact (@forwarded_iff false "get FTP://u:p:q@h:+2121/x HTTP/1.0".toList direct direct ftpRequest
    rfl rfl hread (.inr rfl) (List.cons_ne_nil _ _) (by decide)).mpr ⟨.inl (by decide), hfits⟩

/-- Port 21 is not written, and `http` has another one. -/
theorem not_forwarded_port : ¬ ∀ (sslTunnel : Bool) (line : Str) (b b' c : ConnectionToBrowser),
    b.Transparent = false → b'.Transparent = false →
    analyseFirstHeaderLine sslTunnel line b.clearVars = (0, c) →
    c.RequestProtocol = httpText ∨ c.RequestProtocol = ftpText → c.Host ≠ [] →
    line.length < 4000 →
    ∃ c', analyseFirstHeaderLine sslTunnel (c.requestLine true) b'.clearVars = (0, c') ∧
      c.SameRequest c' := by
  intro hclaim
  let c : ConnectionToBrowser :=
    { direct with
      RequestType := ['G', 'E', 'T'], RequestProtocol := httpText, Host := ['h'], Port := 21
      Request := ['/', 'x'] }
  have hread : analyseFirstHeaderLine false "GET http://h:21/x HTTP/1.0".toList direct.clearVars =
      (0, c) := by decide +kernel
  have hagain : analyseFirstHeaderLine false (c.requestLine true) direct.clearVars =
      (0, { c with Port := 80 }) := by decide +kernel
  obtain ⟨c', hc', hsame⟩ := hclaim false "GET http://h:21/x HTTP/1.0".toList direct direct c rfl rfl
    hread (.inl rfl) (List.cons_ne_nil _ _) (by decide)
  have hport := hsame.Port
  rw [← (Prod.mk.inj (hagain.symm.trans hc')).2] at hport
  exact absurd hport (by decide)

end ConnectionToBrowser

end Haarp
