import Haarp.Proxy.ClientHeader
import Haarp.Proxy.Forwarding
import Haarp.Utils.History

/-!
# Hops

What a server reads of the header that the proxy has written. No text of a browser can begin a line of
its own there (`SingleLine`), so the lines are the ones that were written (`headerLines_written`).

* `forward_fields`: of the fields that the proxy writes itself only its own are sent, and the others
  as `sentAs` tells for the kinds of fields that it knows, in their order.
* `chain_address`: behind any number of proxies that believe each other, the address is the one that
  the first of them has seen, and each of them is named in `Via`.
-/

namespace Haarp

open HTTPHandler (spacedField spacedFields fieldValue)

/-! ## Lines -/

/-- A text within one line. -/
def SingleLine (str : Str) : Prop := '\n' ∉ str ∧ '\r' ∉ str

namespace SingleLine

variable {str str' : Str}

theorem nil : SingleLine [] := ⟨List.not_mem_nil, List.not_mem_nil⟩

theorem of_subset (h : SingleLine str) (hsub : ∀ d ∈ str', d ∈ str) : SingleLine str' :=
  ⟨fun hin => h.1 (hsub _ hin), fun hin => h.2 (hsub _ hin)⟩

theorem take (h : SingleLine str) (n : Nat) : SingleLine (str.take n) :=
  h.of_subset fun _ => List.mem_of_mem_take

theorem drop (h : SingleLine str) (n : Nat) : SingleLine (str.drop n) :=
  h.of_subset fun _ => List.mem_of_mem_drop

theorem append (h : SingleLine str) (h' : SingleLine str') : SingleLine (str ++ str') :=
  ⟨fun hin => (List.mem_append.mp hin).elim h.1 h'.1,
    fun hin => (List.mem_append.mp hin).elim h.2 h'.2⟩

theorem cons {c : Char} (hc : c ≠ '\n' ∧ c ≠ '\r') (h : SingleLine str) : SingleLine (c :: str) :=
  ⟨fun hin => (List.mem_cons.mp hin).elim (fun heq => hc.1 heq.symm) h.1,
    fun hin => (List.mem_cons.mp hin).elim (fun heq => hc.2 heq.symm) h.2⟩

end SingleLine

instance (str : Str) : Decidable (SingleLine str) := inferInstanceAs (Decidable (_ ∧ _))

/-- The pieces between the ends of lines have none. -/
theorem plain_of_lfLines {text : Str} (htext : '\r' ∉ text) {piece : Str}
    (hpiece : SingleLine piece) : ∀ line ∈ ConnectionToHTTP.lfLines piece text, SingleLine line := by
  induction text generalizing piece with
  | nil => simp [ConnectionToHTTP.lfLines]
  | cons c text ih =>
    rw [List.mem_cons, not_or] at htext
    unfold ConnectionToHTTP.lfLines
    split
    · intro line hline
      rcases List.mem_cons.mp hline with rfl | hline
      · exact hpiece
      · exact ih htext.2 .nil line hline
    · next hc =>
      exact ih htext.2 (hpiece.append (.cons ⟨hc, fun h => htext.1 h.symm⟩ .nil))

theorem mem_lineTokens {lines : List Str} {line : Str} (h : line ∈ lineTokens lines) :
    ∃ l ∈ lines, line = l.rdropWhile (· ∈ ['\t', ' ']) ∧ line ≠ [] := by
  obtain ⟨hline, hne⟩ := List.mem_filter.mp h
  obtain ⟨l, hl, rfl⟩ := List.mem_map.mp hline
  exact ⟨l, hl, rfl, by simpa using hne⟩

/-- A line as `AnalyseHeader` keeps it. -/
structure Tidy (line : Str) : Prop where
  plain : SingleLine line
  trimmed : line.rdropWhile (· ∈ ['\t', ' ']) = line
  nonempty : line ≠ []

theorem tidy_of_headerLines {text line : Str} (h : line ∈ headerLines text) : Tidy line := by
  obtain ⟨l, hl, rfl, hne⟩ := mem_lineTokens h
  have hplain := plain_of_lfLines (by simp) .nil l hl
  refine ⟨hplain.of_subset fun d hd => ?_, List.rdropWhile_idempotent _ l, hne⟩
  exact (List.rdropWhile_prefix _ l).subset hd

/-- A text that is written line by line. -/
def written (lines : List Str) : Str := (lines.map (· ++ crlf)).flatten

/-- What `ReadHeader` hands over of a header that is sent: all but the blank line at its end. -/
def handedOver (sent : Str) : Str := sent.take (sent.length - 2)

theorem handedOver_written (lines : List Str) :
    handedOver (written lines ++ crlf) = written lines := by
  rw [handedOver, List.length_append]
  exact List.take_left

theorem lfLines_written {lines : List Str} (hplain : ∀ line ∈ lines, SingleLine line) (str : Str) :
    ConnectionToHTTP.lfLines [] ((written lines ++ str).filter (· ≠ '\r')) =
      lines ++ ConnectionToHTTP.lfLines [] (str.filter (· ≠ '\r')) := by
  have hfilter : ∀ line : Str, SingleLine line → line.filter (· ≠ '\r') = line := by
    intro line h
    refine List.filter_eq_self.mpr fun d hd => ?_
    simpa using fun heq : d = '\r' => h.2 (heq ▸ hd)
  induction lines with
  | nil => rfl
  | cons line lines ih =>
    have hline := hplain line List.mem_cons_self
    have hcons : (written (line :: lines) ++ str).filter (· ≠ '\r') =
        line ++ '\n' :: (written lines ++ str).filter (· ≠ '\r') := by
      simp only [written, List.map_cons, List.flatten_cons, List.append_assoc, List.filter_append,
        hfilter line hline]
      rfl
    rw [hcons, HTTPHandler.lfLines_append hline.1, List.nil_append,
      ih fun l hl => hplain l (List.mem_cons_of_mem line hl)]
    rfl

/-- **The lines that are written are the lines that are read.** -/
theorem headerLines_written {lines : List Str} (hplain : ∀ line ∈ lines, SingleLine line) :
    headerLines (written lines ++ crlf) = lineTokens lines := by
  rw [headerLines, lfLines_written hplain]
  unfold lineTokens
  simp [crlf, ConnectionToHTTP.lfLines]

/-- They are read of the text that is handed over. -/
theorem headerLines_handed {lines : List Str} (hplain : ∀ line ∈ lines, SingleLine line) :
    headerLines (written lines) = lineTokens lines := by
  have h := lfLines_written hplain []
  rw [List.append_nil] at h
  rw [headerLines, h]
  exact congrArg lineTokens (List.append_nil lines)

/-! ## The members -/

/-- The texts that a request line is written of. -/
structure ConnectionToBrowser.Lines (c : ConnectionToBrowser) : Prop where
  type : SingleLine c.RequestType
  request : SingleLine c.Request
  host : SingleLine c.Host
  user : SingleLine c.FtpUser
  pass : SingleLine c.FtpPass

namespace ConnectionToBrowser

variable {c : ConnectionToBrowser} {line : Str}

theorem lines_login (h : c.Lines) (hline : SingleLine line) : (c.login line).Lines := by
  unfold login
  split
  · split
    · exact ⟨h.type, h.request, h.host, hline.take _, hline.drop _⟩
    · exact ⟨h.type, h.request, h.host, hline, .nil⟩
  · exact h

theorem lines_hostAndPort (h : c.Lines) (hline : SingleLine line) : (hostAndPort line c).2.Lines := by
  unfold hostAndPort
  dsimp only
  split
  · split
    · exact h
    · split
      · exact h
      · split
        · exact ⟨h.type, h.request, h.host, h.user, h.pass⟩
        · exact ⟨h.type, h.request, hline.take _, h.user, h.pass⟩
  · split
    · exact ⟨h.type, h.request, hline, h.user, h.pass⟩
    · exact h

theorem lines_splitDomain (h : c.Lines) (hline : SingleLine line) : (splitDomain line c).2.Lines := by
  unfold splitDomain
  split
  · next LastPosition hat =>
    have hlogin := lines_login h (hline.take LastPosition)
    dsimp only
    split
    · exact hlogin
    · exact lines_hostAndPort hlogin (hline.drop _)
  · exact lines_hostAndPort h hline

theorem lines_splitUrl (h : c.Lines) (hline : SingleLine line) : (splitUrl line c).2.Lines := by
  unfold splitUrl
  cases find ['/'] line with
  | none =>
    exact lines_splitDomain ⟨h.type, .cons (by decide) .nil, h.host, h.user, h.pass⟩ hline
  | some slash =>
    exact lines_splitDomain ⟨h.type, hline.drop slash, h.host, h.user, h.pass⟩ (hline.take slash)

theorem lines_urlRequest (h : c.Lines) (hline : SingleLine line) (Begin : Nat) :
    (urlRequest line Begin c).2.Lines := by
  unfold urlRequest
  split
  · exact h
  · split
    · exact h
    · exact lines_splitUrl ⟨h.type, h.request, h.host, h.user, h.pass⟩ ((hline.drop _).take _)

theorem lines_transparentRequest (h : c.Lines) (hline : SingleLine line) (StartPos : Nat) :
    (transparentRequest line StartPos c).2.Lines := by
  unfold transparentRequest
  split
  · split
    · exact h
    · split
      · exact h
      · exact ⟨h.type, (hline.drop _).take _, h.host, h.user, h.pass⟩
  · exact h

theorem lines_connectRequest (h : c.Lines) (hline : SingleLine line) :
    (connectRequest line c).2.Lines := by
  have hprotocol : ({ c with RequestProtocol := connectText } : ConnectionToBrowser).Lines :=
    ⟨h.type, h.request, h.host, h.user, h.pass⟩
  unfold connectRequest
  dsimp only
  split
  · exact hprotocol
  · split
    · exact hprotocol
    · split
      · exact hprotocol
      · split
        · exact ⟨h.type, h.request, ((hline.drop _).take _).take _, h.user, h.pass⟩
        · split
          · exact ⟨h.type, h.request, ((hline.drop _).take _).take _, h.user, h.pass⟩
          · exact ⟨h.type, (hline.drop _).take _, ((hline.drop _).take _).take _, h.user, h.pass⟩

/-- The members of an accepted line are within it. -/
theorem lines_analyseFirstHeaderLine (sslTunnel : Bool) (h : c.Lines) (hline : SingleLine line) :
    (analyseFirstHeaderLine sslTunnel line c).2.Lines := by
  unfold analyseFirstHeaderLine
  split
  · next m hm =>
    have hmethods : ∀ m ∈ Methods, SingleLine m := by decide
    have htype := hmethods m (List.mem_of_find?_eq_some hm)
    have h' : ({ c with RequestType := m } : ConnectionToBrowser).Lines :=
      ⟨htype, h.request, h.host, h.user, h.pass⟩
    unfold getHostAndPortOfRequest
    split
    · exact lines_connectRequest h' hline
    · split
      · exact lines_transparentRequest h' hline _
      · split
        · refine lines_urlRequest ?_ hline _
          exact ⟨htype, h.request, h.host, h.user, h.pass⟩
        · split
          · refine lines_urlRequest ?_ hline _
            exact ⟨htype, h.request, h.host, h.user, h.pass⟩
          · exact h'
  · exact h

theorem plain_escapeLogin {login : Str} (h : SingleLine login) : SingleLine (escapeLogin login) :=
  ⟨not_mem_escapeLogin h.1 (by decide), not_mem_escapeLogin h.2 (by decide)⟩

theorem plain_authString (h : c.Lines) : SingleLine c.authString := by
  have huser := plain_escapeLogin h.user
  have hpass := plain_escapeLogin h.pass
  unfold authString
  split
  · exact .nil
  · split
    · exact huser.append (by decide)
    · exact (huser.append (.cons (by decide) hpass)).append (by decide)

theorem plain_portString (c : ConnectionToBrowser) : SingleLine c.portString := by
  have hlong : SingleLine (longText c.Port) := by
    constructor
    · intro h
      rcases mem_longText h with h | h <;> revert h <;> decide
    · intro h
      rcases mem_longText h with h | h <;> revert h <;> decide
  unfold portString
  split
  · exact .cons (by decide) hlong
  · exact .nil

/-- The line that is written is one line. -/
theorem plain_requestLine (h : c.Lines) (UseParentProxy : Bool) :
    SingleLine (c.requestLine UseParentProxy) := by
  have hport := plain_portString c
  have hauth := plain_authString h
  have hforwarded : SingleLine (c.forwardedRequest UseParentProxy) := by
    unfold forwardedRequest
    split
    · split
      · exact ((((h.type.append (.cons (by decide) (by decide))).append h.host).append hport).append
          h.request)
      · split
        · exact (((((h.type.append (.cons (by decide) (by decide))).append hauth).append
            h.host).append hport).append h.request)
        · split
          · exact (by decide : SingleLine connectMethod).append (.cons (by decide) h.request)
          · exact .nil
    · exact h.type.append (.cons (by decide) h.request)
  unfold requestLine
  split
  · exact .nil
  · exact hforwarded.append (.cons (by decide) (by decide))

end ConnectionToBrowser

/-! ## The tokens -/

/-- A line that has its blank behind the colon. -/
theorem spacedField_spacedField (line : Str) : spacedField (spacedField line) = spacedField line := by
  by_cases hvalue : fieldValue line = []
  · have hplain : spacedField line = line := if_pos hvalue
    rw [hplain, hplain]
  · have hspaced : spacedField line = line.takeWhile (· ≠ ':') ++ ':' :: ' ' :: fieldValue line :=
      if_neg hvalue
    have hname : ':' ∉ line.takeWhile (· ≠ ':') := fun h => by
      simpa using List.mem_takeWhile_imp h
    obtain ⟨hsame, htake⟩ := HTTPHandler.fieldValue_field hname (' ' :: fieldValue line)
    have hblank : (' ' :: fieldValue line).dropWhile (· ∈ [' ']) = fieldValue line := by
      rw [List.dropWhile_cons_of_pos (by simp)]
      exact List.dropWhile_idempotent _ _
    rw [hspaced, spacedField, hsame, htake, hblank, if_neg hvalue]

theorem Tidy.spaced {line : Str} (h : Tidy line) : Tidy (spacedField line) := by
  by_cases hvalue : fieldValue line = []
  · rw [spacedField, if_pos hvalue]
    exact h
  · have hspaced : spacedField line = line.takeWhile (· ≠ ':') ++ ':' :: ' ' :: fieldValue line :=
      if_neg hvalue
    have hsuffix : fieldValue line <:+ line :=
      (List.dropWhile_suffix _).trans ((List.tail_suffix _).trans (List.dropWhile_suffix _))
    refine ⟨?_, ?_, ?_⟩
    · rw [hspaced]
      refine .append (h.plain.of_subset fun d hd => (List.takeWhile_prefix _).subset hd) ?_
      exact .cons (by decide) (.cons (by decide) (h.plain.of_subset fun d hd => hsuffix.subset hd))
    · rw [List.rdropWhile_eq_self_iff]
      intro hne
      have hlast : (spacedField line).getLast hne = line.getLast h.nonempty := by
        rw [← hsuffix.getLast hvalue]
        simp only [hspaced]
        rw [List.getLast_append_of_ne_nil _ (List.cons_ne_nil _ _), List.getLast_cons (by simp),
          List.getLast_cons hvalue]
      rw [hlast]
      exact List.rdropWhile_eq_self_iff.mp h.trimmed h.nonempty
    · rw [hspaced]
      simp

namespace Client

variable {settings : ClientSettings} {Transparent : Bool} {text : Str} {tokens : List Str}
  {c : Client}

/-- What is known of the members behind a header. -/
structure Lines (c : Client) : Prop where
  browser : c.toConnectionToBrowser.Lines
  address : SingleLine c.IP

theorem lines_new (Transparent : Bool) : (new Transparent).Lines :=
  ⟨⟨.nil, .nil, .nil, .nil, .nil⟩, .nil⟩

/-- A host and an address that are within lines, and nothing else that is changed. -/
theorem Lines.changed {c' : Client} (h : c.Lines) (hhost : SingleLine c'.Host)
    (haddress : SingleLine c'.IP)
    (hsame : c'.RequestType = c.RequestType ∧ c'.Request = c.Request ∧ c'.FtpUser = c.FtpUser ∧
      c'.FtpPass = c.FtpPass) : c'.Lines := by
  obtain ⟨htype, hrequest, huser, hpass⟩ := hsame
  refine ⟨⟨?_, ?_, hhost, ?_, ?_⟩, haddress⟩
  · rw [htype]
    exact h.browser.type
  · rw [hrequest]
    exact h.browser.request
  · rw [huser]
    exact h.browser.user
  · rw [hpass]
    exact h.browser.pass

theorem lines_getHostAndPortOfHostLine {line : Str} (h : c.Lines) (hline : SingleLine line) :
    (getHostAndPortOfHostLine line c).2.Lines := by
  have hhost := hline.drop 6
  unfold getHostAndPortOfHostLine
  dsimp only
  split
  · exact h.changed hhost h.address ⟨rfl, rfl, rfl, rfl⟩
  · split
    · exact h.changed (hhost.take _) h.address ⟨rfl, rfl, rfl, rfl⟩
    · split
      · exact h.changed (hhost.take _) h.address ⟨rfl, rfl, rfl, rfl⟩
      · split <;> exact h.changed (hhost.take _) h.address ⟨rfl, rfl, rfl, rfl⟩

theorem lines_analyseHeaderLine {line : Str} (h : c.Lines) (hline : SingleLine line) :
    (analyseHeaderLine settings line c).2.Lines := by
  unfold analyseHeaderLine
  dsimp only
  split
  · unfold lengthLine
    dsimp only
    split
    · exact h
    · split
      · exact h
      · exact h.changed h.browser.host h.address ⟨rfl, rfl, rfl, rfl⟩
  · split
    · exact h.changed h.browser.host h.address ⟨rfl, rfl, rfl, rfl⟩
    · split
      · exact h.changed h.browser.host h.address ⟨rfl, rfl, rfl, rfl⟩
      · split
        · exact h.changed h.browser.host (hline.drop 17) ⟨rfl, rfl, rfl, rfl⟩
        · split
          · exact h.changed h.browser.host h.address ⟨rfl, rfl, rfl, rfl⟩
          · split
            · exact lines_getHostAndPortOfHostLine h hline
            · exact h

theorem lines_acceptFields {fields : List Str} {c c' : Client} (h : c.Lines)
    (hfields : ∀ field ∈ fields, SingleLine field)
    (haccepts : (handler settings).acceptFields fields c = some c') : c'.Lines := by
  induction fields generalizing c with
  | nil =>
    cases haccepts
    exact h
  | cons field fields ih =>
    rw [HTTPHandler.acceptFields] at haccepts
    split at haccepts
    · cases haccepts
    · have hfield : (analyseHeaderLine settings field c).2.Lines :=
        lines_analyseHeaderLine h (hfields field List.mem_cons_self)
      exact ih hfield (fun f hf => hfields f (List.mem_cons_of_mem field hf)) haccepts

/-- A token behind the first one. -/
theorem Received.token {token : Str} (h : Received settings Transparent text tokens c)
    (hin : token ∈ tokens.tail) : Tidy token ∧ spacedField token = token := by
  have htail : tokens.tail = (headerLines text).tail.map spacedField := by
    rw [h.tokens]
    cases headerLines text <;> rfl
  rw [htail] at hin
  obtain ⟨line, hline, rfl⟩ := List.mem_map.mp hin
  exact ⟨(tidy_of_headerLines (List.mem_of_mem_tail hline)).spaced, spacedField_spacedField line⟩

theorem Received.lines (h : Received settings Transparent text tokens c) : c.Lines := by
  have haccepts := h.accepts
  unfold HTTPHandler.Accepts at haccepts
  split at haccepts
  · subst haccepts
    exact lines_new Transparent
  · next line fields hlines =>
    have htidy : ∀ l ∈ line :: fields, Tidy l := fun l hl => tidy_of_headerLines (hlines ▸ hl)
    have hfirst := ConnectionToBrowser.lines_analyseFirstHeaderLine settings.sslTunnel
      (lines_new Transparent).browser (htidy line List.mem_cons_self).plain
    refine lines_acceptFields ⟨hfirst, .nil⟩ (fun field hfield => ?_) haccepts.2
    obtain ⟨l, hl, rfl⟩ := List.mem_map.mp hfield
    exact (htidy l (List.mem_cons_of_mem line (List.mem_of_mem_filter hl))).spaced.plain

/-! ## One hop -/

/-- `via` in the header for the server. -/
def viaText (tokens : List Str) : Str := tokens.tail.foldl viaOf []

/-- The fields of the browser that are sent. -/
def sentFields (settings : ClientSettings) (tokens : List Str) (c : Client) : List Str :=
  tokens.tail.filterMap (forwardField settings c)

/-- The lines of the header for the server; there may be no request line. -/
def sentLines (settings : ClientSettings) (ConnectionClose : Bool) (tokens : List Str) (c : Client) :
    List Str :=
  c.toConnectionToBrowser.requestLine settings.UseParentProxy ::
    (sentFields settings tokens c ++ ownFields settings c (viaText tokens) ++
      [connectionLine ConnectionClose])

theorem plain_viaOf {via line : Str} (hvia : SingleLine via) (hline : SingleLine line) :
    SingleLine (viaOf via line) := by
  unfold viaOf
  split
  · split
    · exact (by decide : SingleLine ", ".toList).append (hline.drop _)
    · exact hvia
  · exact hvia

theorem plain_foldl_viaOf {lines : List Str} (hlines : ∀ line ∈ lines, SingleLine line) {via : Str}
    (hvia : SingleLine via) : SingleLine (lines.foldl viaOf via) := by
  induction lines generalizing via with
  | nil => exact hvia
  | cons line lines ih =>
    exact ih (fun l hl => hlines l (List.mem_cons_of_mem line hl))
      (plain_viaOf hvia (hlines line List.mem_cons_self))

theorem Lines.getIP (h : c.Lines) (haddress : SingleLine settings.address) :
    SingleLine (c.getIP settings) := by
  unfold Client.getIP
  split
  · exact haddress
  · exact h.address

theorem plain_sentLines (haddress : SingleLine settings.address)
    (h : Received settings Transparent text tokens c) (ConnectionClose : Bool) :
    ∀ line ∈ sentLines settings ConnectionClose tokens c, SingleLine line := by
  have hlines := h.lines
  have htokens : ∀ line ∈ tokens.tail, SingleLine line := fun line hline => (h.token hline).1.plain
  intro line hline
  simp only [sentLines, List.mem_cons, List.mem_append, List.not_mem_nil, or_false] at hline
  rcases hline with rfl | (hline | hline) | rfl
  · exact ConnectionToBrowser.plain_requestLine hlines.browser _
  · obtain ⟨token, htoken, hforward⟩ := List.mem_filterMap.mp hline
    unfold forwardField at hforward
    split at hforward
    · cases hforward
    · split at hforward
      · cases hforward
        exact htokens _ htoken
      · split at hforward
        · cases hforward
          exact (by decide : SingleLine "Host: ".toList).append hlines.browser.host
        · split at hforward
          · cases hforward
            decide
          · cases hforward
            exact htokens _ htoken
  · have hvia : SingleLine (viaText tokens) := plain_foldl_viaOf htokens .nil
    unfold ownFields at hline
    split at hline
    · rcases List.mem_cons.mp hline with rfl | hline
      · exact (by decide : SingleLine "X-Forwarded-For: ".toList).append (hlines.getIP haddress)
      · rw [List.mem_singleton.mp hline]
        exact (by decide : SingleLine "Via: 1.0 Haarp".toList).append hvia
    · rw [List.mem_singleton.mp hline]
      decide
  · cases ConnectionClose <;> decide

theorem headerLines_forward (haddress : SingleLine settings.address)
    (h : Received settings Transparent text tokens c) (ConnectionClose : Bool) :
    headerLines (forward settings ConnectionClose tokens c) =
      lineTokens (sentLines settings ConnectionClose tokens c) := by
  have hplain := plain_sentLines haddress h ConnectionClose
  unfold sentLines at hplain ⊢
  have hwritten : forward settings ConnectionClose tokens c = written
      ((if c.toConnectionToBrowser.requestLine settings.UseParentProxy = [] then [] else
        [c.toConnectionToBrowser.requestLine settings.UseParentProxy]) ++
      (sentFields settings tokens c ++ ownFields settings c (viaText tokens) ++
        [connectionLine ConnectionClose])) ++ crlf := by
    unfold forward prepareHeaderForServer written sentFields viaText
    dsimp only
    split <;> simp
  rw [hwritten]
  by_cases hrequest : c.toConnectionToBrowser.requestLine settings.UseParentProxy = []
  · rw [if_pos hrequest, hrequest, lineTokens_cons, if_pos (by rfl), List.nil_append]
    exact headerLines_written fun line hline => hplain line (List.mem_cons_of_mem _ hline)
  · rw [if_neg hrequest]
    exact headerLines_written hplain

theorem lineTokens_append (lines more : List Str) :
    lineTokens (lines ++ more) = lineTokens lines ++ lineTokens more := by
  simp [lineTokens]

/-! ## The fields of a hop -/

/-- The line begins with one of the names. -/
def begins (names : List String) (line : Str) : Bool :=
  names.any fun name => name.toList.isPrefixOf (UpperCase line)

/-- What `PrepareHeaderForServer` knows of the name of a field: it is for a proxy, it is one of those
that the proxy writes itself or leaves out, it is rewritten, or it is any other one. -/
inductive FieldKind
  | proxy
  | own
  | host
  | encoding
  | other
  deriving DecidableEq, Repr

def kindOf (line : Str) : FieldKind :=
  if begins ["PROXY"] line then .proxy
  else if begins ["KEEP-ALIVE", "VIA", "CONNECTION", "X-FORWARD"] line then .own
  else if begins ["HOST"] line then .host
  else if begins ["ACCEPT-ENCODING"] line then .encoding
  else .other

/-- The line of the host, without the port. -/
def hostLine (c : Client) : Str := ("Host: ".toList ++ c.Host).rdropWhile (· ∈ ['\t', ' '])

/-- What a server gets for a field of the browser. -/
def sentAs (settings : ClientSettings) (c : Client) (line : Str) : FieldKind → List Str
  | .proxy =>
    if settings.UseParentProxy && begins ["PROXY-AUTHORIZATION"] line then [line] else []
  | .own => []
  | .host => [hostLine c]
  | .encoding => [if c.rewritten then "Accept-Encoding:".toList else line]
  | .other => [line]

theorem begins_iff {names : List String} {line : Str} :
    begins names line = true ↔ ∃ name ∈ names, name.toList <+: UpperCase line := by
  simp [begins]

/-- Names that do not begin with each other. -/
theorem begins_disjoint {names names' : List String} {line : Str}
    (hnames : ∀ a ∈ names, ∀ b ∈ names', ¬ a.toList <+: b.toList ∧ ¬ b.toList <+: a.toList)
    (h : begins names line = true) : begins names' line = false := by
  obtain ⟨a, ha, hline⟩ := begins_iff.mp h
  rw [← Bool.not_eq_true, begins_iff]
  rintro ⟨b, hb, hline'⟩
  exact not_prefix hline (hnames a ha b hb).1 (hnames a ha b hb).2 hline'

/-- The front of a text stays when the blanks at its end are taken away. -/
theorem rdropWhile_front {front : Str} (hlast : ∀ d ∈ front.getLast?, d ∉ ['\t', ' '])
    (str : Str) : front <+: (front ++ str).rdropWhile (· ∈ ['\t', ' ']) := by
  induction str using List.reverseRecOn with
  | nil =>
    have hfront : front.rdropWhile (· ∈ ['\t', ' ']) = front := by
      refine List.rdropWhile_eq_self_iff.mpr fun hne => ?_
      simpa using hlast _ (List.getLast?_eq_getLast_of_ne_nil hne)
    rw [List.append_nil, hfront]
  | append_singleton str d ih =>
    rw [← List.append_assoc, List.rdropWhile_concat]
    split
    · exact ih
    · rw [List.append_assoc]
      exact List.prefix_append _ _

/-- A line that is written behind a front which does not end in a blank. -/
theorem lineTokens_front (front : Str) (hlast : ∀ d ∈ front.getLast?, d ∉ ['\t', ' '])
    (hfront : front ≠ []) (str : Str) :
    lineTokens [front ++ str] = [(front ++ str).rdropWhile (· ∈ ['\t', ' '])] := by
  refine List.filter_eq_self.mpr fun line hline => ?_
  obtain ⟨l, hl, rfl⟩ := List.mem_map.mp hline
  obtain rfl := List.mem_singleton.mp hl
  have hleads := rdropWhile_front hlast str
  rw [decide_eq_true_eq]
  intro hnil
  rw [hnil] at hleads
  exact hfront (List.prefix_nil.mp hleads)

/-- The name at the front of a line that is written. -/
theorem begins_front (names : List String) (front : Str)
    (hlast : ∀ d ∈ front.getLast?, d ∉ ['\t', ' '])
    (hname : ∃ name ∈ names, name.toList <+: UpperCase front) (str : Str) :
    begins names ((front ++ str).rdropWhile (· ∈ ['\t', ' '])) = true := by
  obtain ⟨name, hin, hprefix⟩ := hname
  exact begins_iff.mpr ⟨name, hin, hprefix.trans ((rdropWhile_front hlast str).map upper)⟩

theorem kindOf_own {line : Str}
    (h : begins ["KEEP-ALIVE", "VIA", "CONNECTION", "X-FORWARD"] line = true) :
    kindOf line = .own := by
  have hproxy : begins ["PROXY"] line = false := begins_disjoint (by decide) h
  rw [kindOf, hproxy, h]
  rfl

theorem kindOf_hostLine (c : Client) : kindOf (hostLine c) = .host := by
  have h : begins ["HOST"] (hostLine c) = true :=
    begins_front ["HOST"] "Host:".toList (by rintro d ⟨⟩; decide)
      ⟨"HOST", List.mem_singleton_self _, by decide⟩ (' ' :: c.Host)
  have hproxy : begins ["PROXY"] (hostLine c) = false := begins_disjoint (by decide) h
  have hown : begins ["KEEP-ALIVE", "VIA", "CONNECTION", "X-FORWARD"] (hostLine c) = false :=
    begins_disjoint (by decide) h
  rw [kindOf, hproxy, hown, h]
  rfl

/-- What is sent for a field is of its kind. -/
theorem kindOf_sentAs {line sent : Str} (h : sent ∈ sentAs settings c line (kindOf line)) :
    kindOf sent = kindOf line := by
  cases hkind : kindOf line with
  | proxy =>
    rw [hkind, sentAs] at h
    split at h
    · rw [List.mem_singleton.mp h, hkind]
    · cases h
  | own =>
    rw [hkind] at h
    cases h
  | host =>
    rw [hkind] at h
    rw [List.mem_singleton.mp h, kindOf_hostLine]
  | encoding =>
    rw [hkind] at h
    rw [List.mem_singleton.mp h]
    split
    · decide
    · exact hkind
  | other =>
    rw [hkind] at h
    rw [List.mem_singleton.mp h, hkind]

/-- One field of the browser. -/
theorem lineTokens_forwardField {line : Str} (htidy : lineTokens [line] = [line]) :
    lineTokens (forwardField settings c line).toList = sentAs settings c line (kindOf line) := by
  have hbegins : ∀ name : String, name.toList.isPrefixOf (UpperCase line) = begins [name] line :=
    fun name => by simp [begins]
  have hown : (begins ["KEEP-ALIVE"] line || begins ["VIA"] line || begins ["CONNECTION"] line ||
      begins ["X-FORWARD"] line) =
        begins ["KEEP-ALIVE", "VIA", "CONNECTION", "X-FORWARD"] line := by
    simp [begins, Bool.or_assoc]
  simp only [forwardField, unsent, hbegins, hown]
  unfold kindOf
  cases begins ["PROXY"] line with
  | true =>
    cases hparent : settings.UseParentProxy && begins ["PROXY-AUTHORIZATION"] line with
    | true => simp [sentAs, hparent, htidy]
    | false => simp [sentAs, hparent, lineTokens]
  | false =>
    cases begins ["KEEP-ALIVE", "VIA", "CONNECTION", "X-FORWARD"] line with
    | true => simp [sentAs, lineTokens]
    | false =>
      cases begins ["HOST"] line with
      | true =>
        exact lineTokens_front "Host:".toList (by rintro d ⟨⟩; decide) (by decide)
          (' ' :: c.Host)
      | false =>
        cases begins ["ACCEPT-ENCODING"] line with
        | true =>
          cases hpage : c.rewritten with
          | true => simp [sentAs, hpage]; decide
          | false => simp [sentAs, hpage, htidy]
        | false => simp [sentAs, htidy]

theorem lineTokens_tidy {lines : List Str} (h : ∀ line ∈ lines, Tidy line) :
    lineTokens lines = lines := by
  have hmap : lines.map (fun line => line.rdropWhile (· ∈ ['\t', ' '])) = lines :=
    (List.map_congr_left fun line hline => (h line hline).trimmed).trans (List.map_id lines)
  rw [lineTokens, hmap]
  exact List.filter_eq_self.mpr fun line hline => by simpa using (h line hline).nonempty

/-- The fields of one kind. -/
theorem filter_forwardField (k : FieldKind) {lines : List Str}
    (htidy : ∀ line ∈ lines, lineTokens [line] = [line]) :
    (lineTokens (lines.filterMap (forwardField settings c))).filter (kindOf · = k) =
      (lines.filter (kindOf · = k)).flatMap (sentAs settings c · k) := by
  induction lines with
  | nil => rfl
  | cons line lines ih =>
    have hsent : (sentAs settings c line (kindOf line)).filter (kindOf · = k) =
        if kindOf line = k then sentAs settings c line k else [] := by
      split
      · next hkind =>
        subst hkind
        exact List.filter_eq_self.mpr fun sent hin => decide_eq_true (kindOf_sentAs hin)
      · next hkind =>
        refine List.filter_eq_nil_iff.mpr fun sent hin => ?_
        rw [kindOf_sentAs hin]
        simpa using hkind
    have hcons : (line :: lines).filterMap (forwardField settings c) =
        (forwardField settings c line).toList ++ lines.filterMap (forwardField settings c) := by
      cases h : forwardField settings c line <;> simp [h]
    rw [hcons, lineTokens_append, lineTokens_forwardField (htidy line List.mem_cons_self),
      List.filter_append, hsent, ih fun l hl => htidy l (List.mem_cons_of_mem line hl),
      List.filter_cons]
    by_cases hkind : kindOf line = k
    · simp [hkind]
    · simp [hkind]

/-- The fields that the proxy writes itself. -/
theorem kindOf_ownFields {line via : Str} (h : line ∈ lineTokens (ownFields settings c via)) :
    kindOf line = .own := by
  have hfor := begins_front ["KEEP-ALIVE", "VIA", "CONNECTION", "X-FORWARD"]
    "X-Forwarded-For:".toList (by rintro d ⟨⟩; decide) ⟨"X-FORWARD", by simp, by decide⟩
    (' ' :: c.getIP settings)
  have hvia := begins_front ["KEEP-ALIVE", "VIA", "CONNECTION", "X-FORWARD"]
    "Via: 1.0 Haarp".toList (by rintro d ⟨⟩; decide) ⟨"VIA", by simp, by decide⟩ via
  obtain ⟨written, hin, rfl, -⟩ := mem_lineTokens h
  unfold ownFields at hin
  split at hin
  · rcases List.mem_cons.mp hin with rfl | hin
    · exact kindOf_own hfor
    · rw [List.mem_singleton.mp hin]
      exact kindOf_own hvia
  · rw [List.mem_singleton.mp hin]
    decide

/-- **What a server reads**: behind the request line stand the proxy's own fields with one
`Connection` at the end, and for each field of the browser what `sentAs` tells; the fields of each
kind stand in their order. -/
theorem forward_fields (settings : ClientSettings) (Transparent ConnectionClose : Bool) (text : Str)
    (tokens : List Str) (c : Client) (haddress : SingleLine settings.address)
    (h : receive settings Transparent text = some (tokens, c)) :
    ∃ fields,
      headerLines (forward settings ConnectionClose tokens c) =
        lineTokens [c.toConnectionToBrowser.requestLine settings.UseParentProxy] ++ fields ∧
      fields.filter (kindOf · = .own) =
        lineTokens (ownFields settings c (viaText tokens)) ++ [connectionLine ConnectionClose] ∧
      ∀ k ≠ .own, fields.filter (kindOf · = k) =
        (((headerLines text).tail.map spacedField).filter (kindOf · = k)).flatMap
          (sentAs settings c · k) := by
  have hreceived := receive_iff.mp h
  have htidy : ∀ line ∈ tokens.tail, lineTokens [line] = [line] := fun line hline =>
    lineTokens_tidy (by simpa using (hreceived.token hline).1)
  have htail : tokens.tail = (headerLines text).tail.map spacedField := by
    rw [hreceived.tokens]
    cases headerLines text <;> rfl
  have hconnection :
      lineTokens [connectionLine ConnectionClose] = [connectionLine ConnectionClose] := by
    cases ConnectionClose <;> decide
  have hlast : kindOf (connectionLine ConnectionClose) = .own := by
    cases ConnectionClose <;> decide
  have happend : sentLines settings ConnectionClose tokens c =
      [c.toConnectionToBrowser.requestLine settings.UseParentProxy] ++ (sentFields settings tokens c ++
        (ownFields settings c (viaText tokens) ++ [connectionLine ConnectionClose])) := by
    simp [sentLines]
  have hown : ∀ line ∈ lineTokens (ownFields settings c (viaText tokens)) ++
      [connectionLine ConnectionClose], kindOf line = .own := by
    intro line hin
    rcases List.mem_append.mp hin with hin | hin
    · exact kindOf_ownFields hin
    · rw [List.mem_singleton.mp hin, hlast]
  refine ⟨lineTokens (sentFields settings tokens c) ++
    (lineTokens (ownFields settings c (viaText tokens)) ++ [connectionLine ConnectionClose]),
    ?_, ?_, fun k hk => ?_⟩
  · rw [headerLines_forward haddress hreceived, happend, lineTokens_append, lineTokens_append,
      lineTokens_append, hconnection]
  · rw [List.filter_append, sentFields, filter_forwardField .own htidy,
      List.filter_eq_self.mpr fun line hin => decide_eq_true (hown line hin)]
    simp [sentAs]
  · have hnone : (lineTokens (ownFields settings c (viaText tokens)) ++
        [connectionLine ConnectionClose]).filter (kindOf · = k) = [] := by
      refine List.filter_eq_nil_iff.mpr fun line hin => ?_
      rw [hown line hin]
      simpa using hk.symm
    rw [List.filter_append, hnone, List.append_nil, sentFields, filter_forwardField k htidy, htail]

theorem forward_fields_contrary :
    ∃ tokens c fields, receive openProxy false contraryHeader = some (tokens, c) ∧
      headerLines (forward openProxy true tokens c) = ["GET http://h/ HTTP/1.0".toList] ++ fields ∧
      fields.filter (kindOf · = .own) =
        ["X-Forwarded-For: 10.0.0.7".toList, "Via: 1.0 Haarp".toList, "Connection: close".toList] ∧
      fields.filter (kindOf · = .other) =
        ["Content-Length: 3".toList, "Content-Length: x".toList] := by
  have hreceived : ((receive openProxy false contraryHeader).map fun p =>
      (lineTokens [p.2.toConnectionToBrowser.requestLine openProxy.UseParentProxy],
        lineTokens (ownFields openProxy p.2 (viaText p.1)) ++ [connectionLine true],
        (((headerLines contraryHeader).tail.map spacedField).filter (kindOf · = .other)).flatMap
          (sentAs openProxy p.2 · .other))) =
      some (["GET http://h/ HTTP/1.0".toList],
        ["X-Forwarded-For: 10.0.0.7".toList, "Via: 1.0 Haarp".toList, "Connection: close".toList],
        ["Content-Length: 3".toList, "Content-Length: x".toList]) := by
    decide +kernel
  obtain ⟨⟨tokens, c⟩, h, hlines⟩ := Option.map_eq_some_iff.mp hreceived
  simp only [Prod.mk.injEq] at hlines
  obtain ⟨hrequest, hown, hother⟩ := hlines
  obtain ⟨fields, hread, howned, hkinds⟩ :=
    forward_fields openProxy false true contraryHeader tokens c (by decide) h
  exact ⟨tokens, c, fields, h, hread.trans (congrArg (· ++ fields) hrequest), howned.trans hown,
    (hkinds .other (by decide)).trans hother⟩

/-! ## The address -/

/-- A text that is the same behind another hop. -/
structure Address (str : Str) : Prop where
  tidy : Tidy str
  front : str.head? ≠ some ' '

theorem UpperCase_append (str str' : Str) :
    UpperCase (str ++ str') = UpperCase str ++ UpperCase str' :=
  List.map_append

/-- The value of a field behind its name, in any case. -/
theorem drop_spacedField {line name : Str} (hname : ':' ∉ name)
    (h : name ++ [':', ' '] <+: UpperCase (spacedField line)) (hvalue : fieldValue line ≠ []) :
    (spacedField line).drop (name.length + 2) = fieldValue line := by
  have hspaced : spacedField line = line.takeWhile (· ≠ ':') ++ ':' :: ' ' :: fieldValue line :=
    if_neg hvalue
  have hfront : ':' ∉ UpperCase (line.takeWhile (· ≠ ':')) := by
    intro hin
    obtain ⟨d, hd, hupper⟩ := List.mem_map.mp hin
    simpa [ConnectionToHTTP.upper_eq_iff (by decide) hupper] using List.mem_takeWhile_imp hd
  obtain ⟨rest, hrest⟩ := h
  rw [hspaced, UpperCase_append, List.append_assoc] at hrest
  have hsame : name = UpperCase (line.takeWhile (· ≠ ':')) := (append_cons_inj hname hfront hrest).1
  have hlength : (line.takeWhile (· ≠ ':')).length = name.length := by
    rw [hsame, UpperCase, List.length_map]
  rw [hspaced, ← hlength, List.drop_length_add_append]
  rfl

theorem address_fieldValue {line : Str} (h : Tidy line) (hvalue : fieldValue line ≠ []) :
    Address (fieldValue line) := by
  have hsuffix : fieldValue line <:+ line :=
    (List.dropWhile_suffix _).trans ((List.tail_suffix _).trans (List.dropWhile_suffix _))
  refine ⟨⟨h.plain.of_subset fun d hd => hsuffix.subset hd, ?_, hvalue⟩, ?_⟩
  · rw [List.rdropWhile_eq_self_iff]
    intro hne
    rw [hsuffix.getLast hne]
    exact List.rdropWhile_eq_self_iff.mp h.trimmed h.nonempty
  · have hfront := List.head?_dropWhile_not (· ∈ [' ']) ((line.dropWhile (· ≠ ':')).tail)
    intro hblank
    rw [← fieldValue, hblank] at hfront
    simp at hfront

/-- The address that is kept of a header is the value of a field. -/
theorem Received.address (h : Received settings Transparent text tokens c)
    (haddress : Address settings.address) : Address (c.getIP settings) := by
  unfold getIP
  split
  · exact haddress
  · next hne =>
    have hlast := h.tells.address
    have hnone : (firstLine settings Transparent text).IP = [] := by
      unfold firstLine
      split <;> rfl
    rw [hnone] at hlast
    cases htells : ((fieldsOf text).filterMap (tellsAddress settings)).getLast? with
    | none =>
      rw [htells] at hlast
      exact absurd hlast hne
    | some ip =>
      rw [htells, Option.getD_some] at hlast
      obtain ⟨field, hfield, hip⟩ := List.mem_filterMap.mp (List.mem_of_getLast? htells)
      obtain ⟨line, hline, rfl⟩ := List.mem_map.mp hfield
      obtain ⟨hline, hvalue⟩ := List.mem_filter.mp hline
      unfold tellsAddress at hip
      split at hip
      · next hname =>
        have hdrop : (spacedField line).drop ("X-FORWARDED-FOR".toList.length + 2) = fieldValue line :=
          drop_spacedField (by decide) hname.2 (by simpa using hvalue)
        have htidy : Tidy line := tidy_of_headerLines (List.mem_of_mem_tail hline)
        rw [hlast, ← Option.some.inj hip, show 17 = "X-FORWARDED-FOR".toList.length + 2 from rfl,
          hdrop]
        exact address_fieldValue htidy (by simpa using hvalue)
      · cases hip

/-! ## A chain of hops -/

/-- The line that names the browser. -/
def forwardedForLine (ip : Str) : Str := "X-Forwarded-For: ".toList ++ ip

/-- The line that names the proxies. -/
def viaLine (via : Str) : Str := "Via: 1.0 Haarp".toList ++ via

theorem spacedField_forwardedForLine {ip : Str} (h : Address ip) :
    fieldValue (forwardedForLine ip) = ip ∧
      spacedField (forwardedForLine ip) = forwardedForLine ip := by
  have hfield : forwardedForLine ip = "X-Forwarded-For".toList ++ ':' :: ' ' :: ip := rfl
  have hvalue : fieldValue (forwardedForLine ip) = ip := by
    rw [hfield, (HTTPHandler.fieldValue_field (by decide) (' ' :: ip)).1,
      List.dropWhile_cons_of_pos (by simp)]
    cases hip : ip with
    | nil => rfl
    | cons d rest =>
      have hd := h.front
      rw [hip] at hd
      exact List.dropWhile_cons_of_neg (by simpa using hd)
  refine ⟨hvalue, ?_⟩
  rw [spacedField, hvalue, if_neg h.tidy.nonempty, hfield,
    (HTTPHandler.fieldValue_field (by decide) (' ' :: ip)).2]

theorem spacedField_viaLine (via : Str) :
    fieldValue (viaLine via) = "1.0 Haarp".toList ++ via ∧
      spacedField (viaLine via) = viaLine via := by
  have hfield : viaLine via = "Via".toList ++ ':' :: (" 1.0 Haarp".toList ++ via) := rfl
  have hvalue : fieldValue (viaLine via) = "1.0 Haarp".toList ++ via := by
    rw [hfield, (HTTPHandler.fieldValue_field (by decide) _).1]
    rfl
  refine ⟨hvalue, ?_⟩
  rw [spacedField, hvalue, if_neg (by simp), hfield, (HTTPHandler.fieldValue_field (by decide) _).2]
  rfl

theorem tidy_behind {front str : Str} (hfront : SingleLine front) (h : Tidy str) :
    Tidy (front ++ str) := by
  refine ⟨hfront.append h.plain, ?_, fun hnil => h.nonempty (List.append_eq_nil_iff.mp hnil).2⟩
  rw [List.rdropWhile_eq_self_iff]
  intro hne
  rw [List.getLast_append_of_ne_nil _ h.nonempty]
  exact List.rdropWhile_eq_self_iff.mp h.trimmed h.nonempty

/-- There is no text of other proxies, or one that a line can end with. -/
theorem Received.via (h : Received settings Transparent text tokens c) :
    viaText tokens = [] ∨ Tidy (viaText tokens) := by
  have htokens : ∀ line ∈ tokens.tail, Tidy line := fun line hline => (h.token hline).1
  have hstep : ∀ lines : List Str, (∀ line ∈ lines, Tidy line) → ∀ via : Str, via = [] ∨ Tidy via →
      lines.foldl viaOf via = [] ∨ Tidy (lines.foldl viaOf via) := by
    intro lines
    induction lines with
    | nil => exact fun _ via hvia => hvia
    | cons line lines ih =>
      intro hlines via hvia
      refine ih (fun l hl => hlines l (List.mem_cons_of_mem line hl)) (viaOf via line) ?_
      unfold viaOf
      split
      · split
        · next Position hPosition =>
          have hline := hlines line List.mem_cons_self
          have hlt : Position < (line.drop 4).length :=
            (List.findIdx?_eq_some_iff_getElem.mp hPosition).1
          have hne : line.drop (4 + Position) ≠ [] := by
            rw [List.length_drop] at hlt
            exact List.ne_nil_of_length_pos (by rw [List.length_drop]; omega)
          refine .inr (tidy_behind (by decide) ⟨hline.plain.drop _, ?_, hne⟩)
          rw [List.rdropWhile_eq_self_iff]
          intro hne
          rw [List.getLast_drop]
          exact List.rdropWhile_eq_self_iff.mp hline.trimmed hline.nonempty
        · exact hvia
      · exact hvia
  exact hstep tokens.tail htokens [] (.inl rfl)

/-- The lines that are written last, behind all that is kept of the browser. -/
theorem headerLines_named (h : Received settings Transparent text tokens c)
    (haddress : Address settings.address) (hfor : settings.X_FORWARDED_FOR = true)
    (ConnectionClose : Bool) :
    headerLines (forward settings ConnectionClose tokens c) =
      lineTokens (c.toConnectionToBrowser.requestLine settings.UseParentProxy ::
        sentFields settings tokens c) ++
      [forwardedForLine (c.getIP settings), viaLine (viaText tokens),
        connectionLine ConnectionClose] := by
  have hown : ownFields settings c (viaText tokens) =
      [forwardedForLine (c.getIP settings), viaLine (viaText tokens)] := if_pos hfor
  have htidy : ∀ line ∈ [forwardedForLine (c.getIP settings), viaLine (viaText tokens),
      connectionLine ConnectionClose], Tidy line := by
    intro line hline
    simp only [List.mem_cons, List.not_mem_nil, or_false] at hline
    rcases hline with rfl | rfl | rfl
    · exact tidy_behind (by decide) (h.address haddress).tidy
    · rcases h.via with hvia | hvia
      · rw [hvia]
        exact ⟨by decide, by decide, by decide⟩
      · exact tidy_behind (by decide) hvia
    · cases ConnectionClose <;> exact ⟨by decide, by decide, by decide⟩
  rw [headerLines_forward haddress.tidy.plain h, sentLines, hown, List.append_assoc,
    ← List.cons_append, lineTokens_append]
  exact congrArg _ (lineTokens_tidy htidy)

/-- A header that begins with the name of the browser has no request line. -/
theorem refuses_forwardedForLine (settings : ClientSettings) (ip : Str) (c : Client) :
    (analyseFirstHeaderLine settings (forwardedForLine ip) c).1 = -202 := by
  have hmethods : ∀ m ∈ Methods, m.head? ≠ some 'X' ∧ m ≠ [] := by decide
  have hnone : (Methods.find? fun m =>
      find (m ++ [' ']) (UpperCase (forwardedForLine ip)) = some 0) = none := by
    refine List.find?_eq_none.mpr fun m hm => ?_
    rw [decide_eq_true_eq, find_eq_zero]
    intro hprefix
    cases m with
    | nil => exact (hmethods [] hm).2 rfl
    | cons d m =>
      have hd : d = 'X' := (List.cons_prefix_cons.mp hprefix).1
      exact (hmethods (d :: m) hm).1 (congrArg some hd)
  unfold analyseFirstHeaderLine ConnectionToBrowser.analyseFirstHeaderLine
  rw [hnone]

theorem spacedFields_append (lines more : List Str) :
    spacedFields (lines ++ more) = spacedFields lines ++ spacedFields more := by
  simp [spacedFields]

/-- The lines that name the browser and the proxies, as the next hop has them. -/
def namedLines (settings : ClientSettings) (ConnectionClose : Bool) (tokens : List Str) (c : Client) :
    List Str :=
  [forwardedForLine (c.getIP settings), viaLine (viaText tokens), connectionLine ConnectionClose]

theorem spacedField_connectionLine (ConnectionClose : Bool) :
    fieldValue (connectionLine ConnectionClose) ≠ [] ∧
      spacedField (connectionLine ConnectionClose) = connectionLine ConnectionClose := by
  cases ConnectionClose <;> decide

theorem map_spacedField_namedLines (hip : Address (c.getIP settings)) (ConnectionClose : Bool) :
    (namedLines settings ConnectionClose tokens c).map spacedField =
      namedLines settings ConnectionClose tokens c := by
  rw [namedLines, List.map_cons, List.map_cons, List.map_cons, (spacedField_forwardedForLine hip).2,
    (spacedField_viaLine _).2, (spacedField_connectionLine ConnectionClose).2]
  rfl

theorem spacedFields_namedLines (hip : Address (c.getIP settings)) (ConnectionClose : Bool) :
    spacedFields (namedLines settings ConnectionClose tokens c) =
      namedLines settings ConnectionClose tokens c := by
  have hvalues : ∀ line ∈ namedLines settings ConnectionClose tokens c, fieldValue line ≠ [] := by
    intro line hline
    simp only [namedLines, List.mem_cons, List.not_mem_nil, or_false] at hline
    rcases hline with rfl | rfl | rfl
    · rw [(spacedField_forwardedForLine hip).1]
      exact hip.tidy.nonempty
    · rw [(spacedField_viaLine _).1]
      simp
    · exact (spacedField_connectionLine ConnectionClose).1
  rw [spacedFields, List.filter_eq_self.mpr fun line hline => by simpa using hvalues line hline]
  exact map_spacedField_namedLines hip ConnectionClose

/-- The last address is the one that is written. -/
theorem getLast?_tellsAddress {next : ClientSettings} (hbelieve : next.FORWARDED_IP = true)
    (front : List Str) (ConnectionClose : Bool) :
    ((front ++ namedLines settings ConnectionClose tokens c).filterMap (tellsAddress next)).getLast? =
      some (c.getIP settings) := by
  have hnamed : tellsAddress next (forwardedForLine (c.getIP settings)) = some (c.getIP settings) :=
    if_pos ⟨hbelieve, ⟨UpperCase (c.getIP settings), rfl⟩⟩
  have hvia : ¬ forwardedForName <+: UpperCase (viaLine (viaText tokens)) := fun hname =>
    absurd (List.cons_prefix_cons.mp hname).1 (by decide)
  have hconnection : ¬ forwardedForName <+: UpperCase (connectionLine ConnectionClose) := by
    cases ConnectionClose <;> decide
  have hnone : tellsAddress next (viaLine (viaText tokens)) = none := if_neg fun h => hvia h.2
  have hnone' : tellsAddress next (connectionLine ConnectionClose) = none :=
    if_neg fun h => hconnection h.2
  rw [namedLines, List.filterMap_append, List.filterMap_cons_some hnamed,
    List.filterMap_cons_none hnone, List.filterMap_cons_none hnone', List.filterMap_nil,
    List.getLast?_concat]

/-- The last text of other proxies is the one that is written. -/
theorem foldl_viaOf_namedLines (front : List Str) (ConnectionClose : Bool) :
    (front ++ namedLines settings ConnectionClose tokens c).foldl viaOf [] =
      ", 1.0 Haarp".toList ++ viaText tokens := by
  have hfor : ∀ via, viaOf via (forwardedForLine (c.getIP settings)) = via := fun _ => rfl
  have hvia : ∀ via, viaOf via (viaLine (viaText tokens)) = ", 1.0 Haarp".toList ++ viaText tokens :=
    fun _ => rfl
  have hconnection : ∀ via, viaOf via (connectionLine ConnectionClose) = via := by
    cases ConnectionClose <;> exact fun _ => rfl
  rw [namedLines, List.foldl_append, List.foldl_cons, List.foldl_cons, List.foldl_cons, hfor, hvia,
    hconnection]
  rfl

/-- What the next hop reads of the browser, and of the hops in front of it. -/
theorem Received.next {next : ClientSettings} {Transparent' ConnectionClose : Bool}
    {tokens' : List Str} {c' : Client} (h : Received settings Transparent text tokens c)
    (haddress : Address settings.address) (hfor : settings.X_FORWARDED_FOR = true)
    (hbelieve : next.FORWARDED_IP = true)
    (hnext : Received next Transparent' (forward settings ConnectionClose tokens c) tokens' c') :
    c'.getIP next = c.getIP settings ∧ viaText tokens' = ", 1.0 Haarp".toList ++ viaText tokens := by
  have hip := h.address haddress
  have hlines := headerLines_named h haddress hfor ConnectionClose
  have hfront : lineTokens (c.toConnectionToBrowser.requestLine settings.UseParentProxy ::
      sentFields settings tokens c) ≠ [] := by
    intro hempty
    have haccepts := hnext.accepts
    rw [hlines, hempty, List.nil_append] at haccepts
    have hcode : (0 : Int) ≤ (analyseFirstHeaderLine next _ (new Transparent')).1 := haccepts.1
    rw [refuses_forwardedForLine] at hcode
    exact absurd hcode (by decide)
  have htail : (headerLines (forward settings ConnectionClose tokens c)).tail = _ :=
    (congrArg List.tail hlines).trans (List.tail_append_of_ne_nil hfront)
  constructor
  · have htells := hnext.tells.address
    rw [fieldsOf, htail, spacedFields_append, ← namedLines, spacedFields_namedLines hip,
      getLast?_tellsAddress hbelieve, Option.getD_some] at htells
    rw [getIP, htells, if_neg hip.tidy.nonempty]
  · have htokens : tokens'.tail = (headerLines (forward settings ConnectionClose tokens c)).tail.map
        spacedField := by
      rw [hnext.tokens]
      cases headerLines (forward settings ConnectionClose tokens c) <;> rfl
    rw [viaText, htokens, htail, List.map_append, ← namedLines, map_spacedField_namedLines hip,
      foldl_viaOf_namedLines]

end Client

/-- A proxy on the way, and how its client and its server are connected. -/
structure Hop where
  settings : ClientSettings
  Transparent : Bool
  ConnectionClose : Bool
  deriving DecidableEq, Repr

namespace Hop

/-- A header behind a number of proxies, if each of them accepts it. -/
def travel : List Hop → Str → Option Str
  | [], text => some text
  | hop :: hops, text =>
    match Client.receive hop.settings hop.Transparent text with
    | none => none
    | some (tokens, c) => travel hops (Client.forward hop.settings hop.ConnectionClose tokens c)

/-- **Behind any number of proxies** that forward the address and believe each other, the address is
the one that the first of them has of the browser, whatever other fields the header has; and each of
them is named in front of the ones that the first has found. -/
theorem chain_address (first last : Hop) (hops : List Hop) (text sent : Str)
    (tokens tokens' : List Str) (c c' : Client)
    (haddress : ∀ hop ∈ first :: hops, Client.Address hop.settings.address)
    (hfor : ∀ hop ∈ first :: hops, hop.settings.X_FORWARDED_FOR = true)
    (hbelieve : ∀ hop ∈ hops ++ [last], hop.settings.FORWARDED_IP = true)
    (hfirst : Client.receive first.settings first.Transparent text = some (tokens, c))
    (htravel : travel hops (Client.forward first.settings first.ConnectionClose tokens c) = some sent)
    (hlast : Client.receive last.settings last.Transparent sent = some (tokens', c')) :
    c'.getIP last.settings = c.getIP first.settings ∧
      Client.viaText tokens' =
        (List.replicate (hops.length + 1) ", 1.0 Haarp".toList).flatten ++ Client.viaText tokens := by
  induction hops generalizing first text tokens c with
  | nil =>
    cases htravel
    exact (Client.receive_iff.mp hfirst).next (haddress first List.mem_cons_self)
      (hfor first List.mem_cons_self) (hbelieve last (List.mem_singleton_self last))
      (Client.receive_iff.mp hlast)
  | cons hop hops ih =>
    rw [travel] at htravel
    split at htravel
    · cases htravel
    · next tokens₁ c₁ hhop =>
      obtain ⟨hip, hvia⟩ := (Client.receive_iff.mp hfirst).next (haddress first List.mem_cons_self)
        (hfor first List.mem_cons_self) (hbelieve hop List.mem_cons_self) (Client.receive_iff.mp hhop)
      obtain ⟨hip', hvia'⟩ := ih hop _ tokens₁ c₁
        (fun h hin => haddress h (List.mem_cons_of_mem first hin))
        (fun h hin => hfor h (List.mem_cons_of_mem first hin))
        (fun h hin => hbelieve h (List.mem_cons_of_mem hop hin)) hhop htravel
      refine ⟨hip'.trans hip, ?_⟩
      have hmore : List.replicate (hops.length + 1 + 1) ", 1.0 Haarp".toList =
          List.replicate (hops.length + 1) ", 1.0 Haarp".toList ++ [", 1.0 Haarp".toList] :=
        List.replicate_succ'
      rw [hvia', hvia, List.length_cons, hmore, List.flatten_append, List.append_assoc]
      rfl

/-- An office with a proxy, whose parent has another one. -/
def office : Hop := ⟨Client.openProxy, false, true⟩

def parent : Hop := ⟨{ Client.openProxy with address := "10.0.0.2".toList }, false, false⟩

def namedHeader : Str :=
  ("GET http://h/ HTTP/1.1\r\nVia: 1.1 a\r\nX-Forwarded-For:  10.0.0.7\r\nAccept: b \r\n\r\n").toList

theorem chain_address_office :
    ∃ tokens c sent tokens' c',
      Client.receive office.settings office.Transparent namedHeader = some (tokens, c) ∧
      travel [parent] (Client.forward office.settings office.ConnectionClose tokens c) = some sent ∧
      Client.receive parent.settings parent.Transparent sent = some (tokens', c') ∧
      c'.getIP parent.settings = "10.0.0.7".toList ∧
      Client.viaText tokens' = ", 1.0 Haarp, 1.0 Haarp, 1.1 a".toList := by
  have hreceived : ((Client.receive office.settings office.Transparent namedHeader).map fun p =>
      (p.2.getIP office.settings, Client.viaText p.1)) =
      some ("10.0.0.7".toList, ", 1.1 a".toList) := by decide +kernel
  have hread : ((travel [office, parent] namedHeader).bind
      (Client.receive parent.settings parent.Transparent)).isSome = true := by decide +kernel
  obtain ⟨⟨tokens, c⟩, hfirst, hsame⟩ := Option.map_eq_some_iff.mp hreceived
  have htravel : travel [office, parent] namedHeader =
      travel [parent] (Client.forward office.settings office.ConnectionClose tokens c) := by
    rw [travel, hfirst]
  rw [htravel] at hread
  obtain ⟨⟨tokens', c'⟩, hread⟩ := Option.isSome_iff_exists.mp hread
  obtain ⟨sent, hsent, hlast⟩ := Option.bind_eq_some_iff.mp hread
  have haddress : ∀ hop ∈ [office, parent], Client.Address hop.settings.address := by
    intro hop hhop
    rcases List.mem_cons.mp hhop with rfl | hhop
    · exact ⟨⟨by decide, by decide, by decide⟩, by decide⟩
    · rw [List.mem_singleton.mp hhop]
      exact ⟨⟨by decide, by decide, by decide⟩, by decide⟩
  obtain ⟨hip, hvia⟩ := chain_address office parent [parent] namedHeader sent tokens tokens' c c'
    haddress (by decide) (by decide) hfirst hsent hlast
  obtain ⟨hip', hvia'⟩ := Prod.mk.inj hsame
  exact ⟨tokens, c, sent, tokens', c', hfirst, hsent, hlast, hip.trans hip', hvia.trans (hvia' ▸ rfl)⟩

end Hop

end Haarp
