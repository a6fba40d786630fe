import Haarp.Base.Occurrence
import Haarp.Plugins.Query

/-!
# The order of the parameters

What is asked of a request before its parameters are read: seven searches in the whole text. Each of them
looks for an equals sign with a name before it and a value behind it, so each finds a parameter
(`queryRequest_eq_iff`). But three of them want an ampersand before the name, which the first parameter
does not have (`Second`), and three end at the first NUL (`Seen`). So the answer depends on the order of
the parameters, exactly when `OrderFree` does not hold: `hgetmatch2_perm_iff`.
-/

namespace Haarp

open Base

/-! ## The text around a parameter -/

/-- The parameters before one. -/
def headText (ps : List Param) : Str := ps.flatMap fun p => paramText p ++ ['&']

/-- The parameters behind one. -/
def tailText (ps : List Param) : Str := ps.flatMap fun p => '&' :: paramText p

/-- Where NUL is written, C ends a text. -/
def nul : Char := Char.ofNat 0

/-- What is not in the name of a host. -/
def notInHost : List Char := ['\\', '?', '&', '=', nul]

/-- The name of a host. -/
def HostName (host : Str) : Prop := ∀ c ∈ host, c ∉ notInHost

section Text

variable {ps pre post : List Param} {p : Param} {host x y : Str}

theorem tailText_cons (p : Param) (ps : List Param) :
    tailText (p :: ps) = '&' :: joinParams (p :: ps) := rfl

theorem joinParams_cons (p : Param) (ps : List Param) :
    joinParams (p :: ps) = p.1 ++ '=' :: (p.2 ++ tailText ps) := by
  change paramText p ++ tailText ps = _
  rw [paramText, List.append_assoc, List.cons_append]

theorem headText_cons (p : Param) (ps : List Param) :
    headText (p :: ps) = p.1 ++ '=' :: (p.2 ++ '&' :: headText ps) := by
  rw [headText, List.flatMap_cons, paramText]
  simp only [List.append_assoc, List.cons_append, List.nil_append]
  rfl

/-- What stands behind a parameter is another one, or nothing. -/
theorem head?_tailText {c : Char} (h : (tailText ps).head? = some c) : c = '&' := by
  cases ps with
  | nil => cases h
  | cons p ps => exact (Option.some.inj h).symm

theorem tailText_eq_iff :
    tailText ps = x ++ '=' :: y ↔ ∃ x', x = '&' :: x' ∧ joinParams ps = x' ++ '=' :: y := by
  cases ps with
  | nil =>
    have hnot : ∀ x : Str, ([] : Str) ≠ x ++ '=' :: y := fun x heq =>
      List.append_ne_nil_of_right_ne_nil x (List.cons_ne_nil '=' y) heq.symm
    refine iff_of_false (hnot x) ?_
    rintro ⟨x', -, heq⟩
    exact hnot x' heq
  | cons q ps =>
    rw [tailText_cons, ← List.singleton_append, append_eq_append_cons_iff (by decide)]
    rfl

/-- **Each equals sign** is that of a parameter. -/
theorem joinParams_eq_iff (h : ∀ p ∈ ps, Plain p) :
    joinParams ps = x ++ '=' :: y ↔
      ∃ pre p post, ps = pre ++ p :: post ∧ x = headText pre ++ p.1 ∧ y = p.2 ++ tailText post := by
  induction ps generalizing x with
  | nil =>
    constructor
    · intro heq
      exact absurd heq.symm (List.append_ne_nil_of_right_ne_nil x (List.cons_ne_nil '=' y))
    · rintro ⟨pre, p, post, heq, -⟩
      exact absurd heq.symm (List.append_ne_nil_of_right_ne_nil pre (List.cons_ne_nil p post))
  | cons q ps ih =>
    obtain ⟨hq, hps⟩ := List.forall_mem_cons.mp h
    have hname : '=' ∉ q.1 := fun hmem => hq.name '=' hmem (by decide)
    have hvalue : '=' ∉ q.2 := fun hmem => hq.value '=' hmem (by decide)
    rw [joinParams_cons, append_cons_eq_iff hname]
    simp only [append_eq_append_cons_iff hvalue, tailText_eq_iff]
    constructor
    · rintro (⟨rfl, rfl⟩ | ⟨_, rfl, _, rfl, x', rfl, heq⟩)
      · exact ⟨[], q, ps, rfl, rfl, rfl⟩
      · obtain ⟨pre, p, post, rfl, rfl, rfl⟩ := (ih hps).mp heq
        refine ⟨q :: pre, p, post, rfl, ?_, rfl⟩
        rw [headText_cons]
        simp only [List.append_assoc, List.cons_append]
    · rintro ⟨pre, p, post, hsplit, rfl, rfl⟩
      cases pre with
      | nil =>
        obtain ⟨rfl, rfl⟩ := List.cons.inj hsplit
        exact .inl ⟨rfl, rfl⟩
      | cons r pre =>
        obtain ⟨rfl, hrest⟩ := List.cons.inj hsplit
        have heq := (ih hps).mpr ⟨pre, p, post, hrest, rfl, rfl⟩
        refine .inr ⟨q.2 ++ '&' :: (headText pre ++ p.1), ?_, _, rfl, _, rfl, heq⟩
        rw [headText_cons]
        simp only [List.append_assoc, List.cons_append]

/-- **Each equals sign of a request** is that of a parameter. -/
theorem queryRequest_eq_iff (hhost : HostName host) (h : ∀ p ∈ ps, Plain p) :
    queryRequest host ps = x ++ '=' :: y ↔
      ∃ pre p post, ps = pre ++ p :: post ∧ x = host ++ queryPlayback ++ (headText pre ++ p.1) ∧
        y = p.2 ++ tailText post := by
  have hfront : '=' ∉ host ++ queryPlayback := by
    rw [List.mem_append, not_or]
    exact ⟨fun hmem => hhost '=' hmem (by decide), by decide⟩
  rw [queryRequest, append_eq_append_cons_iff hfront]
  constructor
  · rintro ⟨x', rfl, heq⟩
    obtain ⟨pre, p, post, rfl, rfl, rfl⟩ := (joinParams_eq_iff h).mp heq
    exact ⟨pre, p, post, rfl, rfl, rfl⟩
  · rintro ⟨pre, p, post, hps, rfl, rfl⟩
    exact ⟨_, rfl, (joinParams_eq_iff h).mpr ⟨pre, p, post, hps, rfl, rfl⟩⟩

/-- What stands before a name: the question mark before the first one, an ampersand before the others. -/
theorem exists_mark (host : Str) (pre : List Param) :
    ∃ z c, host ++ queryPlayback ++ headText pre = z ++ [c] ∧
      (c = '?' ∧ pre = [] ∨ c = '&' ∧ pre ≠ []) := by
  cases pre using List.reverseRecOn with
  | nil =>
    refine ⟨host ++ "/videoplayback".toList, '?', ?_, .inl ⟨rfl, rfl⟩⟩
    have hmark : queryPlayback = "/videoplayback".toList ++ ['?'] := by decide
    rw [hmark, show headText [] = [] from rfl, List.append_nil, List.append_assoc]
  | append_singleton pre p =>
    refine ⟨host ++ queryPlayback ++ headText pre ++ paramText p, '&', ?_, .inr ⟨rfl, ?_⟩⟩
    · rw [headText, List.flatMap_append, List.flatMap_singleton, List.append_assoc, ← headText]
      simp only [List.append_assoc]
    · exact List.append_ne_nil_of_right_ne_nil pre (List.cons_ne_nil p [])

end Text

/-! ## What the searches see of a parameter -/

/-- A search that wants a character of `[\\?&]` before `key` finds this name. -/
def CalledAs (key name : Str) : Prop := name = key ∨ '\\' :: key <:+ name

instance (key name : Str) : Decidable (CalledAs key name) := inferInstanceAs (Decidable (_ ∨ _))

/-- The keys of the expressions. -/
def refusedKeys : List Str := ["begin".toList, "cms_redirect".toList, "redirect_counter".toList]

/-- `[0-9]*[1-9]+[0-9]*` at the front. -/
def PositiveFront (value : Str) : Prop := ∃ c ∈ value.takeWhile Char.isDigit, c ≠ '0'

/-- The word alone in the first line. -/
def FirstLine (word value : Str) : Prop := value = word ∨ word ++ ['\n'] <+: value

/-- A search with a regular expression finds the parameter, up to its first NUL. -/
def Refused (p : Param) : Prop :=
  nul ∉ p.1 ∧ (CalledAs "begin".toList p.1 ∧ PositiveFront (cStr p.2) ∨
    CalledAs "cms_redirect".toList p.1 ∧ FirstLine "yes".toList (cStr p.2) ∨
    CalledAs "redirect_counter".toList p.1 ∧ FirstLine ['1'] (cStr p.2))

/-- A parameter that is refused, and no NUL before it. -/
def Seen : List Param → Prop
  | [] => False
  | p :: ps => Refused p ∨ (nul ∉ paramText p ∧ Seen ps)

/-- A search with an ampersand finds the parameter, if it is not the first one. -/
def Second (p : Param) : Prop :=
  (p.1 = ['i', 'r'] ∧ ['1'] <+: p.2) ∨ (p.1 = ['r', 'r'] ∧ ['1', '2'] <+: p.2) ∨
    (p.1 = ['o', 't', 'f'] ∧ ['1'] <+: p.2)

/-- A live video. -/
def Live (p : Param) : Prop := "source".toList <:+ p.1 ∧ "yt_live".toList <+: p.2

/-- No search finds anything. -/
structure Passes (ps : List Param) : Prop where
  refused : ¬ Seen ps
  second : ∀ p ∈ ps.tail, ¬ Second p
  live : ∀ p ∈ ps, ¬ Live p

section Searches

variable {ps pre post : List Param} {p : Param} {host key : Str}

/-- Only the words that an expression denotes matter for whether it is found. -/
theorem regexMatch_eq_nil_congr {er er' : Regex Char} {atLineEnd : Bool} (url : Str)
    (hnull : er.nullable = false) (h : er.language = er'.language) :
    regexMatch er atLineEnd url = [] ↔ regexMatch er' atLineEnd url = [] := by
  have hnull' : er'.nullable = false := by
    rw [← Bool.not_eq_true, Regex.nullable_iff, ← h, ← Regex.nullable_iff, hnull]
    exact Bool.false_ne_true
  rw [← not_iff_not, ← ne_eq, ← ne_eq, regexMatch_ne_nil_iff hnull, regexMatch_ne_nil_iff hnull', h]

/-- What stands behind a value does not count for the words without an ampersand. -/
theorem prefix_value_iff {word : Str} (hword : '&' ∉ word) (value : Str) (post : List Param) :
    word <+: value ++ tailText post ↔ word <+: value := by
  refine prefix_append_iff fun c hc hmem => hword ?_
  rw [← head?_tailText hc]
  exact hmem

/-- A key that begins with a mark of its own ends what stands before the equals sign. -/
theorem suffix_name_iff {c : Char} (hkey : '?' ∉ key ∧ '&' ∉ key) (host : Str) (pre : List Param)
    (name : Str) :
    c :: key <:+ host ++ queryPlayback ++ (headText pre ++ name) ↔
      c :: key <:+ name ∨ key = name ∧ (c = '?' ∧ pre = [] ∨ c = '&' ∧ pre ≠ []) := by
  obtain ⟨z, mark, hz, hmark⟩ := exists_mark host pre
  have hmem : mark ∉ key := by
    rcases hmark with ⟨rfl, -⟩ | ⟨rfl, -⟩
    · exact hkey.1
    · exact hkey.2
  rw [← List.append_assoc, hz, List.append_assoc, List.singleton_append, suffix_append_cons_iff hmem]
  refine or_congr_right ?_
  constructor
  · rintro ⟨rfl, rfl⟩
    exact ⟨rfl, hmark⟩
  · rintro ⟨rfl, hc⟩
    refine ⟨?_, rfl⟩
    rcases hmark with ⟨rfl, hnil⟩ | ⟨rfl, hne⟩
    · rcases hc with ⟨rfl, -⟩ | ⟨-, hne⟩
      · rfl
      · exact absurd hnil hne
    · rcases hc with ⟨-, hnil⟩ | ⟨rfl, -⟩
      · exact absurd hnil hne
      · rfl

/-- What is found with `find`. -/
theorem find_queryRequest_iff {c : Char} {word : Str} (hhost : HostName host) (h : ∀ p ∈ ps, Plain p)
    (hkey : '?' ∉ key ∧ '&' ∉ key) (hword : '&' ∉ word) :
    find (c :: key ++ '=' :: word) (queryRequest host ps) ≠ none ↔
      ∃ pre p post, ps = pre ++ p :: post ∧ word <+: p.2 ∧
        (c :: key <:+ p.1 ∨ key = p.1 ∧ (c = '?' ∧ pre = [] ∨ c = '&' ∧ pre ≠ [])) := by
  rw [ne_eq, find_eq_none_iff, not_not, infix_iff_exists]
  constructor
  · rintro ⟨x, y, heq, hx, hy⟩
    obtain ⟨pre, p, post, hps, rfl, rfl⟩ := (queryRequest_eq_iff hhost h).mp heq
    exact ⟨pre, p, post, hps, (prefix_value_iff hword p.2 post).mp hy,
      (suffix_name_iff hkey host pre p.1).mp hx⟩
  · rintro ⟨pre, p, post, hps, hy, hx⟩
    exact ⟨_, _, (queryRequest_eq_iff hhost h).mpr ⟨pre, p, post, hps, rfl, rfl⟩,
      (suffix_name_iff hkey host pre p.1).mpr hx, (prefix_value_iff hword p.2 post).mpr hy⟩

/-- A word behind an ampersand. -/
theorem find_second_iff {word : Str} (hhost : HostName host) (h : ∀ p ∈ ps, Plain p)
    (hkey : '?' ∉ key ∧ '&' ∉ key) (hword : '&' ∉ word) :
    find ('&' :: key ++ '=' :: word) (queryRequest host ps) = none ↔
      ∀ p ∈ ps.tail, ¬ (p.1 = key ∧ word <+: p.2) := by
  rw [← not_iff_not, ← ne_eq, find_queryRequest_iff hhost h hkey hword]
  push Not
  constructor
  · rintro ⟨pre, p, post, rfl, hvalue, hname⟩
    rcases hname with hsuffix | ⟨rfl, ⟨hquestion, -⟩ | ⟨-, hne⟩⟩
    · have hmem : '&' ∈ p.1 := hsuffix.subset List.mem_cons_self
      exact absurd (by decide) ((h p (List.mem_append_right pre List.mem_cons_self)).name '&' hmem)
    · exact absurd hquestion (by decide)
    · refine ⟨p, ?_, rfl, hvalue⟩
      rw [List.tail_append_of_ne_nil hne]
      exact List.mem_append_right pre.tail List.mem_cons_self
  · rintro ⟨p, hmem, rfl, hvalue⟩
    cases ps with
    | nil => cases hmem
    | cons q ps =>
      obtain ⟨pre, post, rfl⟩ := List.append_of_mem hmem
      exact ⟨q :: pre, p, post, rfl, hvalue, .inr ⟨rfl, .inr ⟨rfl, List.cons_ne_nil q pre⟩⟩⟩

/-- `source=yt_live` -/
theorem find_live_iff (hhost : HostName host) (h : ∀ p ∈ ps, Plain p) :
    find "source=yt_live".toList (queryRequest host ps) = none ↔ ∀ p ∈ ps, ¬ Live p := by
  have hsplit : "source=yt_live".toList = 's' :: "ource".toList ++ '=' :: "yt_live".toList := by decide
  rw [← not_iff_not, ← ne_eq, hsplit, find_queryRequest_iff hhost h (by decide) (by decide)]
  push Not
  constructor
  · rintro ⟨pre, p, post, rfl, hvalue, hname⟩
    refine ⟨p, List.mem_append_right pre List.mem_cons_self, ?_, hvalue⟩
    rcases hname with hsuffix | ⟨-, ⟨hmark, -⟩ | ⟨hmark, -⟩⟩
    · exact hsuffix
    · exact absurd hmark (by decide)
    · exact absurd hmark (by decide)
  · rintro ⟨p, hmem, hname, hvalue⟩
    obtain ⟨pre, post, rfl⟩ := List.append_of_mem hmem
    exact ⟨pre, p, post, rfl, hvalue, .inl hname⟩

/-! ### The expressions -/

/-- What an expression finds that has a key and a value. -/
theorem regexMatch_assignment_iff {r : Regex Char} {atLineEnd : Bool} {url : Str} :
    regexMatch (.seq queryStart (.seq (.word (key ++ ['='])) r)) atLineEnd url ≠ [] ↔
      ∃ x y, cStr url = x ++ '=' :: y ∧ (∃ c ∈ ['\\', '?', '&'], c :: key <:+ x) ∧
        ∃ w v, y = w ++ v ∧ w ∈ r.language ∧ (!atLineEnd || lineEnd v) = true := by
  rw [regexMatch_ne_nil_iff rfl]
  constructor
  · rintro ⟨u, w, v, heq, hw, hstop⟩
    obtain ⟨_, ⟨c, hc, rfl⟩, _, hrest, rfl⟩ := Regex.mem_seq.mp hw
    obtain ⟨_, hkey, value, hvalue, rfl⟩ := Regex.mem_seq.mp hrest
    rw [Regex.mem_word.mp hkey] at heq
    refine ⟨u ++ c :: key, value ++ v, ?_, ⟨c, of_decide_eq_true hc, List.suffix_append u _⟩,
      value, v, rfl, hvalue, hstop⟩
    rw [heq]
    simp only [List.append_assoc, List.cons_append, List.nil_append]
  · rintro ⟨_, _, heq, ⟨c, hc, u, rfl⟩, value, v, rfl, hvalue, hstop⟩
    refine ⟨u, [c] ++ (key ++ ['='] ++ value), v, ?_, ?_, hstop⟩
    · rw [heq]
      simp only [List.append_assoc, List.cons_append, List.nil_append]
    · exact Regex.append_mem_seq ⟨c, decide_eq_true hc, rfl⟩
        (Regex.append_mem_seq (Regex.mem_word.mpr rfl) hvalue)

/-- Up to the first NUL, a value ends where it does, or at the next ampersand. -/
theorem cStr_value (value : Str) (post : List Param) :
    ∃ rest, cStr (value ++ tailText post) = cStr value ++ rest ∧ ∀ c, rest.head? = some c → c = '&' := by
  rw [cStr, List.takeWhile_append]
  split
  · next hall =>
    refine ⟨cStr (tailText post), ?_, fun c hc => ?_⟩
    · rw [cStr, (List.takeWhile_prefix _).eq_of_length hall]
      rfl
    · rw [cStr, List.head?_takeWhile] at hc
      exact head?_tailText (Option.eq_some_of_filter_eq_some hc)
  · exact ⟨[], (List.append_nil _).symm, fun c hc => by cases hc⟩

/-- There is no NUL before a value. -/
theorem nul_not_mem_front (hhost : HostName host) (pre : List Param) (name : Str) :
    nul ∉ host ++ queryPlayback ++ (headText pre ++ name) ↔
      (∀ q ∈ pre, nul ∉ paramText q) ∧ nul ∉ name := by
  have hfront : nul ∉ host ++ queryPlayback := by
    rw [List.mem_append, not_or]
    exact ⟨fun hmem => hhost nul hmem (by decide), by decide⟩
  have hhead : nul ∉ headText pre ↔ ∀ q ∈ pre, nul ∉ paramText q := by
    have hmark : nul ∉ ['&'] := by decide
    simp only [headText, List.mem_flatMap, List.mem_append, hmark, or_false, not_exists, not_and]
  rw [List.mem_append, List.mem_append (s := headText pre), not_or, not_or, hhead]
  exact and_iff_right hfront

/-- What an expression wants before its key. -/
theorem calledAs_iff {name : Str} (hkey : '?' ∉ key ∧ '&' ∉ key) (hname : '?' ∉ name ∧ '&' ∉ name) :
    (∃ c ∈ ['\\', '?', '&'], c :: key <:+ host ++ queryPlayback ++ (headText pre ++ name)) ↔
      CalledAs key name := by
  constructor
  · rintro ⟨c, hc, hsuffix⟩
    rcases (suffix_name_iff hkey host pre name).mp hsuffix with hsuffix | ⟨rfl, -⟩
    · have hmem : c ∈ name := hsuffix.subset List.mem_cons_self
      simp only [List.mem_cons, List.not_mem_nil, or_false] at hc
      rcases hc with rfl | rfl | rfl
      · exact .inr hsuffix
      · exact absurd hmem hname.1
      · exact absurd hmem hname.2
    · exact .inl rfl
  · rintro (rfl | hsuffix)
    · by_cases hpre : pre = []
      · exact ⟨'?', by decide, (suffix_name_iff hkey host pre name).mpr (.inr ⟨rfl, .inl ⟨rfl, hpre⟩⟩)⟩
      · exact ⟨'&', by decide, (suffix_name_iff hkey host pre name).mpr (.inr ⟨rfl, .inr ⟨rfl, hpre⟩⟩)⟩
    · exact ⟨'\\', by decide, (suffix_name_iff hkey host pre name).mpr (.inl hsuffix)⟩

/-- What an expression with a key and a value finds in a request. -/
theorem regexMatch_queryRequest_iff {r : Regex Char} {atLineEnd : Bool} {Value : Str → Prop}
    (hhost : HostName host) (h : ∀ p ∈ ps, Plain p) (hkey : '?' ∉ key ∧ '&' ∉ key)
    (hvalue : ∀ u rest : Str, '&' ∉ u → (∀ c, rest.head? = some c → c = '&') →
      ((∃ w v, u ++ rest = w ++ v ∧ w ∈ r.language ∧ (!atLineEnd || lineEnd v) = true) ↔ Value u)) :
    regexMatch (.seq queryStart (.seq (.word (key ++ ['='])) r)) atLineEnd (queryRequest host ps) ≠ [] ↔
      ∃ pre p post, ps = pre ++ p :: post ∧ (∀ q ∈ pre, nul ∉ paramText q) ∧ nul ∉ p.1 ∧
        CalledAs key p.1 ∧ Value (cStr p.2) := by
  have hvalue' : ∀ p ∈ ps, ∀ post, (∃ w v, cStr (p.2 ++ tailText post) = w ++ v ∧ w ∈ r.language ∧
      (!atLineEnd || lineEnd v) = true) ↔ Value (cStr p.2) := by
    intro p hp post
    obtain ⟨rest, hrest, hhead⟩ := cStr_value p.2 post
    rw [hrest]
    refine hvalue (cStr p.2) rest (fun hmem => ?_) hhead
    exact (h p hp).value '&' ((List.takeWhile_prefix _).subset hmem) (by decide)
  have hname : ∀ p ∈ ps, '?' ∉ p.1 ∧ '&' ∉ p.1 := fun p hp =>
    ⟨fun hmem => (h p hp).name '?' hmem (by decide), fun hmem => (h p hp).name '&' hmem (by decide)⟩
  have hbefore : ∀ x : Str, (∀ b ∈ x, decide (b ≠ Char.ofNat 0) = true) ↔ nul ∉ x := by
    intro x
    simp only [decide_eq_true_eq]
    refine ⟨fun hall hmem => hall nul hmem rfl, fun hnot b hb heq => ?_⟩
    subst heq
    exact hnot hb
  rw [regexMatch_assignment_iff]
  constructor
  · rintro ⟨x, y, heq, hstart, hy⟩
    obtain ⟨hx, -, y', hurl, rfl⟩ := takeWhile_eq_append_cons_iff.mp heq
    obtain ⟨pre, p, post, rfl, rfl, rfl⟩ := (queryRequest_eq_iff hhost h).mp hurl
    have hp : p ∈ pre ++ p :: post := List.mem_append_right pre List.mem_cons_self
    obtain ⟨hpre, hnul⟩ := (nul_not_mem_front hhost pre p.1).mp ((hbefore _).mp hx)
    exact ⟨pre, p, post, rfl, hpre, hnul, (calledAs_iff hkey (hname p hp)).mp hstart,
      (hvalue' p hp post).mp hy⟩
  · rintro ⟨pre, p, post, rfl, hpre, hnul, hcalled, hy⟩
    have hp : p ∈ pre ++ p :: post := List.mem_append_right pre List.mem_cons_self
    have hurl := (queryRequest_eq_iff hhost h).mpr ⟨pre, p, post, rfl, rfl, rfl⟩
    have hx := (hbefore _).mpr ((nul_not_mem_front hhost pre p.1).mpr ⟨hpre, hnul⟩)
    have hcut := takeWhile_eq_append_cons_iff.mpr ⟨hx, by decide, _, hurl, rfl⟩
    exact ⟨_, _, hcut, (calledAs_iff hkey (hname p hp)).mpr hcalled, (hvalue' p hp post).mpr hy⟩

/-! ### The values -/

/-- A digit that is not 0 is one of `[1-9]`. -/
theorem isDigit_and_ne_zero {c : Char} : (c.isDigit = true ∧ c ≠ '0') ↔ '1' ≤ c ∧ c ≤ '9' := by
  have hval : c = '0' ↔ c.val.toNat = 48 := by
    rw [Char.ext_iff, ← UInt32.toNat_inj]
    rfl
  simp only [Char.isDigit, Bool.and_eq_true, decide_eq_true_eq, ne_eq, hval, Char.le_def,
    UInt32.le_iff_toNat_le, ge_iff_le]
  change (48 ≤ c.val.toNat ∧ c.val.toNat ≤ 57) ∧ ¬ c.val.toNat = 48 ↔
    49 ≤ c.val.toNat ∧ c.val.toNat ≤ 57
  omega

theorem mem_positive {w : Str} :
    w ∈ positive.language ↔ (∀ c ∈ w, c.isDigit = true) ∧ ∃ c ∈ w, c ≠ '0' := by
  constructor
  · intro hw
    obtain ⟨a, ha, _, hrest, rfl⟩ := Regex.mem_seq.mp hw
    obtain ⟨b, hb, d, hd, rfl⟩ := Regex.mem_seq.mp hrest
    obtain ⟨hne, hb⟩ := Regex.mem_plus_char.mp hb
    have hb' : ∀ c ∈ b, c.isDigit = true ∧ c ≠ '0' := fun c hc =>
      isDigit_and_ne_zero.mpr (of_decide_eq_true (hb c hc))
    constructor
    · intro c hc
      rcases List.mem_append.mp hc with hc | hc
      · exact Regex.mem_star_char.mp ha c hc
      · rcases List.mem_append.mp hc with hc | hc
        · exact (hb' c hc).1
        · exact Regex.mem_star_char.mp hd c hc
    · obtain ⟨c, b, rfl⟩ := List.exists_cons_of_ne_nil hne
      exact ⟨c, List.mem_append_right a (List.mem_append_left d List.mem_cons_self),
        (hb' c List.mem_cons_self).2⟩
  · rintro ⟨hdigits, c, hc, hne⟩
    obtain ⟨a, d, rfl⟩ := List.append_of_mem hc
    have hone : [c] ∈ (Regex.plus (.char fun c => '1' ≤ c ∧ c ≤ '9')).language := by
      refine Regex.mem_plus_char.mpr ⟨List.cons_ne_nil c [], fun b hb => ?_⟩
      rw [List.mem_singleton.mp hb]
      exact decide_eq_true (isDigit_and_ne_zero.mp ⟨hdigits c hc, hne⟩)
    have ha : ∀ b ∈ a, b.isDigit = true := fun b hb => hdigits b (List.mem_append_left _ hb)
    have hd : ∀ b ∈ d, b.isDigit = true := fun b hb =>
      hdigits b (List.mem_append_right a (List.mem_cons_of_mem c hb))
    exact Regex.append_mem_seq (Regex.mem_star_char.mpr ha)
      (Regex.append_mem_seq hone (Regex.mem_star_char.mpr hd))

/-- A number at the front of a value. -/
theorem positive_value_iff {u rest : Str} (hrest : ∀ c, rest.head? = some c → c = '&') :
    (∃ w v, u ++ rest = w ++ v ∧ w ∈ positive.language ∧ (!false || lineEnd v) = true) ↔
      PositiveFront u := by
  constructor
  · rintro ⟨w, v, heq, hw, -⟩
    obtain ⟨hdigits, c, hc, hne⟩ := mem_positive.mp hw
    have hprefix : w <+: u := by
      refine (prefix_append_iff (t := rest) fun c hc hmem => ?_).mp ⟨v, heq.symm⟩
      rw [hrest c hc] at hmem
      exact absurd (hdigits '&' hmem) (by decide)
    obtain ⟨v', rfl⟩ := hprefix
    refine ⟨c, ?_, hne⟩
    rw [List.takeWhile_append_of_pos hdigits]
    exact List.mem_append_left _ hc
  · rintro ⟨c, hc, hne⟩
    refine ⟨u.takeWhile Char.isDigit, u.dropWhile Char.isDigit ++ rest, ?_, ?_, rfl⟩
    · rw [← List.append_assoc, List.takeWhile_append_dropWhile]
    · exact mem_positive.mpr ⟨fun c hc => List.mem_takeWhile_imp hc, c, hc, hne⟩

/-- `(&.*)?$` begins at the end of a line or at an ampersand. -/
theorem furtherParams_iff {r : Str} :
    (∃ m v, r = m ++ v ∧ m ∈ furtherParams.language ∧ lineEnd v = true) ↔
      ∀ c, r.head? = some c → c = '\n' ∨ c = '&' := by
  constructor
  · rintro ⟨m, v, rfl, hm, hv⟩ c hc
    rcases Regex.mem_opt.mp hm with rfl | hm
    · rw [List.nil_append] at hc
      rw [lineEnd, hc] at hv
      exact .inl (of_decide_eq_true hv)
    · obtain ⟨_, hword, t, -, rfl⟩ := Regex.mem_seq.mp hm
      rw [Regex.mem_word.mp hword] at hc
      exact .inr (Option.some.inj hc).symm
  · intro h
    by_cases hamp : r.head? = some '&'
    · obtain ⟨t, rfl⟩ := List.head?_eq_some_iff.mp hamp
      refine ⟨['&'] ++ t.takeWhile (· ≠ '\n'), t.dropWhile (· ≠ '\n'), ?_, ?_, ?_⟩
      · rw [List.append_assoc, List.takeWhile_append_dropWhile, List.singleton_append]
      · refine Regex.mem_opt.mpr (.inr (Regex.append_mem_seq (Regex.mem_word.mpr rfl) ?_))
        exact Regex.mem_star_char.mpr fun c hc => @List.mem_takeWhile_imp Char _ t c hc
      · have hstop := List.head?_dropWhile_not (fun c => decide (c ≠ '\n')) t
        rw [lineEnd]
        cases hhead : (t.dropWhile fun c => decide (c ≠ '\n')).head? with
        | none => rfl
        | some c =>
          rw [hhead] at hstop
          simpa using hstop
    · refine ⟨[], r, rfl, Regex.mem_opt.mpr (.inl rfl), ?_⟩
      rw [lineEnd]
      cases hhead : r.head? with
      | none => rfl
      | some c =>
        rcases h c hhead with rfl | rfl
        · rfl
        · exact absurd hhead hamp

/-- A word in the first line of a value, and further parameters behind it. -/
theorem firstLine_value_iff {word u rest : Str} (hword : '&' ∉ word) (hu : '&' ∉ u)
    (hrest : ∀ c, rest.head? = some c → c = '&') :
    (∃ w v, u ++ rest = w ++ v ∧ w ∈ (Regex.seq (.word word) furtherParams).language ∧
      (!true || lineEnd v) = true) ↔ FirstLine word u := by
  have hbehind : (∃ w v, u ++ rest = w ++ v ∧ w ∈ (Regex.seq (.word word) furtherParams).language ∧
      (!true || lineEnd v) = true) ↔
      ∃ r, u ++ rest = word ++ r ∧ ∀ c, r.head? = some c → c = '\n' ∨ c = '&' := by
    constructor
    · rintro ⟨w, v, heq, hw, hv⟩
      obtain ⟨_, hfirst, m, hm, rfl⟩ := Regex.mem_seq.mp hw
      rw [Regex.mem_word.mp hfirst, List.append_assoc] at heq
      exact ⟨m ++ v, heq, furtherParams_iff.mp ⟨m, v, rfl, hm, hv⟩⟩
    · rintro ⟨r, heq, hr⟩
      obtain ⟨m, v, rfl, hm, hv⟩ := furtherParams_iff.mpr hr
      refine ⟨word ++ m, v, ?_, Regex.append_mem_seq (Regex.mem_word.mpr rfl) hm, hv⟩
      rw [heq, List.append_assoc]
  rw [hbehind]
  constructor
  · rintro ⟨r, heq, hr⟩
    rcases List.append_eq_append_iff.mp heq with ⟨as, rfl, rfl⟩ | ⟨bs, rfl, rfl⟩
    · cases as with
      | nil => exact .inl (List.append_nil u).symm
      | cons c as =>
        rw [hrest c rfl] at hword
        exact absurd (List.mem_append_right u List.mem_cons_self) hword
    · cases bs with
      | nil => exact .inl (List.append_nil word)
      | cons c bs =>
        rcases hr c rfl with rfl | rfl
        · refine .inr ⟨bs, ?_⟩
          rw [List.append_assoc, List.singleton_append]
        · exact absurd (List.mem_append_right word List.mem_cons_self) hu
  · rintro (rfl | ⟨t, rfl⟩)
    · exact ⟨rest, rfl, fun c hc => .inr (hrest c hc)⟩
    · refine ⟨'\n' :: (t ++ rest), ?_, fun c hc => .inl (Option.some.inj hc).symm⟩
      rw [List.append_assoc, List.append_assoc, List.singleton_append]

/-! ### All searches -/

/-- A parameter that is refused, and no NUL before it, somewhere in the list. -/
theorem seen_iff : Seen ps ↔
    ∃ pre p post, ps = pre ++ p :: post ∧ (∀ q ∈ pre, nul ∉ paramText q) ∧ Refused p := by
  induction ps with
  | nil =>
    refine iff_of_false id ?_
    rintro ⟨pre, p, post, heq, -⟩
    exact List.append_ne_nil_of_right_ne_nil pre (List.cons_ne_nil p post) heq.symm
  | cons q ps ih =>
    rw [Seen, ih]
    constructor
    · rintro (hq | ⟨hq, pre, p, post, rfl, hpre, hp⟩)
      · exact ⟨[], q, ps, rfl, fun r hr => absurd hr List.not_mem_nil, hq⟩
      · exact ⟨q :: pre, p, post, rfl, List.forall_mem_cons.mpr ⟨hq, hpre⟩, hp⟩
    · rintro ⟨pre, p, post, heq, hpre, hp⟩
      cases pre with
      | nil =>
        obtain ⟨rfl, rfl⟩ := List.cons.inj heq
        exact .inl hp
      | cons r pre =>
        obtain ⟨rfl, rfl⟩ := List.cons.inj heq
        obtain ⟨hq, hpre⟩ := List.forall_mem_cons.mp hpre
        exact .inr ⟨hq, pre, p, post, rfl, hpre, hp⟩

/-- The three expressions together. -/
theorem regexMatch_refused_iff (hhost : HostName host) (h : ∀ p ∈ ps, Plain p) :
    (regexMatch (.seq queryStart (.seq (.word "begin=".toList) positive)) false
        (queryRequest host ps) = [] ∧
      regexMatch (.seq queryStart (.seq (.word "cms_redirect=yes".toList) furtherParams)) true
        (queryRequest host ps) = [] ∧
      regexMatch (.seq queryStart (.seq (.word "redirect_counter=1".toList) furtherParams)) true
        (queryRequest host ps) = []) ↔ ¬ Seen ps := by
  have hbegin := @regexMatch_queryRequest_iff ps host "begin".toList _ false PositiveFront hhost h
    (by decide) fun u rest _ hrest => positive_value_iff hrest
  have hcms := @regexMatch_queryRequest_iff ps host "cms_redirect".toList _ true
    (FirstLine "yes".toList) hhost h (by decide) fun u rest hu hrest =>
      firstLine_value_iff (by decide) hu hrest
  have hcounter := @regexMatch_queryRequest_iff ps host "redirect_counter".toList _ true
    (FirstLine ['1']) hhost h (by decide) fun u rest hu hrest => firstLine_value_iff (by decide) hu hrest
  have hword : "cms_redirect=yes".toList = ("cms_redirect".toList ++ ['=']) ++ "yes".toList := by decide
  have hword' : "redirect_counter=1".toList = ("redirect_counter".toList ++ ['=']) ++ ['1'] := by decide
  have hlanguage : ∀ u v : Str, (Regex.seq queryStart (.seq (.word (u ++ v)) furtherParams)).language =
      (Regex.seq queryStart (.seq (.word u) (.seq (.word v) furtherParams))).language := fun u v =>
    congrArg (queryStart.language * ·) (Regex.language_word_append u v furtherParams)
  rw [show "begin=".toList = "begin".toList ++ ['='] by decide, hword, hword',
    regexMatch_eq_nil_congr _ rfl (hlanguage _ "yes".toList),
    regexMatch_eq_nil_congr _ rfl (hlanguage _ ['1']), ← not_iff_not, not_not, not_and_or, not_and_or,
    ← ne_eq, ← ne_eq, ← ne_eq, hbegin, hcms, hcounter, seen_iff]
  constructor
  · rintro (⟨pre, p, post, hps, hpre, hnul, hkey, hvalue⟩ |
      ⟨pre, p, post, hps, hpre, hnul, hkey, hvalue⟩ | ⟨pre, p, post, hps, hpre, hnul, hkey, hvalue⟩)
    · exact ⟨pre, p, post, hps, hpre, hnul, .inl ⟨hkey, hvalue⟩⟩
    · exact ⟨pre, p, post, hps, hpre, hnul, .inr (.inl ⟨hkey, hvalue⟩)⟩
    · exact ⟨pre, p, post, hps, hpre, hnul, .inr (.inr ⟨hkey, hvalue⟩)⟩
  · rintro ⟨pre, p, post, hps, hpre, hnul, ⟨hkey, hvalue⟩ | ⟨hkey, hvalue⟩ | ⟨hkey, hvalue⟩⟩
    · exact .inl ⟨pre, p, post, hps, hpre, hnul, hkey, hvalue⟩
    · exact .inr (.inl ⟨pre, p, post, hps, hpre, hnul, hkey, hvalue⟩)
    · exact .inr (.inr ⟨pre, p, post, hps, hpre, hnul, hkey, hvalue⟩)

/-- **What is asked of a request** before its parameters are read. -/
theorem servesQuery_iff (hhost : HostName host) (h : ∀ p ∈ ps, Plain p) :
    servesQuery (queryRequest host ps) = true ↔ Passes ps := by
  have hrefused := regexMatch_refused_iff hhost h
  have hlive := find_live_iff hhost h
  have hir := @find_second_iff ps host ['i', 'r'] ['1'] hhost h (by decide) (by decide)
  have hrr := @find_second_iff ps host ['r', 'r'] ['1', '2'] hhost h (by decide) (by decide)
  have hotf := @find_second_iff ps host ['o', 't', 'f'] ['1'] hhost h (by decide) (by decide)
  rw [servesQuery, decide_eq_true_eq]
  constructor
  · rintro ⟨hbegin, hcms, hcounter, hir', hrr', hlive', hotf'⟩
    refine ⟨hrefused.mp ⟨hbegin, hcms, hcounter⟩, ?_, hlive.mp hlive'⟩
    rintro p hp (hsecond | hsecond | hsecond)
    · exact hir.mp hir' p hp hsecond
    · exact hrr.mp hrr' p hp hsecond
    · exact hotf.mp hotf' p hp hsecond
  · intro hpasses
    obtain ⟨hbegin, hcms, hcounter⟩ := hrefused.mpr hpasses.refused
    have hnot := hpasses.second
    simp only [Second, not_or] at hnot
    exact ⟨hbegin, hcms, hcounter, hir.mpr fun p hp => (hnot p hp).1, hrr.mpr fun p hp => (hnot p hp).2.1,
      hlive.mpr hpasses.live, hotf.mpr fun p hp => (hnot p hp).2.2⟩

end Searches

/-! ## All orders -/

/-- When the searches have one answer for all orders of the parameters. -/
inductive SearchesAgree (ps : List Param) : Prop
  | live {p : Param} (hp : p ∈ ps) (hlive : Live p)
  | second {p q : Param} (hp : p ∈ ps) (hq : q ∈ ps) (hne : p ≠ q) (hfirst : Second p)
      (hother : Second q)
  | passes (halone : ∀ p ∈ ps, Second p → ps.length ≤ 1) (hnone : ∀ p ∈ ps, ¬ Refused p)
  | refused {p : Param} (hp : p ∈ ps) (hrefused : Refused p)
      (hseen : ∀ q ∈ ps, nul ∈ paramText q → Refused q)

section Orders

variable {ps ps' l : List Param} {p q : Param}

theorem not_seen (h : ∀ p ∈ ps, ¬ Refused p) : ¬ Seen ps := by
  intro hseen
  obtain ⟨pre, p, post, rfl, -, hp⟩ := seen_iff.mp hseen
  exact h p (List.mem_append_right pre List.mem_cons_self) hp

/-- Where a NUL is in refused parameters only, the first one of these is seen. -/
theorem seen_of_refused (hp : p ∈ ps) (hrefused : Refused p)
    (h : ∀ q ∈ ps, nul ∈ paramText q → Refused q) : Seen ps := by
  induction ps with
  | nil => cases hp
  | cons q ps ih =>
    by_cases hq : Refused q
    · exact .inl hq
    · have hnul : nul ∉ paramText q := fun hmem => hq (h q List.mem_cons_self hmem)
      rcases List.mem_cons.mp hp with rfl | hp
      · exact absurd hrefused hq
      · exact .inr ⟨hnul, ih hp fun r hr => h r (List.mem_cons_of_mem q hr)⟩

/-- Behind a parameter with a NUL nothing is seen. -/
theorem not_seen_cons (hnul : nul ∈ paramText q) (hq : ¬ Refused q) (ps : List Param) :
    ¬ Seen (q :: ps) := by
  rintro (h | ⟨h, -⟩)
  · exact hq h
  · exact h hnul

theorem not_refused (h : ∀ key ∈ refusedKeys, ¬ CalledAs key p.1) : ¬ Refused p := by
  rw [refusedKeys] at h
  simp only [List.forall_mem_cons] at h
  obtain ⟨hbegin, hcms, hcounter, -⟩ := h
  rintro ⟨-, ⟨hkey, -⟩ | ⟨hkey, -⟩ | ⟨hkey, -⟩⟩
  · exact hbegin hkey
  · exact hcms hkey
  · exact hcounter hkey

/-- What has to be behind an ampersand has not the name of what is refused. -/
theorem Second.not_refused (h : Second p) : ¬ Refused p := by
  have hkeys : ∀ name ∈ [['i', 'r'], ['r', 'r'], ['o', 't', 'f']],
      ∀ key ∈ refusedKeys, ¬ CalledAs key name := by decide
  have hname : p.1 ∈ [['i', 'r'], ['r', 'r'], ['o', 't', 'f']] := by
    rcases h with ⟨h, -⟩ | ⟨h, -⟩ | ⟨h, -⟩ <;> rw [h] <;> decide
  exact Haarp.not_refused (hkeys p.1 hname)

theorem exists_perm_cons (hp : p ∈ ps) : ∃ l, ps.Perm (p :: l) := ⟨ps.erase p, List.perm_cons_erase hp⟩

/-- Where the searches agree, all orders pass or none. -/
theorem SearchesAgree.passes_iff (h : SearchesAgree ps) (hperm : ps.Perm ps') :
    Passes ps' ↔ Passes ps := by
  cases h with
  | live hp hlive =>
    have hnot : ∀ ps', ps.Perm ps' → ¬ Passes ps' := fun ps' hperm hpasses =>
      hpasses.live _ (hperm.mem_iff.mp hp) hlive
    exact iff_of_false (hnot ps' hperm) (hnot ps (List.Perm.refl ps))
  | @second p q hp hq hne hfirst hother =>
    have hnot : ∀ ps', ps.Perm ps' → ¬ Passes ps' := by
      intro ps' hperm hpasses
      cases ps' with
      | nil => exact absurd (hperm.mem_iff.mp hp) List.not_mem_nil
      | cons r l =>
        rcases List.mem_cons.mp (hperm.mem_iff.mp hp) with rfl | hp
        · rcases List.mem_cons.mp (hperm.mem_iff.mp hq) with rfl | hq
          · exact hne rfl
          · exact hpasses.second q hq hother
        · exact hpasses.second p hp hfirst
    exact iff_of_false (hnot ps' hperm) (hnot ps (List.Perm.refl ps))
  | passes halone hnone =>
    have hlive : ∀ ps', ps.Perm ps' → (Passes ps' ↔ ∀ p ∈ ps, ¬ Live p) := by
      intro ps' hperm
      constructor
      · exact fun hpasses p hp => hpasses.live p (hperm.mem_iff.mp hp)
      · intro hlive
        refine ⟨not_seen fun p hp => hnone p (hperm.mem_iff.mpr hp), ?_, ?_⟩
        · intro p hp hsecond
          have hlength := halone p (hperm.mem_iff.mpr (List.mem_of_mem_tail hp)) hsecond
          have hpos := List.length_pos_of_mem hp
          rw [hperm.length_eq] at hlength
          rw [List.length_tail] at hpos
          omega
        · exact fun p hp => hlive p (hperm.mem_iff.mpr hp)
    rw [hlive ps' hperm, hlive ps (List.Perm.refl ps)]
  | @refused p hp hrefused hseen =>
    have hnot : ∀ ps', ps.Perm ps' → ¬ Passes ps' := fun ps' hperm hpasses =>
      hpasses.refused (seen_of_refused (hperm.mem_iff.mp hp) hrefused fun q hq =>
        hseen q (hperm.mem_iff.mpr hq))
    exact iff_of_false (hnot ps' hperm) (hnot ps (List.Perm.refl ps))

/-- Behind a first parameter that is not refused, the others can be put so that nothing is seen. -/
theorem exists_not_seen (h : ¬ SearchesAgree ps) (hperm : ps.Perm (p :: l)) (hp : ¬ Refused p) :
    ∃ l', l.Perm l' ∧ ¬ Seen (p :: l') := by
  by_cases hrefused : ∃ r ∈ ps, Refused r
  · obtain ⟨r, hr, hrefused⟩ := hrefused
    obtain ⟨q, hq, hnul, hnot⟩ : ∃ q ∈ ps, nul ∈ paramText q ∧ ¬ Refused q := by
      by_contra hnone
      push Not at hnone
      exact h (.refused hr hrefused hnone)
    rcases List.mem_cons.mp (hperm.mem_iff.mp hq) with rfl | hq
    · exact ⟨l, List.Perm.refl l, not_seen_cons hnul hnot l⟩
    · obtain ⟨l', hl'⟩ := exists_perm_cons hq
      refine ⟨q :: l', hl', ?_⟩
      rintro (hseen | ⟨-, hseen⟩)
      · exact hp hseen
      · exact not_seen_cons hnul hnot l' hseen
  · push Not at hrefused
    exact ⟨l, List.Perm.refl l, not_seen fun r hr => hrefused r (hperm.mem_iff.mpr hr)⟩

/-- Where they do not agree, one order passes and another one does not. -/
theorem exists_orders (hnodup : ps.Nodup) (h : ¬ SearchesAgree ps) :
    ∃ ps₁ ps₂, ps.Perm ps₁ ∧ ps.Perm ps₂ ∧ Passes ps₁ ∧ ¬ Passes ps₂ := by
  have hlive : ∀ ps', ps.Perm ps' → ∀ p ∈ ps', ¬ Live p := fun ps' hperm p hp hlive =>
    h (.live (hperm.mem_iff.mpr hp) hlive)
  by_cases halone : ∀ p ∈ ps, Second p → ps.length ≤ 1
  · -- a refused parameter is seen or hidden
    obtain ⟨r, hr, hrefused⟩ : ∃ r ∈ ps, Refused r := by
      by_contra hnone
      push Not at hnone
      exact h (.passes halone hnone)
    obtain ⟨q, hq, hnul, hnot⟩ : ∃ q ∈ ps, nul ∈ paramText q ∧ ¬ Refused q := by
      by_contra hnone
      push Not at hnone
      exact h (.refused hr hrefused hnone)
    obtain ⟨l, hl⟩ := exists_perm_cons hq
    obtain ⟨l', hl'⟩ := exists_perm_cons hr
    refine ⟨q :: l, r :: l', hl, hl', ⟨not_seen_cons hnul hnot l, ?_, hlive _ hl⟩, ?_⟩
    · intro p hp hsecond
      have hlength := halone p (hl.mem_iff.mpr (List.mem_cons_of_mem q hp)) hsecond
      have hpos := List.length_pos_of_mem hp
      rw [hl.length_eq, List.length_cons] at hlength
      rw [List.tail_cons] at hpos
      omega
    · exact fun hpasses => hpasses.refused (.inl hrefused)
  · -- one parameter stands behind an ampersand, or first
    push Not at halone
    obtain ⟨p, hp, hsecond, hlength⟩ := halone
    obtain ⟨l, hl⟩ := exists_perm_cons hp
    obtain ⟨l', hl', hseen⟩ := exists_not_seen h hl hsecond.not_refused
    have hothers : ∀ q ∈ l', ¬ Second q := by
      intro q hq hother
      have hmem : q ∈ ps := hl.mem_iff.mpr (List.mem_cons_of_mem p (hl'.mem_iff.mpr hq))
      have hfresh := (List.nodup_cons.mp (hl.nodup_iff.mp hnodup)).1
      refine h (.second hp hmem (fun heq => ?_) hsecond hother)
      rw [heq] at hfresh
      exact hfresh (hl'.mem_iff.mpr hq)
    obtain ⟨r, l'', rfl⟩ : ∃ r l'', l = r :: l'' := by
      refine List.exists_cons_of_ne_nil fun hnil => ?_
      rw [hl.length_eq, hnil, List.length_singleton] at hlength
      exact absurd hlength (Nat.lt_irrefl 1)
    have hgood := hl.trans (hl'.cons p)
    refine ⟨p :: l', r :: p :: l'', hgood, hl.trans (List.Perm.swap r p l''),
      ⟨hseen, hothers, hlive _ hgood⟩, fun hpasses => ?_⟩
    exact hpasses.second p List.mem_cons_self hsecond

end Orders

/-! ## The answer -/

/-- The length that the parameters give. -/
def clenOf (ps : List Param) : Int := (lookup ps clenName).elim 0 atoll

/-- The part that they ask for. -/
def rangeOf (ps : List Param) : Int × Int := ((lookup ps rangeName).bind getRanges).getD (0, 0)

/-- The parameters give a name: the part has two numbers, there is an identifier, `cm2=0` comes with a
part, and the part does not go to the end of the video. -/
structure Named (ps : List Param) : Prop where
  range : RangeValid ps
  identifier : (lookup ps watchid).isSome = true ∨
    ∃ id, (lookup ps idName).or (lookup ps videoIdName) = some id ∧ id.length ≤ 40
  cm2 : lookup ps cm2Name = some ['0'] → (lookup ps rangeName).isSome = true
  part : ¬ (clenOf ps ≠ 0 ∧ (rangeOf ps).1 ≤ clenOf ps ∧ clenOf ps ≤ (rangeOf ps).2)

/-- The answer does not depend on the order of the parameters. -/
def OrderFree (ps : List Param) : Prop := ¬ Named ps ∨ SearchesAgree ps

/-- Two answers with the same match, and the same file and numbers if there is one. -/
def SameAnswer (answer answer' : Option Resposta) : Prop :=
  ∃ r r', answer = some r ∧ answer' = some r' ∧ r.isMatch = r'.isMatch ∧ (r.isMatch = true →
    r.file = r'.file ∧ r.range_min = r'.range_min ∧ r.range_max = r'.range_max ∧
      r.exist_range = r'.exist_range ∧ r.total_file_size = r'.total_file_size)

theorem Video.finish_file_ne_nil (v : Video) :
    v.finish.file ≠ [] ↔ v.file ≠ [] ∧ (v.exist_cm2 = true → v.range = true) ∧
      ¬ (v.clen ≠ 0 ∧ v.a ≤ v.clen ∧ v.clen ≤ v.b) := by
  have hwhole : ∀ v : Video, v.unlessWhole.file ≠ [] ↔
      v.file ≠ [] ∧ ¬ (v.clen ≠ 0 ∧ v.a ≤ v.clen ∧ v.clen ≤ v.b) := by
    intro v
    rw [Video.unlessWhole]
    split
    · next h => exact iff_of_false (fun hne => hne rfl) fun hnot => hnot.2 h
    · next h => exact (and_iff_left h).symm
  rw [Video.finish]
  split
  · next h => exact iff_of_false (fun hne => hne rfl) fun hnot => h.2 (hnot.2.1 h.1)
  · next h =>
    have hcm2 : v.exist_cm2 = true → v.range = true := fun hexist =>
      by_contra fun hrange => h ⟨hexist, hrange⟩
    dsimp only
    rw [hwhole]
    split
    · next hne =>
      refine ⟨fun hparts => ⟨hne, hcm2, hparts.2⟩, fun hparts => ⟨?_, hparts.2.2⟩⟩
      rw [List.append_assoc]
      exact List.append_ne_nil_of_left_ne_nil hne _
    · next hnil => exact ⟨fun hparts => absurd hparts.1 hnil, fun hparts => absurd hparts.1 hnil⟩

theorem Video.resposta_isMatch (v : Video) : v.resposta.isMatch = true ↔ v.file ≠ [] := by
  rw [Video.resposta]
  dsimp only
  split
  · next h => exact iff_of_true rfl h
  · next h => exact iff_of_false Bool.false_ne_true h

section Answer

variable {ps ps' : List Param} {host : Str}

theorem file_ne_nil_iff (h : QueryParams ps) (hrange : RangeValid ps) :
    (videoOf (lookup ps)).finish.file ≠ [] ↔ Named ps := by
  have hvalue : ∀ {name value : Str}, lookup ps name = some value → value ≠ [] := fun hlookup =>
    (h.plain _ ((lookup_eq_some_iff h.names).mp hlookup)).nonempty
  have hfile : (videoOf (lookup ps)).file ≠ [] ↔ (lookup ps watchid).isSome = true ∨
      ∃ id, (lookup ps idName).or (lookup ps videoIdName) = some id ∧ id.length ≤ 40 := by
    rw [videoOf]
    dsimp only
    cases hwatch : lookup ps watchid with
    | some value => exact iff_of_true (hvalue hwatch) (.inl rfl)
    | none =>
      rw [Option.getD_none, Option.isSome_none, or_iff_right Bool.false_ne_true]
      cases hid : (lookup ps idName).or (lookup ps videoIdName) with
      | none =>
        refine iff_of_false (fun hne => hne rfl) ?_
        rintro ⟨id, hsome, -⟩
        cases hsome
      | some id =>
        have hne : id ≠ [] := by
          rcases Option.or_eq_some_iff.mp hid with hid | ⟨-, hid⟩
          · exact hvalue hid
          · exact hvalue hid
        rw [Option.elim_some]
        split
        · next hlong =>
          refine iff_of_false (fun hne => hne rfl) ?_
          rintro ⟨_, heq, hshort⟩
          cases heq
          omega
        · next hshort => exact iff_of_true hne ⟨id, rfl, by omega⟩
  have ha : (videoOf (lookup ps)).a = (rangeOf ps).1 := by
    rw [videoOf, rangeOf]
    cases (lookup ps rangeName).bind getRanges <;> rfl
  have hb : (videoOf (lookup ps)).b = (rangeOf ps).2 := by
    rw [videoOf, rangeOf]
    cases (lookup ps rangeName).bind getRanges <;> rfl
  have hclen : (videoOf (lookup ps)).clen = clenOf ps := rfl
  have hcm2 : (videoOf (lookup ps)).exist_cm2 = true ↔ lookup ps cm2Name = some ['0'] := decide_eq_true_iff
  have hpart : (videoOf (lookup ps)).range = (lookup ps rangeName).isSome := rfl
  rw [Video.finish_file_ne_nil, hfile, ha, hb, hclen, hcm2, hpart]
  constructor
  · rintro ⟨hidentifier, hcm2, hnot⟩
    exact ⟨hrange, hidentifier, hcm2, hnot⟩
  · intro hnamed
    exact ⟨hnamed.identifier, hnamed.cm2, hnamed.part⟩

/-- **The answer for a request with parameters.** -/
theorem hgetmatch2_query (hhost : HostName host) (h : QueryParams ps) :
    ∃ r, hgetmatch2 (queryRequest host ps) = some r ∧ (r.isMatch = true ↔ Passes ps ∧ Named ps) ∧
      (r.isMatch = true → r = (videoOf (lookup ps)).finish.resposta) := by
  have hplayback : (find queryPlayback (queryRequest host ps)).isSome = true :=
    find_isSome_iff.mpr ⟨host, joinParams ps, rfl⟩
  rw [hgetmatch2, if_pos hplayback]
  by_cases hpasses : Passes ps
  · rw [if_pos ((servesQuery_iff hhost h.plain).mpr hpasses)]
    by_cases hne : ps = []
    · subst hne
      have hmark : '?' ∉ host := fun hmem => hhost '?' hmem (by decide)
      have hnot : ¬ Named [] := by
        rintro ⟨-, hsome | ⟨id, hid, -⟩, -⟩
        · exact absurd hsome (by decide)
        · rw [show (lookup [] idName).or (lookup [] videoIdName) = none from rfl] at hid
          cases hid
      rw [get_videoid_query_nil hmark]
      exact ⟨_, rfl, iff_of_false (by decide) fun hboth => hnot hboth.2,
        fun hmatch => absurd hmatch (by decide)⟩
    · obtain ⟨v, hv, hvalid, hinvalid⟩ := get_videoid_query host h hne
      refine ⟨v.resposta, by rw [hv, Option.map_some], ?_, ?_⟩
      · rw [Video.resposta_isMatch, and_iff_right hpasses]
        by_cases hrange : RangeValid ps
        · rw [hvalid hrange, file_ne_nil_iff h hrange]
        · exact iff_of_false (fun hfile => hfile (hinvalid hrange)) fun hnamed => hrange hnamed.range
      · intro hmatch
        rw [Video.resposta_isMatch] at hmatch
        have hrange : RangeValid ps := by_contra fun hnot => hmatch (hinvalid hnot)
        rw [hvalid hrange]
  · rw [if_neg fun hserves => hpasses ((servesQuery_iff hhost h.plain).mp hserves)]
    exact ⟨unmatched, rfl, iff_of_false Bool.false_ne_true fun hboth => hpasses hboth.1,
      fun hmatch => absurd hmatch Bool.false_ne_true⟩

theorem SameAnswer.isMatch {r r' : Resposta} (h : SameAnswer (some r) (some r')) :
    r.isMatch = r'.isMatch := by
  obtain ⟨_, _, heq, heq', hmatch, -⟩ := h
  cases heq
  cases heq'
  exact hmatch

theorem named_perm (h : QueryParams ps) (hperm : ps.Perm ps') : Named ps ↔ Named ps' := by
  have hlookup := h.lookup_eq hperm
  constructor
  · rintro ⟨hrange, hidentifier, hcm2, hpart⟩
    rw [hlookup] at hidentifier hcm2
    rw [clenOf, rangeOf, hlookup] at hpart
    rw [RangeValid, hlookup] at hrange
    exact ⟨hrange, hidentifier, hcm2, hpart⟩
  · rintro ⟨hrange, hidentifier, hcm2, hpart⟩
    rw [← hlookup] at hidentifier hcm2
    rw [clenOf, rangeOf, ← hlookup] at hpart
    rw [RangeValid, ← hlookup] at hrange
    exact ⟨hrange, hidentifier, hcm2, hpart⟩

/-- **The answer does not depend on the order of the parameters** exactly when they give no name or the
searches agree on all orders. -/
theorem hgetmatch2_perm_iff (hhost : HostName host) (h : QueryParams ps) :
    (∀ ps', ps.Perm ps' →
      SameAnswer (hgetmatch2 (queryRequest host ps)) (hgetmatch2 (queryRequest host ps'))) ↔
      OrderFree ps := by
  obtain ⟨r, hr, hmatch, hanswer⟩ := hgetmatch2_query hhost h
  constructor
  · intro hsame
    by_contra hnot
    rw [OrderFree, not_or, not_not] at hnot
    obtain ⟨hnamed, hdiffer⟩ := hnot
    obtain ⟨ps₁, ps₂, hperm₁, hperm₂, hpasses, hfails⟩ := exists_orders (h.names.of_map Prod.fst) hdiffer
    obtain ⟨r₁, hr₁, hmatch₁, -⟩ := hgetmatch2_query hhost (h.perm hperm₁)
    obtain ⟨r₂, hr₂, hmatch₂, -⟩ := hgetmatch2_query hhost (h.perm hperm₂)
    have hsame₁ := hsame ps₁ hperm₁
    have hsame₂ := hsame ps₂ hperm₂
    rw [hr, hr₁] at hsame₁
    rw [hr, hr₂] at hsame₂
    have htrue := hmatch₁.mpr ⟨hpasses, (named_perm h hperm₁).mp hnamed⟩
    rw [← hsame₁.isMatch, hsame₂.isMatch] at htrue
    exact hfails (hmatch₂.mp htrue).1
  · intro hfree ps' hperm
    obtain ⟨r', hr', hmatch', hanswer'⟩ := hgetmatch2_query hhost (h.perm hperm)
    have hiff : r.isMatch = true ↔ r'.isMatch = true := by
      rw [hmatch, hmatch', ← named_perm h hperm]
      rcases hfree with hnot | hagree
      · exact iff_of_false (fun hboth => hnot hboth.2) fun hboth => hnot hboth.2
      · rw [hagree.passes_iff hperm]
    refine ⟨r, r', hr, hr', Bool.eq_iff_iff.mpr hiff, fun htrue => ?_⟩
    rw [hanswer htrue, hanswer' (hiff.mp htrue), h.lookup_eq hperm]
    exact ⟨rfl, rfl, rfl, rfl, rfl⟩

end Answer

/-- A video and its format. -/
theorem hgetmatch2_perm_itag :
    SameAnswer
      (hgetmatch2 (queryRequest "v.youtube.com".toList [(idName, "abc".toList), (itagName, "22".toList)]))
      (hgetmatch2 (queryRequest "v.youtube.com".toList [(itagName, "22".toList), (idName, "abc".toList)])) := by
  have hhost : HostName "v.youtube.com".toList := forall_mem_of_all (by decide)
  have hplain : ∀ p ∈ [(idName, "abc".toList), (itagName, "22".toList)], Plain p := by
    simp only [List.forall_mem_cons]
    refine ⟨⟨?_, ?_, by decide⟩, ⟨?_, ?_, by decide⟩, nofun⟩ <;> exact forall_mem_of_all (by decide)
  have hsecond : ∀ p ∈ [(idName, "abc".toList), (itagName, "22".toList)], ¬ Second p := by
    unfold Second
    decide
  have hrefused : ∀ p ∈ [(idName, "abc".toList), (itagName, "22".toList)], ¬ Refused p := by
    simp only [List.forall_mem_cons]
    exact ⟨not_refused (by decide), not_refused (by decide), nofun⟩
  exact (hgetmatch2_perm_iff hhost ⟨hplain, by decide, by decide⟩).mpr
    (.inr (.passes (fun p hp h => absurd h (hsecond p hp)) hrefused)) _ (List.Perm.swap _ _ [])

/-- The same two parameters: the second one is refused behind an ampersand only. -/
theorem not_sameAnswer_ir :
    QueryParams [(idName, "abc".toList), (['i', 'r'], ['1'])] ∧
      [(idName, "abc".toList), (['i', 'r'], ['1'])].Perm [(['i', 'r'], ['1']), (idName, "abc".toList)] ∧
      ¬ SameAnswer
        (hgetmatch2 (queryRequest "v.youtube.com".toList [(idName, "abc".toList), (['i', 'r'], ['1'])]))
        (hgetmatch2 (queryRequest "v.youtube.com".toList [(['i', 'r'], ['1']), (idName, "abc".toList)])) := by
  have hbehind : hgetmatch2 (queryRequest "v.youtube.com".toList
      [(idName, "abc".toList), (['i', 'r'], ['1'])]) = some unmatched := by decide +kernel
  have hfirst : hgetmatch2 (queryRequest "v.youtube.com".toList
      [(['i', 'r'], ['1']), (idName, "abc".toList)]) =
        some ⟨true, youtube, "abc.flv".toList, 0, 0, 0, false⟩ := by decide +kernel
  have hplain : ∀ p ∈ [(idName, "abc".toList), (['i', 'r'], ['1'])], Plain p := by
    simp only [List.forall_mem_cons]
    refine ⟨⟨?_, ?_, by decide⟩, ⟨?_, ?_, by decide⟩, nofun⟩ <;> exact forall_mem_of_all (by decide)
  refine ⟨⟨hplain, by decide, by decide⟩, List.Perm.swap _ _ [], ?_⟩
  rw [hbehind, hfirst]
  exact fun hsame => absurd hsame.isMatch Bool.false_ne_true

end Haarp
