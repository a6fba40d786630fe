import Haarp.Plugins.Order

/-!
# The two syntaxes of a video

A video is asked for with its parameters behind a question mark, or in the path of the request
(`VideoRequest`). `get_videoid` and `get_videoid2` are two programs, and they make the same name of a
video where its format is not 34 and its kind is told by the beginning of `mime`; and the second one wants
a query in one part (`SameName`). `hgetmatch2_syntaxes_iff`: the answers for the two syntaxes are the same
exactly then, or when the request is for the whole video and no one serves it.
-/

namespace Haarp

open Base

/-! ## A video in both syntaxes -/

/-- A number in digits. -/
def Decimal (text : Str) : Prop := text ≠ [] ∧ ∀ c ∈ text, c.isDigit = true

/-- Names and values in turn. -/
def pairs (ps : List Param) : List Str := ps.flatMap fun p => [p.1, p.2]

/-- Components of a path, with a slash before each of them. -/
def slashed (components : List Str) : Str := components.flatMap ('/' :: ·)

/-- A part of a video at a host, with the texts of its parameters. -/
structure VideoRequest where
  host : Str
  id : Str
  itag : Str
  mime : Str
  clen : Str
  a : Str
  b : Str
  hostName : HostName host
  hostSlash : '/' ∉ host
  idLength : id.length = 16
  idWord : ∀ c ∈ id, c.isAlphanum = true ∨ c = '_'
  itagDecimal : Decimal itag
  mimeKind : "video".toList <+: mime ∨ "audio".toList <+: mime
  mimeValue : ∀ c ∈ mime, c ∉ '/' :: separators
  clenDecimal : Decimal clen
  clenPositive : 0 < atoll clen
  aDecimal : Decimal a
  bDecimal : Decimal b

namespace VideoRequest

variable (v : VideoRequest)

def range : Str := v.a ++ '-' :: v.b

/-- The parameters of the query. -/
def params : List Param :=
  [(idName, v.id), (itagName, v.itag), (mimeName, v.mime), (clenName, v.clen), (rangeName, v.range)]

/-- `/videoplayback?id=..&itag=..&mime=..&clen=..&range=a-b` -/
def queryForm : Str := queryRequest v.host v.params

/-- The components of the path. -/
def components : List Str := "videoplayback".toList :: pairs v.params

/-- The request in front of its query. -/
def urlDir : Str := v.host ++ slashed v.components

/-- `/videoplayback/id/../itag/../mime/../clen/../range/a-b?..` -/
def pathForm (query : Str) : Str := v.urlDir ++ '?' :: query

/-- The part goes to the end of the video. -/
def Whole : Prop := atoll v.a ≤ atoll v.clen ∧ atoll v.clen ≤ atoll v.b

/-- Both syntaxes name the video, and in the same way. -/
structure SameName (query : Str) : Prop where
  itag : v.itag ≠ ['3', '4']
  mime : "video".toList <+: v.mime ∨ ¬ "video".toList <:+: v.mime
  nul : nul ∉ v.mime
  query : (stringexplode query ['?']).length = 1

end VideoRequest

/-- Two answers with the same match, and the same file and numbers if there is one. -/
def SameEntry (answer answer' : Option Resposta) : Prop :=
  ∃ r r', answer = some r ∧ answer' = some r' ∧ r.isMatch = r'.isMatch ∧ (r.isMatch = true →
    r.file = r'.file ∧ r.domain = r'.domain ∧ r.range_min = r'.range_min ∧ r.range_max = r'.range_max ∧
      r.total_file_size = r'.total_file_size)

/-! ## The characters of the parameters -/

/-- The names in both syntaxes. -/
def paramNames : List Str := [idName, itagName, mimeName, clenName, rangeName]

/-- A character of no name, identifier, number or range. -/
def isMark (c : Char) : Bool := !(c.isAlphanum || c = '_' || c = '-')

theorem isMark_spec {c : Char} (h : isMark c = true) :
    c.isAlphanum = false ∧ c.isDigit = false ∧ c ≠ '_' ∧ c ≠ '-' := by
  simp only [isMark, Bool.not_eq_true', Bool.or_eq_false_iff, decide_eq_false_iff_not] at h
  obtain ⟨⟨halphanum, hline⟩, hdash⟩ := h
  have hdigit : c.isDigit = false := by
    rw [Char.isAlphanum, Bool.or_eq_false_iff] at halphanum
    exact halphanum.2
  exact ⟨halphanum, hdigit, hline, hdash⟩

theorem isMark_of_mem_separators {c : Char} (hc : c ∈ '/' :: separators) : isMark c = true := by
  have hall : ('/' :: separators).all isMark = true := rfl
  exact List.all_eq_true.mp hall c hc

theorem Decimal.not_mem {text : Str} (h : Decimal text) {c : Char} (hc : c.isDigit = false) :
    c ∉ text := by
  intro hmem
  rw [h.2 c hmem] at hc
  cases hc

namespace VideoRequest

variable (v : VideoRequest)

theorem not_mem_range {c : Char} (hc : c.isDigit = false) (hne : c ≠ '-') : c ∉ v.range := by
  rw [range, List.mem_append, List.mem_cons, not_or, not_or]
  exact ⟨v.aDecimal.not_mem hc, hne, v.bDecimal.not_mem hc⟩

theorem id_ne_nil : v.id ≠ [] := by
  intro hnil
  have hlength := v.idLength
  rw [hnil] at hlength
  cases hlength

theorem mime_ne_nil : v.mime ≠ [] := by
  intro hnil
  rcases v.mimeKind with ⟨rest, h⟩ | ⟨rest, h⟩
  · rw [hnil] at h
    cases h
  · rw [hnil] at h
    cases h

theorem range_ne_nil : v.range ≠ [] := List.append_ne_nil_of_right_ne_nil _ (List.cons_ne_nil _ _)

section Params

variable {v} {p : Param}

theorem name_mem (hp : p ∈ v.params) : p.1 ∈ paramNames := List.mem_map_of_mem (f := Prod.fst) hp

theorem value_ne_nil (hp : p ∈ v.params) : p.2 ≠ [] := by
  simp only [params, List.mem_cons, List.not_mem_nil, or_false] at hp
  rcases hp with rfl | rfl | rfl | rfl | rfl
  · exact v.id_ne_nil
  · exact v.itagDecimal.1
  · exact v.mime_ne_nil
  · exact v.clenDecimal.1
  · exact v.range_ne_nil

/-- A mark of a value is one of `mime`. -/
theorem value_not_mem {c : Char} (hc : isMark c = true) (hmime : c ∉ v.mime) (hp : p ∈ v.params) :
    c ∉ p.2 := by
  obtain ⟨halphanum, hdigit, hline, hdash⟩ := isMark_spec hc
  simp only [params, List.mem_cons, List.not_mem_nil, or_false] at hp
  rcases hp with rfl | rfl | rfl | rfl | rfl
  · intro hmem
    rcases v.idWord c hmem with h | h
    · rw [h] at halphanum
      cases halphanum
    · exact hline h
  · exact v.itagDecimal.not_mem hdigit
  · exact hmime
  · exact v.clenDecimal.not_mem hdigit
  · exact v.not_mem_range hdigit hdash

theorem name_not_mem {c : Char} (hc : isMark c = true) (hp : p ∈ v.params) : c ∉ p.1 := by
  have hnames : ∀ name ∈ paramNames, (name.all fun c => !isMark c) = true := List.all_eq_true.mp rfl
  intro hmem
  have hnot := List.all_eq_true.mp (hnames p.1 (name_mem hp)) c hmem
  rw [hc] at hnot
  cases hnot

/-- A mark of a component is one of `mime`. -/
theorem component_not_mem {c : Char} (hc : isMark c = true) (hmime : c ∉ v.mime) {component : Str}
    (hcomponent : component ∈ v.components) : c ∉ component := by
  rcases List.mem_cons.mp hcomponent with rfl | hcomponent
  · have hall : ("videoplayback".toList.all fun c => !isMark c) = true := by decide
    intro hmem
    have hnot := List.all_eq_true.mp hall c hmem
    rw [hc] at hnot
    cases hnot
  obtain ⟨p, hp, hcomponent⟩ := List.mem_flatMap.mp hcomponent
  simp only [List.mem_cons, List.not_mem_nil, or_false] at hcomponent
  rcases hcomponent with rfl | rfl
  · exact name_not_mem hc hp
  · exact value_not_mem hc hmime hp

/-- No component has a slash in it. -/
theorem slash_not_mem {component : Str} (hcomponent : component ∈ v.components) : '/' ∉ component :=
  component_not_mem rfl (fun hmem => v.mimeValue '/' hmem List.mem_cons_self) hcomponent

/-- A mark of the path is one of `mime`. -/
theorem not_mem_urlDir {c : Char} (hc : isMark c = true) (hhost : c ∈ notInHost) (hslash : c ≠ '/')
    (hmime : c ∉ v.mime) : c ∉ v.urlDir := by
  intro hmem
  rcases List.mem_append.mp hmem with hmem | hmem
  · exact v.hostName c hmem hhost
  obtain ⟨component, hcomponent, hmem⟩ := List.mem_flatMap.mp hmem
  rcases List.mem_cons.mp hmem with heq | hmem
  · exact hslash heq
  · exact component_not_mem hc hmime hcomponent hmem

theorem nul_not_mem_urlDir (hnul : nul ∉ v.mime) : nul ∉ v.urlDir :=
  not_mem_urlDir rfl (by decide) (by decide) hnul

theorem separator_not_mem_urlDir {c : Char} (hc : c ∈ separators) (hhost : c ∈ notInHost)
    (hslash : c ≠ '/') : c ∉ v.urlDir := by
  have hmem : c ∈ '/' :: separators := List.mem_cons_of_mem _ hc
  exact not_mem_urlDir (isMark_of_mem_separators hmem) hhost hslash fun hmime => v.mimeValue c hmime hmem

theorem question_not_mem_urlDir : '?' ∉ v.urlDir :=
  separator_not_mem_urlDir (by decide) (by decide) (by decide)

end Params

/-- No value has a separator of the query. -/
theorem queryParams : QueryParams v.params := by
  refine ⟨fun p hp => ⟨fun c hc hsep => ?_, fun c hc hsep => ?_, value_ne_nil hp⟩, ?_, ?_⟩
  · exact name_not_mem (isMark_of_mem_separators (List.mem_cons_of_mem _ hsep)) hp hc
  · have hsep' : c ∈ '/' :: separators := List.mem_cons_of_mem _ hsep
    exact value_not_mem (isMark_of_mem_separators hsep') (fun hmime => v.mimeValue c hmime hsep') hp hc
  · change paramNames.Nodup
    decide
  · change ¬ (idName ∈ paramNames ∧ videoIdName ∈ paramNames)
    decide

/-! ## The query -/

/-- No search finds anything in the query. -/
theorem passes : Passes v.params := by
  have hnames : ∀ name ∈ paramNames, (∀ key ∈ refusedKeys, ¬ CalledAs key name) ∧
      (name ≠ ['i', 'r'] ∧ name ≠ ['r', 'r'] ∧ name ≠ ['o', 't', 'f']) ∧
        ¬ "source".toList <:+ name := by decide
  refine ⟨not_seen fun p hp => not_refused (hnames p.1 (name_mem hp)).1, fun p hp => ?_,
    fun p hp h => (hnames p.1 (name_mem hp)).2.2 h.1⟩
  obtain ⟨hir, hrr, hotf⟩ := (hnames p.1 (name_mem (List.mem_of_mem_tail hp))).2.1
  rintro (h | h | h)
  · exact hir h.1
  · exact hrr h.1
  · exact hotf h.1

theorem getRanges_range : getRanges v.range = some (atoll v.a, atoll v.b) := by
  have hdash : ∀ {text : Str}, Decimal text → ∀ c ∈ text, c ∉ ['-'] := by
    intro text h c hc hmem
    rw [List.mem_singleton.mp hmem] at hc
    exact h.not_mem (by decide) hc
  rw [getRanges, range, stringexplode_append (hdash v.aDecimal) v.aDecimal.1 List.mem_cons_self,
    stringexplode_of_not_mem (hdash v.bDecimal) v.bDecimal.1]

instance : Decidable v.Whole := inferInstanceAs (Decidable (_ ∧ _))

/-- The answer for this part under a name. -/
def answer (name : Str) : Resposta :=
  if v.Whole then
    { unmatched with
      range_min := atoll v.a, range_max := atoll v.b, total_file_size := atoll v.clen
      exist_range := true }
  else
    { isMatch := true, domain := youtube, file := name ++ flv
      range_min := atoll v.a, range_max := atoll v.b, total_file_size := atoll v.clen
      exist_range := true }

/-- The variables of both programs at their end. -/
theorem resposta_unlessWhole {w : Video} (hfile : w.file ≠ []) (ha : w.a = atoll v.a)
    (hb : w.b = atoll v.b) (hclen : w.clen = atoll v.clen) (hexist : w.exist_range = true) :
    w.unlessWhole.resposta = v.answer w.file := by
  have hpositive := v.clenPositive
  rw [Video.unlessWhole, answer, ha, hb, hclen]
  by_cases hwhole : v.Whole
  · rw [if_pos ⟨hpositive.ne', hwhole.1, hwhole.2⟩, if_pos hwhole, Video.resposta]
    dsimp only
    rw [if_neg (not_not.mpr rfl), hexist]
  · rw [if_neg fun h => hwhole h.2, if_neg hwhole, Video.resposta]
    dsimp only
    rw [if_pos hfile, ha, hb, hclen, hexist]

/-- The format in the name, which the query leaves out for 34. -/
def queryItag : Str := if v.itag = ['3', '4'] then [] else '-' :: v.itag

theorem videoOf_params : videoOf (lookup v.params) =
    { Video.new with
      file := v.id, exist_range := true, a := atoll v.a, b := atoll v.b, clen := atoll v.clen
      itag := v.queryItag, mime := kindOf v.mime, range := true } := by
  have hid : lookup v.params idName = some v.id := rfl
  have hitag : lookup v.params itagName = some v.itag := rfl
  have hmime : lookup v.params mimeName = some v.mime := rfl
  have hclen : lookup v.params clenName = some v.clen := rfl
  have hrange : lookup v.params rangeName = some v.range := rfl
  have hwatch : lookup v.params watchid = none := rfl
  have hcm2 : lookup v.params cm2Name = none := rfl
  have hshort : ¬ v.id.length > 40 := by
    rw [v.idLength]
    decide
  simp only [videoOf, hid, hitag, hmime, hclen, hrange, hwatch, hcm2, v.getRanges_range, Option.getD_none,
    Option.some_or, Option.elim_some, Option.bind_some, if_neg hshort, Option.isSome_some]
  rfl

theorem hgetmatch2_queryForm :
    hgetmatch2 v.queryForm = some (v.answer (v.id ++ v.queryItag ++ kindOf v.mime)) := by
  have hplayback : (find queryPlayback v.queryForm).isSome = true :=
    find_isSome_iff.mpr ⟨v.host, joinParams v.params, rfl⟩
  have hvalid : RangeValid v.params := by
    intro value hvalue
    have hrange : lookup v.params rangeName = some v.range := rfl
    rw [hrange] at hvalue
    cases hvalue
    rw [v.getRanges_range]
    rfl
  obtain ⟨w, hw, hfinish, -⟩ := get_videoid_query v.host v.queryParams (List.cons_ne_nil _ _)
  have hserves : servesQuery v.queryForm = true :=
    (servesQuery_iff v.hostName v.queryParams.plain).mpr v.passes
  rw [hgetmatch2, if_pos hplayback, if_pos hserves, queryForm, hw, hfinish hvalid, videoOf_params,
    Option.map_some, Video.finish, if_neg fun h => absurd h.1 Bool.false_ne_true, if_pos v.id_ne_nil]
  refine congrArg some (v.resposta_unlessWhole ?_ rfl rfl rfl rfl)
  rw [List.append_assoc]
  exact List.append_ne_nil_of_left_ne_nil v.id_ne_nil _

/-! ## The path -/

section Path

variable {v} {pre post : List Param} {p : Param}

/-- No value is a name. -/
theorem value_not_mem_names (hp : p ∈ v.params) :
    p.2 ∉ paramNames := by
  have hletters : ∀ name ∈ paramNames,
      (name.any fun c => decide (c.isDigit = false ∧ c ≠ '-')) = true ∧ name.length < 16 ∧
        ¬ "video".toList <+: name ∧ ¬ "audio".toList <+: name := by decide
  intro hmem
  obtain ⟨hany, hlength, hvideo, haudio⟩ := hletters p.2 hmem
  obtain ⟨c, hc, hletter⟩ := List.any_eq_true.mp hany
  obtain ⟨hdigit, hdash⟩ := of_decide_eq_true hletter
  simp only [params, List.mem_cons, List.not_mem_nil, or_false] at hp
  rcases hp with rfl | rfl | rfl | rfl | rfl
  · exact absurd v.idLength hlength.ne
  · exact v.itagDecimal.not_mem hdigit hc
  · exact v.mimeKind.elim hvideo haudio
  · exact v.clenDecimal.not_mem hdigit hc
  · exact v.not_mem_range hdigit hdash hc

theorem mem_params_of_split (h : v.params = pre ++ p :: post) : p ∈ v.params := by
  rw [h]
  exact List.mem_append_right pre List.mem_cons_self

theorem params_id : v.params = [] ++ (idName, v.id) ::
    [(itagName, v.itag), (mimeName, v.mime), (clenName, v.clen), (rangeName, v.range)] := rfl

theorem params_mime : v.params = [(idName, v.id), (itagName, v.itag)] ++ (mimeName, v.mime) ::
    [(clenName, v.clen), (rangeName, v.range)] := rfl

theorem params_range : v.params =
    [(idName, v.id), (itagName, v.itag), (mimeName, v.mime), (clenName, v.clen)] ++
      (rangeName, v.range) :: [] := rfl

theorem components_split (h : v.params = pre ++ p :: post) :
    v.components = ("videoplayback".toList :: pairs pre) ++ p.1 :: p.2 :: pairs post := by
  rw [components, h, pairs, List.flatMap_append, List.flatMap_cons]
  rfl

theorem urlDir_split (h : v.params = pre ++ p :: post) :
    v.urlDir = (v.host ++ slashed ("videoplayback".toList :: pairs pre)) ++
      '/' :: (p.1 ++ '/' :: (p.2 ++ slashed (pairs post))) := by
  rw [urlDir, components_split h, slashed, List.flatMap_append, ← slashed, List.flatMap_cons,
    List.flatMap_cons, ← slashed, List.append_assoc, List.cons_append, List.cons_append]

/-- A name is a component once. -/
theorem eq_of_urlDir_eq {x y : Str} (h : v.params = pre ++ p :: post)
    (heq : v.urlDir = x ++ '/' :: (p.1 ++ '/' :: y)) :
    x = v.host ++ slashed ("videoplayback".toList :: pairs pre) ∧ y = p.2 ++ slashed (pairs post) := by
  have hp := mem_params_of_split h
  have hsplit := components_split h
  have hname : '/' ∉ p.1 := name_not_mem rfl hp
  have hnames := v.queryParams.names
  rw [h, List.map_append, List.map_cons, List.nodup_append, List.nodup_cons] at hnames
  obtain ⟨-, ⟨hpost, -⟩, hpre⟩ := hnames
  have hvalues : ∀ q ∈ v.params, p.1 ≠ q.2 := fun q hq heq => value_not_mem_names hq (heq ▸ name_mem hp)
  have hpairs : ∀ qs : List Param, (∀ q ∈ qs, q ∈ v.params) → p.1 ∉ qs.map Prod.fst → p.1 ∉ pairs qs := by
    intro qs hqs hnot hmem
    obtain ⟨q, hq, hmem⟩ := List.mem_flatMap.mp hmem
    simp only [List.mem_cons, List.not_mem_nil, or_false] at hmem
    rcases hmem with heq | heq
    · exact hnot (heq ▸ List.mem_map_of_mem hq)
    · exact hvalues q (hqs q hq) heq
  have hvideo : p.1 ≠ "videoplayback".toList := by
    intro heq
    have hmem := name_mem hp
    rw [heq] at hmem
    exact absurd hmem (by decide)
  have hbefore : p.1 ∉ "videoplayback".toList :: pairs pre := by
    rw [List.mem_cons, not_or]
    refine ⟨hvideo, hpairs pre (fun q hq => h ▸ List.mem_append_left _ hq) fun hmem => ?_⟩
    exact hpre p.1 hmem p.1 List.mem_cons_self rfl
  have hbehind : p.1 ∉ p.2 :: pairs post := by
    rw [List.mem_cons, not_or]
    refine ⟨hvalues p hp, hpairs post (fun q hq => ?_) hpost⟩
    rw [h]
    exact List.mem_append_right pre (List.mem_cons_of_mem p hq)
  obtain ⟨pre', d, post', hcomponents, rfl, rfl⟩ :=
    append_flatMap_cons_eq_pair v.hostSlash (fun c hc => slash_not_mem hc) hname heq
  rw [hsplit] at hcomponents
  obtain ⟨rfl, rfl, rfl⟩ := eq_of_append_cons_cons_eq hbefore hbehind hcomponents
  exact ⟨rfl, rfl⟩

/-- What `getiValue` takes for a name. -/
theorem getiValue_urlDir {er : Regex Char} {atLineEnd : Bool} {found rest : Str} (hnul : nul ∉ v.urlDir)
    (h : v.params = pre ++ p :: post) (hvalue : stringexplode found ['/'] = [p.2])
    (hrest : p.2 ++ slashed (pairs post) = found ++ rest) (hfound : found ∈ er.language)
    (hstop : (!atLineEnd || lineEnd rest) = true)
    (hunique : ∀ w rest, p.2 ++ slashed (pairs post) = w ++ rest → w ∈ er.language →
      (!atLineEnd || lineEnd rest) = true → w = found) :
    getiValue (pathValue p.1 er) atLineEnd v.urlDir 1 = p.2 := by
  have hcut : cStr v.urlDir = v.urlDir := by
    refine List.takeWhile_eq_self_iff.mpr fun c hc => decide_eq_true fun heq => hnul ?_
    subst heq
    exact hc
  have hname : p.1 ≠ [] := by
    intro hnil
    have hmem := name_mem (mem_params_of_split h)
    rw [hnil] at hmem
    exact absurd hmem (by decide)
  have hslash : ∀ c ∈ p.1, c ∉ ['/'] := by
    intro c hc hmem
    rw [List.mem_singleton.mp hmem] at hc
    exact name_not_mem rfl (mem_params_of_split h) hc
  have hmatch : regexMatch (pathValue p.1 er) atLineEnd v.urlDir = ('/' :: p.1 ++ ['/']) ++ found := by
    refine regexMatch_eq_of_unique rfl ?_ ?_
    · refine ⟨v.host ++ slashed ("videoplayback".toList :: pairs pre), rest, ?_,
        Regex.append_mem_seq (Regex.mem_word.mpr rfl) hfound, hstop⟩
      rw [hcut, urlDir_split h, hrest]
      simp only [List.append_assoc, List.cons_append, List.nil_append]
    · intro u w behind heq hw hstop
      obtain ⟨_, hword, value, hmem, rfl⟩ := Regex.mem_seq.mp hw
      rw [Regex.mem_word.mp hword] at heq ⊢
      have heq' : v.urlDir = u ++ '/' :: (p.1 ++ '/' :: (value ++ behind)) := by
        rw [← hcut, heq]
        simp only [List.append_assoc, List.cons_append, List.nil_append]
      obtain ⟨-, hbehind⟩ := eq_of_urlDir_eq h heq'
      rw [hunique value behind hbehind.symm hmem hstop]
  rw [getiValue, hmatch, List.append_assoc, List.cons_append, stringexplode_cons List.mem_cons_self,
    List.singleton_append, stringexplode_append hslash hname List.mem_cons_self, hvalue]
  rfl

/-- A value with a slash behind it. -/
theorem getiValue_closed {r : Regex Char} (hnul : nul ∉ v.urlDir) (h : v.params = pre ++ p :: post)
    (hpost : post ≠ []) (hvalue : p.2 ∈ r.language) (hr : ∀ w ∈ r.language, '/' ∉ w) :
    getiValue (pathValue p.1 (.seq r (.word ['/']))) false v.urlDir 1 = p.2 := by
  have hp := mem_params_of_split h
  have hslash : '/' ∉ p.2 := value_not_mem rfl (fun hmem => v.mimeValue '/' hmem List.mem_cons_self) hp
  obtain ⟨q, post, rfl⟩ := List.exists_cons_of_ne_nil hpost
  have hbehind : p.2 ++ slashed (pairs (q :: post)) =
      (p.2 ++ ['/']) ++ (q.1 ++ slashed (q.2 :: pairs post)) := by
    rw [List.append_assoc]
    rfl
  refine getiValue_urlDir hnul h ?_ hbehind (Regex.append_mem_seq hvalue (Regex.mem_word.mpr rfl)) rfl ?_
  · refine stringexplode_append (fun c hc hmem => hslash ?_) (v.queryParams.plain p hp).nonempty
      List.mem_cons_self
    rw [← List.mem_singleton.mp hmem]
    exact hc
  · intro w rest heq hw _
    obtain ⟨value, hvalue, _, hword, rfl⟩ := Regex.mem_seq.mp hw
    rw [Regex.mem_word.mp hword] at heq ⊢
    rw [hbehind, List.append_assoc, List.append_assoc] at heq
    rw [(append_cons_inj hslash (hr value hvalue) heq).1]

theorem pathId_urlDir (hnul : nul ∉ v.mime) : pathId v.urlDir = v.id := by
  refine getiValue_closed (nul_not_mem_urlDir hnul) params_id (List.cons_ne_nil _ _) ?_ fun w hw hmem => ?_
  · exact Regex.mem_pow_char.mpr ⟨v.idLength, fun c hc => decide_eq_true (v.idWord c hc)⟩
  · exact absurd ((Regex.mem_pow_char.mp hw).2 '/' hmem) (by decide)

/-- A number in the path. -/
theorem pathNumber_urlDir (hnul : nul ∉ v.mime) (h : v.params = pre ++ p :: post) (hpost : post ≠ [])
    (hdecimal : Decimal p.2) : pathNumber p.1 v.urlDir = p.2 := by
  refine getiValue_closed (nul_not_mem_urlDir hnul) h hpost (Regex.mem_plus_char.mpr hdecimal)
    fun w hw hmem => ?_
  exact absurd ((Regex.mem_plus_char.mp hw).2 '/' hmem) (by decide)

/-- `/range/[0-9]+-[0-9]+$` -/
def pathRange (urlDir : Str) : Str :=
  getiValue (pathValue rangeName (.seq (.plus digit) (.seq (.word ['-']) (.plus digit)))) true urlDir 1

theorem pathRange_urlDir (hnul : nul ∉ v.mime) : pathRange v.urlDir = v.range := by
  have hbehind : v.range ++ slashed (pairs []) = v.range := List.append_nil v.range
  refine @getiValue_urlDir v _ _ _ _ _ v.range [] (nul_not_mem_urlDir hnul) params_range ?_ rfl ?_ rfl ?_
  · refine stringexplode_of_not_mem (fun c hc hmem => ?_) v.range_ne_nil
    rw [List.mem_singleton.mp hmem] at hc
    exact v.not_mem_range (by decide) (by decide) hc
  · exact Regex.append_mem_seq (Regex.mem_plus_char.mpr v.aDecimal)
      (Regex.append_mem_seq (Regex.mem_word.mpr rfl) (Regex.mem_plus_char.mpr v.bDecimal))
  · intro w rest heq _ hstop
    rw [hbehind] at heq
    cases rest with
    | nil => rw [heq, List.append_nil]
    | cons c rest =>
      have hline : c = '\n' := of_decide_eq_true hstop
      have hmem : c ∈ v.range := by
        rw [heq]
        exact List.mem_append_right w List.mem_cons_self
      rw [hline] at hmem
      exact absurd hmem (v.not_mem_range (by decide) (by decide))

/-- Behind a NUL no range is found. -/
theorem getRanges_pathRange_of_nul (hnul : nul ∈ v.mime) : getRanges (pathRange v.urlDir) = none := by
  have hnone : regexMatch
      (pathValue rangeName (.seq (.plus digit) (.seq (.word ['-']) (.plus digit)))) true v.urlDir = [] := by
    by_contra hne
    obtain ⟨u, w, rest, heq, hw, -⟩ := (regexMatch_ne_nil_iff rfl).mp hne
    obtain ⟨_, hword, value, -, rfl⟩ := Regex.mem_seq.mp hw
    rw [Regex.mem_word.mp hword] at heq
    have hurl : v.urlDir = u ++ '/' :: (rangeName ++ '/' ::
        (value ++ rest ++ v.urlDir.dropWhile (· ≠ Char.ofNat 0))) := by
      have hboth := (@List.takeWhile_append_dropWhile Char (· ≠ Char.ofNat 0) v.urlDir).symm
      rw [← cStr, heq] at hboth
      refine hboth.trans ?_
      simp only [List.append_assoc, List.cons_append, List.nil_append]
    obtain ⟨rfl, -⟩ := @eq_of_urlDir_eq v _ _ _ _ _ params_range hurl
    have hmime : nul ∈ v.host ++ slashed ("videoplayback".toList ::
        pairs [(idName, v.id), (itagName, v.itag), (mimeName, v.mime), (clenName, v.clen)]) := by
      refine List.mem_append_right v.host (List.mem_flatMap.mpr ⟨v.mime, ?_, List.mem_cons_of_mem _ hnul⟩)
      simp [pairs]
    have hcut : nul ∈ cStr v.urlDir := by
      rw [heq]
      exact List.mem_append_left _ hmime
    exact absurd (List.mem_takeWhile_imp hcut) (by decide)
  rw [pathRange, getiValue, hnone]
  rfl

/-- The kind that the path gives. -/
def pathKind (v : VideoRequest) : Str := if "video".toList <+: v.mime then vid else aud

theorem find_mime_iff :
    (find "/mime/video".toList v.urlDir).isSome = true ↔ "video".toList <+: v.mime := by
  have hword : "/mime/video".toList = '/' :: (mimeName ++ '/' :: "video".toList) := by decide
  rw [find_isSome_iff, hword]
  constructor
  · rintro ⟨front, behind, heq⟩
    have hurl : v.urlDir = front ++ '/' :: (mimeName ++ '/' :: ("video".toList ++ behind)) := by
      rw [← heq]
      simp only [List.append_assoc, List.cons_append]
    obtain ⟨-, hmime⟩ := @eq_of_urlDir_eq v _ _ _ _ _ params_mime hurl
    refine (prefix_append_iff fun c hc hmem => ?_).mp ⟨behind, hmime⟩
    rw [← Option.some.inj hc] at hmem
    exact absurd hmem (by decide)
  · rintro ⟨behind, heq⟩
    rw [urlDir_split params_mime]
    refine List.IsInfix.trans ?_ (List.suffix_append _ _).isInfix
    refine ⟨[], behind ++ slashed (pairs [(clenName, v.clen), (rangeName, v.range)]), ?_⟩
    dsimp only
    rw [← heq]
    simp only [List.append_assoc, List.cons_append, List.nil_append]

theorem urlDir_ne_nil : v.urlDir ≠ [] := List.append_ne_nil_of_right_ne_nil _ (List.cons_ne_nil _ _)

/-! ### The searches in the path -/

/-- Of two components in turn, one is a name. -/
theorem mem_names_of_pairs {ps : List Param} {first c d : Str} {before after : List Str}
    (h : first :: pairs ps = before ++ d :: c :: after) : d ∈ ps.map Prod.fst ∨ c ∈ ps.map Prod.fst := by
  induction ps generalizing first before with
  | nil =>
    have hlength : 1 = before.length + (after.length + 1 + 1) := by
      simpa [pairs] using congrArg List.length h
    omega
  | cons p ps ih =>
    change first :: p.1 :: p.2 :: pairs ps = before ++ d :: c :: after at h
    cases before with
    | nil =>
      obtain ⟨-, h⟩ := List.cons.inj h
      exact .inr ((List.cons.inj h).1 ▸ List.mem_cons_self)
    | cons e before =>
      obtain ⟨-, h⟩ := List.cons.inj h
      cases before with
      | nil => exact .inl ((List.cons.inj h).1 ▸ List.mem_cons_self)
      | cons e before =>
        obtain ⟨-, h⟩ := List.cons.inj h
        exact (ih h).imp (List.mem_cons_of_mem _) (List.mem_cons_of_mem _)

/-- The names in front of what the searches refuse. -/
def pathKeys : List Str :=
  ["begin".toList, "cms_redirect".toList, "redirect_counter".toList, ['i', 'r'], ['r', 'r'],
    "source".toList, ['o', 't', 'f'], "cmd2".toList]

/-- A name with a value behind it is not in the path. -/
theorem not_assigned_urlDir {key x y : Str} {c : Char} (hkey : key ∈ pathKeys) (hx : key <:+ x)
    (hc : c.isDigit = true ∨ c = 'y') : v.urlDir ≠ x ++ '/' :: c :: y := by
  intro heq
  have hslash : ∀ key ∈ pathKeys, key ≠ [] ∧ '/' ∉ key := by decide
  have hnames : ∀ name ∈ paramNames, name ≠ [] ∧
      (∀ key ∈ pathKeys, ¬ key <:+ name) ∧
        (name.head?.all fun c => decide (¬ (c.isDigit = true ∨ c = 'y'))) = true := by decide
  obtain ⟨before, component, after, hsplit, rfl, hbehind⟩ :=
    (append_flatMap_cons_eq_iff v.hostSlash fun c hc => slash_not_mem hc).mp heq
  have hhead : component ≠ [] →
      (component.head?.all fun c => decide (¬ (c.isDigit = true ∨ c = 'y'))) = false := by
    intro hne
    obtain ⟨d, w, rfl⟩ := List.exists_cons_of_ne_nil hne
    rw [← (List.cons.inj hbehind).1]
    exact decide_eq_false (not_not.mpr hc)
  cases before using List.reverseRecOn with
  | nil =>
    have hfirst : component = "videoplayback".toList := (List.cons.inj hsplit).1.symm
    rw [hfirst] at hhead
    exact absurd (hhead (by decide)) (by decide)
  | append_singleton before d =>
    rw [List.append_assoc, List.singleton_append] at hsplit
    rcases mem_names_of_pairs hsplit with hname | hname
    · obtain ⟨a, w, rfl⟩ := List.exists_cons_of_ne_nil (hslash key hkey).1
      have hnot := (hslash _ hkey).2
      rw [List.mem_cons, not_or] at hnot
      rw [List.flatMap_append, List.flatMap_singleton, ← List.append_assoc,
        suffix_append_cons_iff hnot.2] at hx
      rcases hx with hx | ⟨ha, -⟩
      · exact (hnames d hname).2.1 _ hkey hx
      · exact hnot.1 ha.symm
    · obtain ⟨hne, -, hfirst⟩ := hnames component hname
      rw [hhead hne] at hfirst
      cases hfirst

/-- What a search wants before a value, with a character before its name or without, does not begin
before the query. -/
theorem suffix_query {front key dir x : Str} (hkey : key ∈ pathKeys)
    (hfront : front = key ∨ ∃ start, front = start :: key) (h : front <:+ dir ++ '?' :: x) :
    front <:+ '?' :: x := by
  have hkeys : ∀ key ∈ pathKeys, key ≠ [] ∧ '?' ∉ key := by decide
  obtain ⟨hne, hmark⟩ := hkeys key hkey
  rcases hfront with rfl | ⟨start, rfl⟩
  · obtain ⟨a, key, rfl⟩ := List.exists_cons_of_ne_nil hne
    rw [List.mem_cons, not_or] at hmark
    rcases (suffix_append_cons_iff hmark.2).mp h with h | ⟨ha, -⟩
    · exact h.trans (List.suffix_cons '?' x)
    · exact absurd ha.symm hmark.1
  · rcases (suffix_append_cons_iff hmark).mp h with h | ⟨rfl, rfl⟩
    · exact h.trans (List.suffix_cons '?' x)
    · exact List.suffix_rfl

/-- A value does not begin in the path. -/
theorem not_value_urlDir {key x between query rest : Str} {first : Char} (hkey : key ∈ pathKeys)
    (hx : key <:+ x) (hfirst : first.isDigit = true ∨ first = 'y')
    (hdir : v.urlDir = x ++ '/' :: between) : cStr (between ++ '?' :: query) ≠ first :: rest := by
  intro hcut
  cases between with
  | nil =>
    rw [List.nil_append, cStr, List.takeWhile_cons_of_pos (by decide)] at hcut
    rw [← (List.cons.inj hcut).1] at hfirst
    exact absurd hfirst (by decide)
  | cons d between =>
    rw [List.cons_append, cStr, List.takeWhile_cons] at hcut
    split at hcut
    · rw [← (List.cons.inj hcut).1] at hfirst
      exact not_assigned_urlDir hkey hx hfirst hdir
    · cases hcut

/-- A search of the path finds only what is in the query. -/
theorem regexMatch_pathForm {er : Regex Char} {key query : Str} (hkey : key ∈ pathKeys)
    (hnull : er.nullable = false)
    (her : ∀ w ∈ er.language, ∃ front c value, w = front ++ c :: value ∧ c ∈ ['=', '/'] ∧
      (front = key ∨ ∃ start, front = start :: key) ∧
      ∃ first rest, value = first :: rest ∧ (first.isDigit = true ∨ first = 'y'))
    (h : regexMatch er false ('?' :: query) = []) : regexMatch er false (v.pathForm query) = [] := by
  by_contra hne
  obtain ⟨u, w, behind, heq, hw, hstop⟩ := (regexMatch_ne_nil_iff hnull).mp hne
  obtain ⟨front, c, value, rfl, hc, hfront, first, rest, rfl, hfirst⟩ := her w hw
  have hsplit : cStr (v.pathForm query) = (u ++ front) ++ c :: (first :: rest ++ behind) := by
    rw [heq]
    simp only [List.append_assoc, List.cons_append]
  obtain ⟨hnul, hc', y, hurl, hy⟩ := takeWhile_eq_append_cons_iff.mp hsplit
  have hmarks : ∀ c ∈ ['=', '/'], c ≠ '?' ∧ (c = '=' ∨ c = '/') := forall_mem_of_all (by decide)
  rcases List.append_eq_append_iff.mp hurl with ⟨between, hbefore, hquery⟩ | ⟨between, hdir, hbehind⟩
  · -- the sign is in the query
    cases between with
    | nil => exact (hmarks c hc).1 (List.cons.inj hquery).1.symm
    | cons mark x =>
      obtain ⟨rfl, hquery⟩ := List.cons.inj hquery
      obtain ⟨u', hu'⟩ := suffix_query hkey hfront ⟨u, hbefore⟩
      refine absurd h ((regexMatch_ne_nil_iff hnull).mpr ⟨u', _, behind, ?_, hw, hstop⟩)
      have hcut : cStr ('?' :: query) = ('?' :: x) ++ c :: (first :: rest ++ behind) := by
        refine takeWhile_eq_append_cons_iff.mpr ⟨fun b hb => hnul b ?_, hc', y, ?_, hy⟩
        · rw [hbefore]
          exact List.mem_append_right _ hb
        · rw [hquery, List.cons_append]
      rw [hcut, ← hu']
      simp only [List.append_assoc, List.cons_append]
  · -- the sign is in the path
    cases between with
    | nil => exact (hmarks c hc).1 (List.cons.inj hbehind).1
    | cons mark between =>
      obtain ⟨rfl, rfl⟩ := List.cons.inj hbehind
      rcases (hmarks c hc).2 with rfl | rfl
      · have hmem : '=' ∈ v.urlDir := by
          rw [hdir]
          exact List.mem_append_right _ List.mem_cons_self
        exact separator_not_mem_urlDir (by decide) (by decide) (by decide) hmem
      · have hends : key <:+ u ++ front := by
          rcases hfront with rfl | ⟨start, rfl⟩
          · exact List.suffix_append u front
          · exact (List.suffix_cons start key).trans (List.suffix_append u _)
        exact not_value_urlDir hkey hends hfirst hdir hy.symm

theorem first_of_mem_word {a : Char} {w word : Str} (hw : w ∈ (Regex.word (a :: word)).language)
    (ha : a.isDigit = true ∨ a = 'y') :
    ∃ first rest, w = first :: rest ∧ (first.isDigit = true ∨ first = 'y') :=
  ⟨a, word, Regex.mem_word.mp hw, ha⟩

theorem first_of_mem_positive {w : Str} (hw : w ∈ positive.language) :
    ∃ first rest, w = first :: rest ∧ (first.isDigit = true ∨ first = 'y') := by
  obtain ⟨hdigits, c, hc, -⟩ := mem_positive.mp hw
  obtain ⟨first, rest, rfl⟩ := List.exists_cons_of_ne_nil (List.ne_nil_of_mem hc)
  exact ⟨first, rest, rfl, .inl (hdigits first List.mem_cons_self)⟩

/-- A name and a value, without a character before them. -/
theorem regexMatch_assigned_pathForm {key query : Str} {r : Regex Char} (hkey : key ∈ pathKeys)
    (hnull : r.nullable = false)
    (hvalue : ∀ w ∈ r.language, ∃ first rest, w = first :: rest ∧ (first.isDigit = true ∨ first = 'y'))
    (h : regexMatch (assigned key r) false ('?' :: query) = []) :
    regexMatch (assigned key r) false (v.pathForm query) = [] := by
  refine regexMatch_pathForm hkey ?_ (fun w hw => ?_) h
  · simp only [assigned, Regex.nullable, hnull, Bool.and_false]
  · obtain ⟨_, hword, _, hrest, rfl⟩ := Regex.mem_seq.mp hw
    obtain ⟨_, ⟨c, hc, rfl⟩, value, hmem, rfl⟩ := Regex.mem_seq.mp hrest
    rw [Regex.mem_word.mp hword]
    exact ⟨key, c, value, rfl, of_decide_eq_true hc, .inl rfl, hvalue value hmem⟩

/-- A name and a value, with a character before them. -/
theorem regexMatch_start_pathForm {key query : Str} {r : Regex Char} (hkey : key ∈ pathKeys)
    (hnull : r.nullable = false)
    (hvalue : ∀ w ∈ r.language, ∃ first rest, w = first :: rest ∧ (first.isDigit = true ∨ first = 'y'))
    (h : regexMatch (.seq pathStart (assigned key r)) false ('?' :: query) = []) :
    regexMatch (.seq pathStart (assigned key r)) false (v.pathForm query) = [] := by
  refine regexMatch_pathForm hkey ?_ (fun w hw => ?_) h
  · simp only [assigned, Regex.nullable, hnull, Bool.and_false]
  · obtain ⟨_, ⟨start, -, rfl⟩, _, hassigned, rfl⟩ := Regex.mem_seq.mp hw
    obtain ⟨_, hword, _, hrest, rfl⟩ := Regex.mem_seq.mp hassigned
    obtain ⟨_, ⟨c, hc, rfl⟩, value, hmem, rfl⟩ := Regex.mem_seq.mp hrest
    rw [Regex.mem_word.mp hword]
    exact ⟨start :: key, c, value, rfl, of_decide_eq_true hc, .inr ⟨start, rfl⟩, hvalue value hmem⟩

/-- **What is asked of a request** with its parameters in the path is asked of its query. -/
theorem servesPath_pathForm {query : Str} (h : servesPath ('?' :: query) = true) :
    servesPath (v.pathForm query) = true := by
  have hyes : "yes".toList = 'y' :: "es".toList := by decide
  have hlive : "yt_live".toList = 'y' :: "t_live".toList := by decide
  have hone : ('1').isDigit = true ∨ '1' = 'y' := by decide
  have hzero : ('0').isDigit = true ∨ '0' = 'y' := by decide
  rw [servesPath, decide_eq_true_eq, hyes, hlive] at h ⊢
  obtain ⟨hbegin, hcms, hcounter, hir, hrr, hsource, hotf, hcmd2⟩ := h
  exact ⟨regexMatch_assigned_pathForm (by decide) rfl (fun w hw => first_of_mem_positive hw) hbegin,
    regexMatch_assigned_pathForm (by decide) rfl (fun w hw => first_of_mem_word hw (.inr rfl)) hcms,
    regexMatch_assigned_pathForm (by decide) rfl (fun w hw => first_of_mem_word hw hone) hcounter,
    regexMatch_start_pathForm (by decide) rfl (fun w hw => first_of_mem_word hw hone) hir,
    regexMatch_start_pathForm (by decide) rfl (fun w hw => first_of_mem_word hw hone) hrr,
    regexMatch_assigned_pathForm (by decide) rfl (fun w hw => first_of_mem_word hw (.inr rfl)) hsource,
    regexMatch_start_pathForm (by decide) rfl (fun w hw => first_of_mem_word hw hone) hotf,
    regexMatch_assigned_pathForm (by decide) rfl (fun w hw => first_of_mem_word hw hzero) hcmd2⟩

/-! ### The program for the path -/

/-- The path and the parts of the query. -/
theorem stringexplode_pathForm (query : Str) :
    stringexplode (v.pathForm query) ['?'] = v.urlDir :: stringexplode query ['?'] := by
  refine stringexplode_append (fun c hc hmem => ?_) urlDir_ne_nil List.mem_cons_self
  rw [List.mem_singleton.mp hmem] at hc
  exact question_not_mem_urlDir hc

/-- A query in one part. -/
theorem get_videoid2_pathForm {query : Str}
    (hwatch : ∀ part ∈ stringexplode query ['?'], watchParam (stringexplode part ['&']) = none)
    (hquery : (stringexplode query ['?']).length = 1) (hnul : nul ∉ v.mime) :
    (get_videoid2 (v.pathForm query)).resposta = v.answer (v.id ++ '-' :: v.itag ++ pathKind v) := by
  obtain ⟨part, hpart⟩ := List.length_eq_one_iff.mp hquery
  have hitag : pathNumber itagName v.urlDir = v.itag :=
    @pathNumber_urlDir v [(idName, v.id)] [(mimeName, v.mime), (clenName, v.clen), (rangeName, v.range)]
      (itagName, v.itag) hnul rfl (List.cons_ne_nil _ _) v.itagDecimal
  have hclen : pathNumber clenName v.urlDir = v.clen :=
    @pathNumber_urlDir v [(idName, v.id), (itagName, v.itag), (mimeName, v.mime)] [(rangeName, v.range)]
      (clenName, v.clen) hnul rfl (List.cons_ne_nil _ _) v.clenDecimal
  have hkind : (if (find "/mime/video".toList v.urlDir).isSome then vid else aud) = pathKind v :=
    if_congr find_mime_iff rfl rfl
  have hrange := pathRange_urlDir hnul
  rw [pathRange] at hrange
  have hcode : (watchParam (stringexplode part ['&'])).getD (pathId v.urlDir) = v.id := by
    rw [hwatch part (by rw [hpart]; exact List.mem_cons_self), pathId_urlDir hnul]
    rfl
  rw [get_videoid2, stringexplode_pathForm, hpart]
  dsimp only
  rw [hcode, if_neg v.id_ne_nil, hrange, v.getRanges_range]
  dsimp only
  rw [hitag, hclen, hkind]
  refine v.resposta_unlessWhole ?_ rfl rfl rfl rfl
  rw [List.append_assoc]
  exact List.append_ne_nil_of_left_ne_nil v.id_ne_nil _

/-- Otherwise the path has no name. -/
theorem get_videoid2_pathForm_file {query : Str}
    (h : ¬ (nul ∉ v.mime ∧ (stringexplode query ['?']).length = 1)) :
    (get_videoid2 (v.pathForm query)).file = [] := by
  rw [get_videoid2, stringexplode_pathForm]
  cases hparts : stringexplode query ['?'] with
  | nil => rfl
  | cons part parts =>
    cases parts with
    | cons other parts => rfl
    | nil =>
      have hnul : nul ∈ v.mime := by
        by_contra hnot
        exact h ⟨hnot, by rw [hparts]; rfl⟩
      have hrange := getRanges_pathRange_of_nul hnul
      rw [pathRange] at hrange
      dsimp only
      split
      · rfl
      · rw [hrange]
        rfl

/-- **The answer for the path.** -/
theorem hgetmatch2_pathForm {query : Str} (hfilters : servesPath ('?' :: query) = true)
    (hform : ¬ queryPlayback <:+: query) :
    hgetmatch2 (v.pathForm query) = some (get_videoid2 (v.pathForm query)).resposta := by
  have hquery : find queryPlayback (v.pathForm query) = none := by
    rw [find_eq_none_iff]
    intro hfound
    have hmark : queryPlayback = "/videoplayback".toList ++ '?' :: [] := by decide
    have hword : "/videoplayback".toList = '/' :: "videoplayback".toList := by decide
    rw [hmark] at hfound hform
    obtain ⟨x, y, heq, hx, -⟩ := infix_iff_exists.mp hfound
    rcases (append_cons_eq_iff question_not_mem_urlDir).mp heq with ⟨rfl, -⟩ | ⟨x', rfl, hrest⟩
    · -- the path ends with the range
      have hend := urlDir_split (params_range (v := v))
      rw [show slashed (pairs []) = [] from rfl, List.append_nil, ← List.cons_append, ← List.append_assoc]
        at hend
      rw [hend, hword, suffix_append_cons_iff (by decide)] at hx
      rcases hx with hsuffix | ⟨-, hrange⟩
      · exact v.not_mem_range (by decide) (by decide) (hsuffix.subset List.mem_cons_self)
      · have hmem : 'v' ∈ v.range := by
          rw [← show "videoplayback".toList = v.range from hrange]
          decide
        exact v.not_mem_range (by decide) (by decide) hmem
    · rw [hword, suffix_append_cons_iff (by decide)] at hx
      rcases hx with hsuffix | ⟨hne, -⟩
      · exact hform (infix_iff_exists.mpr ⟨x', y, hrest, by rw [hword]; exact hsuffix, List.nil_prefix⟩)
      · exact absurd hne (by decide)
  have hpath : (find pathPlayback (v.pathForm query)).isSome = true := by
    have hword : pathPlayback = slashed ["videoplayback".toList] ++ ['/'] := by decide
    rw [find_isSome_iff, hword, pathForm, urlDir_split params_id, show pairs [] = [] from rfl]
    refine List.IsInfix.trans ?_ (List.prefix_append _ _).isInfix
    rw [List.append_cons (v.host ++ slashed ["videoplayback".toList]), List.append_assoc v.host]
    exact List.infix_append v.host _ _
  rw [hgetmatch2, hquery, if_neg (by decide), if_pos hpath,
    if_pos (servesPath_pathForm hfilters)]

end Path

/-! ## Both answers -/

/-- The query and the path make the same name. -/
theorem name_eq_iff : v.id ++ v.queryItag ++ kindOf v.mime = v.id ++ '-' :: v.itag ++ pathKind v ↔
    v.itag ≠ ['3', '4'] ∧ ("video".toList <+: v.mime ∨ ¬ "video".toList <:+: v.mime) := by
  have hvideo : "video".toList = ['v', 'i', 'd', 'e', 'o'] := by decide
  have haudio : "audio".toList = ['a', 'u', 'd', 'i', 'o'] := by decide
  have hkind : kindOf v.mime = if "video".toList <:+: v.mime then vid else aud := by
    rw [kindOf, ← hvideo, ← haudio]
    refine ite_congr (propext find_isSome_iff) (fun _ => rfl) fun hnot => if_pos (find_isSome_iff.mpr ?_)
    exact v.mimeKind.elim (fun h => absurd h.isInfix hnot) fun h => h.isInfix
  have hne : vid ≠ aud := by decide
  rw [List.append_assoc, List.append_assoc, List.append_cancel_left_eq, hkind, queryItag, pathKind]
  by_cases h34 : v.itag = ['3', '4']
  · rw [if_pos h34, h34]
    refine iff_of_false (fun heq => ?_) fun h => h.1 rfl
    have hlength := congrArg List.length heq
    split at hlength <;> split at hlength <;> exact absurd hlength (by decide)
  · rw [if_neg h34, List.append_cancel_left_eq, and_iff_right h34]
    by_cases hprefix : "video".toList <+: v.mime
    · rw [if_pos hprefix.isInfix, if_pos hprefix]
      exact iff_of_true rfl (.inl hprefix)
    · rw [if_neg hprefix, or_iff_right hprefix]
      split
      · next hinside => exact iff_of_false hne fun hnot => hnot hinside
      · next hinside => exact iff_of_true rfl hinside

theorem answer_isMatch (name : Str) : (v.answer name).isMatch = true ↔ ¬ v.Whole := by
  rw [answer]
  split
  · next h => exact iff_of_false Bool.false_ne_true (not_not.mpr h)
  · next h => exact iff_of_true rfl h

/-- Answers under two names. -/
theorem sameEntry_answer {name name' : Str} :
    SameEntry (some (v.answer name)) (some (v.answer name')) ↔ v.Whole ∨ name = name' := by
  constructor
  · rintro ⟨_, _, hr, hr', -, hsame⟩
    cases hr
    cases hr'
    by_cases hwhole : v.Whole
    · exact .inl hwhole
    · have hfile := (hsame ((v.answer_isMatch name).mpr hwhole)).1
      rw [answer, answer, if_neg hwhole, if_neg hwhole] at hfile
      exact .inr (List.append_cancel_right hfile)
  · rintro (hwhole | rfl)
    · refine ⟨_, _, rfl, rfl, ?_, fun hmatch => absurd hwhole ((v.answer_isMatch name).mp hmatch)⟩
      rw [answer, answer, if_pos hwhole, if_pos hwhole]
    · exact ⟨_, _, rfl, rfl, rfl, fun _ => ⟨rfl, rfl, rfl, rfl, rfl⟩⟩

/-- An answer, and none. -/
theorem sameEntry_unmatched {name : Str} {r : Resposta} (hr : r.isMatch = false) :
    SameEntry (some (v.answer name)) (some r) ↔ v.Whole := by
  constructor
  · rintro ⟨_, _, hanswer, hother, hmatch, -⟩
    cases hanswer
    cases hother
    by_contra hwhole
    rw [(v.answer_isMatch name).mpr hwhole, hr] at hmatch
    cases hmatch
  · intro hwhole
    have hnot : ¬ (v.answer name).isMatch = true := fun hmatch => (v.answer_isMatch name).mp hmatch hwhole
    exact ⟨_, _, rfl, rfl, (Bool.not_eq_true _ ▸ hnot).trans hr.symm, fun hmatch => absurd hmatch hnot⟩

end VideoRequest

/-- **Both syntaxes have one answer** exactly when they name the video in the same way or none of them is
served. -/
theorem hgetmatch2_syntaxes_iff (v : VideoRequest) {query : Str}
    (hwatch : ∀ part ∈ stringexplode query ['?'], watchParam (stringexplode part ['&']) = none)
    (hfilters : servesPath ('?' :: query) = true) (hform : ¬ queryPlayback <:+: query) :
    SameEntry (hgetmatch2 v.queryForm) (hgetmatch2 (v.pathForm query)) ↔
      v.Whole ∨ v.SameName query := by
  rw [v.hgetmatch2_queryForm, VideoRequest.hgetmatch2_pathForm hfilters hform]
  by_cases hparts : nul ∉ v.mime ∧ (stringexplode query ['?']).length = 1
  · rw [VideoRequest.get_videoid2_pathForm hwatch hparts.2 hparts.1, VideoRequest.sameEntry_answer,
      VideoRequest.name_eq_iff]
    exact or_congr_right ⟨fun h => ⟨h.1, h.2, hparts.1, hparts.2⟩, fun h => ⟨h.itag, h.mime⟩⟩
  · have hfile := VideoRequest.get_videoid2_pathForm_file hparts
    have hunmatched : (get_videoid2 (v.pathForm query)).resposta.isMatch = false := by
      rw [← Bool.not_eq_true, Video.resposta_isMatch, not_not]
      exact hfile
    rw [v.sameEntry_unmatched hunmatched]
    exact (or_iff_left fun h => hparts ⟨h.nul, h.query⟩).symm

/-- The first half of a video in this format. -/
def firstHalf (itag : Str) (itagDecimal : Decimal itag) : VideoRequest where
  host := "v.youtube.com".toList
  id := "abcdefghijklmnop".toList
  itag := itag
  mime := "video%2Fmp4".toList
  clen := "1000".toList
  a := "0".toList
  b := "499".toList
  hostName := forall_mem_of_all (by decide)
  hostSlash := by decide
  idLength := by decide
  idWord := forall_mem_of_all (by decide)
  itagDecimal := itagDecimal
  mimeKind := .inl (by decide)
  mimeValue := forall_mem_of_all (by decide)
  clenDecimal := ⟨by decide, List.all_eq_true.mp rfl⟩
  clenPositive := by decide
  aDecimal := ⟨by decide, List.all_eq_true.mp rfl⟩
  bDecimal := ⟨by decide, List.all_eq_true.mp rfl⟩

theorem decimal_22 : Decimal ['2', '2'] := ⟨by decide, List.all_eq_true.mp rfl⟩

theorem decimal_34 : Decimal ['3', '4'] := ⟨by decide, List.all_eq_true.mp rfl⟩

/-- Format 22, with a further parameter behind the path. -/
theorem sameEntry_format_22 :
    SameEntry (hgetmatch2 (firstHalf _ decimal_22).queryForm)
      (hgetmatch2 ((firstHalf _ decimal_22).pathForm ['x', '=', '1'])) := by
  have hwatch : ∀ part ∈ stringexplode ['x', '=', '1'] ['?'],
      watchParam (stringexplode part ['&']) = none := by decide
  have hfilters : servesPath ('?' :: ['x', '=', '1']) = true := by decide +kernel
  have hform : ¬ queryPlayback <:+: ['x', '=', '1'] := by decide
  have hname : (firstHalf _ decimal_22).SameName ['x', '=', '1'] :=
    ⟨by decide, .inl (by decide), by decide, by decide⟩
  exact (hgetmatch2_syntaxes_iff _ hwatch hfilters hform).mpr (.inr hname)

/-- In format 34 the video has two names. -/
theorem not_sameEntry_format_34 :
    (∀ part ∈ stringexplode ['x', '=', '1'] ['?'], watchParam (stringexplode part ['&']) = none) ∧
      servesPath ('?' :: ['x', '=', '1']) = true ∧ ¬ queryPlayback <:+: ['x', '=', '1'] ∧
      ¬ SameEntry (hgetmatch2 (firstHalf _ decimal_34).queryForm)
        (hgetmatch2 ((firstHalf _ decimal_34).pathForm ['x', '=', '1'])) := by
  have hwatch : ∀ part ∈ stringexplode ['x', '=', '1'] ['?'],
      watchParam (stringexplode part ['&']) = none := by decide
  have hfilters : servesPath ('?' :: ['x', '=', '1']) = true := by decide +kernel
  have hform : ¬ queryPlayback <:+: ['x', '=', '1'] := by decide
  refine ⟨hwatch, hfilters, hform, ?_⟩
  rw [VideoRequest.hgetmatch2_queryForm, VideoRequest.hgetmatch2_pathForm hfilters hform,
    VideoRequest.get_videoid2_pathForm hwatch (by decide) (by decide), VideoRequest.sameEntry_answer,
    VideoRequest.name_eq_iff]
  rintro (⟨-, hend⟩ | ⟨hformat, -⟩)
  · exact absurd hend (by decide)
  · exact hformat rfl

end Haarp
