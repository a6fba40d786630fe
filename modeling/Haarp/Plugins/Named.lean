import Haarp.Plugins.Youtube
import Haarp.Utils.Domain

/-!
# The plugins that take the last name

Most plugins have one function `get_filename`, which takes the last name of a path, and differ in the
requests that they serve and in the domain of the entry (`NamedPlugin`). `namedPlugins` is which of them
`Cache` loads for a domain. The plugin `grandchase.com.br` is not among them: its `hgetmatch2` has no
`return`.

* `named_returns_iff`: for which requests they return.
* `named_key_iff`: two requests share an entry exactly when their plugin and the last name are the
  same.
* `named_confined`: where the file of an entry lies, if the path has a name.
-/

namespace Haarp

open Base

/-- `url.find(needle) != string::npos` -/
def has (needle : String) (url : Str) : Bool := (find needle.toList url).isSome

/-- What the plugins differ in. -/
structure NamedPlugin where
  serves : Str → Bool
  domain : Str

/-- `get_filename`; the names of the path are put behind the parts between question marks. `none` when
`at` throws. -/
def lastNameOf (url : Str) : Option Str :=
  if (find ['?'] url).isSome then
    let resultado := stringexplode url ['?']
    if resultado.length < 2 then none
    else (resultado[resultado.length - 2]?).bind fun path =>
      (resultado ++ stringexplode path ['/']).getLast?
  else (stringexplode url ['/']).getLast?

/-- `hgetmatch2`; the members of `r` that it does not set are those of the argument. -/
def NamedPlugin.hgetmatch2 (p : NamedPlugin) (r : Resposta) (url : Str) : Option Resposta :=
  let r := { r with domain := [], file := [], range_min := 0, range_max := 0 }
  if p.serves url then
    (lastNameOf url).map fun file =>
      if file ≠ [] then { r with file, isMatch := true, domain := p.domain }
      else { r with file, isMatch := false }
  else some { r with isMatch := false }

/-! ## The plugins -/

def fiveMinCom : NamedPlugin where
  serves url := !has "time" url
  domain := "aol".toList

def amazonawsCom : NamedPlugin where
  serves url :=
    has ".amazonaws.com/" url && (has ".jpg" url || has ".png" url || has ".gif" url ||
      has ".swf" url || has ".mp3" url)
  domain := "GAMESF_amazonaws".toList

def appspotCom : NamedPlugin where
  serves url := has ".appspot.com" url
  domain := "GAMESF_appspot".toList

def avastCom : NamedPlugin where
  serves url :=
    has ".avast.com/" url && (has ".vpu" url || has ".smtap" url) && !has "servers.def.vpu" url
  domain := "avast".toList

def avgCom : NamedPlugin where
  serves url :=
    (has "avg.com/" url || has "grisoft.com/" url || has "grisoft.cz/" url) && (has ".exe" url ||
      has ".bin" url)
  domain := "avg".toList

def bomusicaBiz : NamedPlugin where
  serves url := has "bomusica.biz" url
  domain := "bomusica.biz".toList

def bomusicaInfo : NamedPlugin where
  serves url := has "bomusica.info" url
  domain := "bomusica.info".toList

def bomusicasCom : NamedPlugin where
  serves url := has "bomusicas.com" url
  domain := "bomusicas.com".toList

def bullafinaBiz : NamedPlugin where
  serves url := has "bullafina.biz" url
  domain := "bullafina.biz".toList

def bullafinaMe : NamedPlugin where
  serves url := has "bullafina.me" url
  domain := "bullafina.me".toList

def cloudfrontNet : NamedPlugin where
  serves url :=
    has ".cloudfront.net" url && has ".jpg" url || has ".png" url || has ".swf" url ||
      has ".mp3" url
  domain := "GAMESF_cloudfront".toList

def coquiNet : NamedPlugin where
  serves url := has ".coqui.net/" url && has ".mp3" url
  domain := "coqui".toList

def cutmuNet : NamedPlugin where
  serves url := has "cutmu.net" url
  domain := "cutmu.biz".toList

def disneylatinoCom : NamedPlugin where
  serves url := has ".disneylatino.com" url && has ".jpg" url || has ".swf" url || has ".gif" url
  domain := "DISNEY".toList

def domusicaMe : NamedPlugin where
  serves url := has "domusica.me" url
  domain := "domusica.me".toList

def domusicasCom : NamedPlugin where
  serves url := has "domusicas.com" url
  domain := "domusica.com".toList

def dungeonbustersCom : NamedPlugin where
  serves url :=
    has ".dungeonbusters.com/" url && has ".jpg" url || has ".png" url || has ".swf" url ||
      has ".mp3" url
  domain := "GAMESF_dungeonbusters".toList

def etrustdownloadsCaCom : NamedPlugin where
  serves url := has ".pkg" url || has ".exe" url || has ".zip" url || has ".tar" url
  domain := "etrust".toList

def frivCom : NamedPlugin where
  serves _ := true
  domain := "FrivIntro".toList

def geewaNet : NamedPlugin where
  serves url := has ".geewa.net" url
  domain := "GAMESF_geewa".toList

def globoCom : NamedPlugin where
  serves url := !has "&start=" url && !has "?start=" url
  domain := "globo".toList

def goobeoCom : NamedPlugin where
  serves url := has "goobeo.com" url
  domain := "goobeo.com".toList

def gooveoBiz : NamedPlugin where
  serves url := has "gooveo.biz" url
  domain := "gooveo.biz".toList

def gooveoInfo : NamedPlugin where
  serves url := has "gooveo.info" url
  domain := "gooveo.info".toList

def gooveoMe : NamedPlugin where
  serves url := has "gooveo.me" url
  domain := "gooveo.me".toList

def hulkshareCom : NamedPlugin where
  serves url := has ".hulkshare.com/" url && has ".mp3" url
  domain := "hulkshare".toList

def kasperskyCom : NamedPlugin where
  serves url :=
    has ".bz2" url || has "/diffs/" url || has ".avc" url || has ".kdc" url || has ".klz" url ||
      has ".dif" url || has ".dat" url || has ".exe" url || has ".kdz" url || has ".kdl" url ||
      has ".kfb" url
  domain := "kaspersky".toList

def kixeyeCom : NamedPlugin where
  serves url :=
    has ".kixeye.com" url && has ".jpg" url || has ".png" url || has ".swf" url || has ".mp3" url
  domain := "GAMESF_kixeye".toList

def llnwdNet : NamedPlugin where
  serves url := has ".llnwd.net" url
  domain := "GAMESF_llnwd".toList

def maguinamotorsCom : NamedPlugin where
  serves url := has ".maguinamotors.com/" url && has ".mp3" url
  domain := "maguinamotors".toList

def manabarCa : NamedPlugin where
  serves url := has "manabar.ca/" url && has ".mp3" url
  domain := "manabar".toList

def metacafeCom : NamedPlugin where
  serves url := (has "akvideos.metacafe.com/" url || has "v.mccont.com/" url) && has "ItemFiles" url
  domain := "metacafe".toList

def miniclipCom : NamedPlugin where
  serves url :=
    has ".miniclip.com" url && has ".jpg" url || has ".png" url || has ".swf" url ||
      has ".mp3" url
  domain := "GAMESF_miniclip".toList

def modovideoCom : NamedPlugin where
  serves url := has "modovideo.com/" url && (has ".flv" url || !has ".mp4" url)
  domain := "modovideo".toList

def molenilloCom : NamedPlugin where
  serves url := has "molenillo.com/" url && has ".mp3" url
  domain := "molenillo".toList

def mp3BuscadorCom : NamedPlugin where
  serves url := has ".mp3-buscador.com/" url && has ".mp3" url
  domain := "mp3-buscador".toList

def musicaveoBiz : NamedPlugin where
  serves url := has "musicaveo.biz" url
  domain := "musicaveo.biz".toList

def musicaveoInfo : NamedPlugin where
  serves url := has "musicaveo.info" url
  domain := "musicaveo.info".toList

def netpocketOrg : NamedPlugin where
  serves url := has ".netpocket.org" url
  domain := "GF_netpocket".toList

def ningCom : NamedPlugin where
  serves url := has ".ning.com/" url && has ".mp3" url
  domain := "ning".toList

def nofeehostCom : NamedPlugin where
  serves url := has ".nofeehost.com/" url && has ".mp3" url
  domain := "nofeehost".toList

def nordeusCom : NamedPlugin where
  serves url :=
    has ".nordeus.com" url && has ".jpg" url || has ".png" url || has ".swf" url || has ".mp3" url
  domain := "GAMESF_nordeus".toList

def pop6Com : NamedPlugin where
  serves url := has ".pop6.com/" url && has ".flv" url
  domain := "pop6".toList

def popcapCom : NamedPlugin where
  serves url :=
    has ".popcap.com/" url && (has ".jpg" url || has ".png" url || has ".gif" url ||
      has ".swf" url || has ".mp3" url)
  domain := "GAMESF_popcap".toList

def servipornoCom : NamedPlugin where
  serves url := has ".serviporno.com/" url
  domain := "serviporno".toList

def sonicomusicaCom : NamedPlugin where
  serves url := has ".sonicomusica.com/" url && (has ".sm3" url || !has ".jpg" url)
  domain := "sonicomusica".toList

def symantecliveupdateCom : NamedPlugin where
  serves url := has ".symantecliveupdate.com/" url && (has ".zip" url || has ".exe" url)
  domain := "symantecliveupdate".toList

def telaxoCom : NamedPlugin where
  serves url :=
    has ".telaxo.com/" url && has ".jpg" url || has ".png" url || has ".swf" url || has ".mp3" url
  domain := "GAMESF_telaxo".toList

def terraCom : NamedPlugin where
  serves url := has ".terra.com" url && has ".flv" url
  domain := "terra".toList

def tetrisfbCom : NamedPlugin where
  serves url := has ".tetrisfb.com" url
  domain := "GAMESF_tetrisfb".toList

def turnerCom : NamedPlugin where
  serves url := has ".turner.com/" url && has ".mp3" url
  domain := "turner".toList

def uolComBr : NamedPlugin where
  serves url := has ".flv" url
  domain := "uol".toList

def vevosBiz : NamedPlugin where
  serves url := has "vevos.biz" url
  domain := "vevos.biz".toList

def viddlerCom : NamedPlugin where
  serves url := has "viddler.com/" url && has ".flv" url
  domain := "viddler".toList

def videoMsnCom : NamedPlugin where
  serves url := has ".catalog.video.msn.com/" url && has "share" url
  domain := "msn_video".toList

def vostucdnCom : NamedPlugin where
  serves url :=
    has ".vostucdn.com/" url && has ".jpg" url || has ".png" url || has ".gif" url ||
      has ".swf" url || has ".mp3" url
  domain := "GAMESF_vostucdn".toList

def woogaCom : NamedPlugin where
  serves url :=
    has ".wooga.com/" url && has ".jpg" url || has ".png" url || has ".swf" url || has ".mp3" url
  domain := "GAMESF_wooga".toList

def zidduCom : NamedPlugin where
  serves url := has "downloads.ziddu.com/downloadfiles" url
  domain := "ziddu".toList

/-- The plugins by the domains for which `Cache` loads them. -/
def namedPlugins : List (Str × NamedPlugin) :=
  [("5min.com".toList, fiveMinCom), ("amazonaws.com".toList, amazonawsCom),
    ("appspot.com".toList, appspotCom), ("avast.com".toList, avastCom), ("avg.com".toList, avgCom),
    ("bomusica.biz".toList, bomusicaBiz), ("bomusica.info".toList, bomusicaInfo),
    ("bomusicas.com".toList, bomusicasCom), ("bullafina.biz".toList, bullafinaBiz),
    ("bullafina.me".toList, bullafinaMe), ("cloudfront.net".toList, cloudfrontNet),
    ("coqui.net".toList, coquiNet), ("cutmu.net".toList, cutmuNet),
    ("disneylatino.com".toList, disneylatinoCom), ("domusica.me".toList, domusicaMe),
    ("domusicas.com".toList, domusicasCom), ("dungeonbusters.com".toList, dungeonbustersCom),
    ("etrustdownloads.ca.com".toList, etrustdownloadsCaCom), ("friv.com".toList, frivCom),
    ("geewa.net".toList, geewaNet), ("globo.com".toList, globoCom),
    ("goobeo.com".toList, goobeoCom), ("gooveo.biz".toList, gooveoBiz),
    ("gooveo.info".toList, gooveoInfo), ("gooveo.me".toList, gooveoMe),
    ("hulkshare.com".toList, hulkshareCom), ("kaspersky.com".toList, kasperskyCom),
    ("kixeye.com".toList, kixeyeCom), ("llnwd.net".toList, llnwdNet),
    ("maguinamotors.com".toList, maguinamotorsCom), ("manabar.ca".toList, manabarCa),
    ("metacafe.com".toList, metacafeCom), ("miniclip.com".toList, miniclipCom),
    ("modovideo.com".toList, modovideoCom), ("molenillo.com".toList, molenilloCom),
    ("mp3-buscador.com".toList, mp3BuscadorCom), ("musicaveo.biz".toList, musicaveoBiz),
    ("musicaveo.info".toList, musicaveoInfo), ("netpocket.org".toList, netpocketOrg),
    ("ning.com".toList, ningCom), ("nofeehost.com".toList, nofeehostCom),
    ("nordeus.com".toList, nordeusCom), ("pop6.com".toList, pop6Com),
    ("popcap.com".toList, popcapCom), ("serviporno.com".toList, servipornoCom),
    ("sonicomusica.com".toList, sonicomusicaCom),
    ("symantecliveupdate.com".toList, symantecliveupdateCom), ("telaxo.com".toList, telaxoCom),
    ("terra.com".toList, terraCom), ("tetrisfb.com".toList, tetrisfbCom),
    ("turner.com".toList, turnerCom), ("uol.com.br".toList, uolComBr),
    ("vevos.biz".toList, vevosBiz), ("viddler.com".toList, viddlerCom),
    ("video.msn.com".toList, videoMsnCom), ("vostucdn.com".toList, vostucdnCom),
    ("wooga.com".toList, woogaCom), ("ziddu.com".toList, zidduCom)]

/-- What `Cache` is told for a request of a domain, if one of these plugins is loaded. -/
def namedAnswer (r : Resposta) (url : Str) : Option (Option Resposta) :=
  (getdomain url).bind fun domaintmp =>
    (namedPlugins.lookup domaintmp).map fun p => p.hgetmatch2 r url

/-! ## The name -/

/-- The request asks for a name: it has no other question mark than the one of its query. -/
inductive AsksFor (name : Str) : Str → Prop
  | path {front : Str} (hfront : '?' ∉ front) : AsksFor name (front ++ '/' :: name)
  | query {front query : Str} (hfront : '?' ∉ front) (hquery : '?' ∉ query) (hne : query ≠ []) :
    AsksFor name (front ++ '/' :: name ++ '?' :: query)

/-- A name of a path. -/
structure IsName (name : Str) : Prop where
  ne_nil : name ≠ []
  slash : '/' ∉ name
  mark : '?' ∉ name

theorem find_mark {url : Str} : (find ['?'] url).isSome = true ↔ '?' ∈ url := by
  rw [find_isSome_iff, List.singleton_infix_iff]

/-- The last name of a path. -/
theorem getLast?_stringexplode_slash {name : Str} (hname : IsName name) (front : Str) :
    (stringexplode (front ++ '/' :: name) ['/']).getLast? = some name := by
  have hparts : ∀ c ∈ name, decide (c ∈ ['/']) = false := by
    intro c hc
    simpa using fun heq : c = '/' => hname.slash (heq ▸ hc)
  rw [stringexplode_eq_parts, parts_append (by decide), parts_of_not_sep hname.ne_nil hparts,
    List.getLast?_concat]

theorem lastNameOf_of_asksFor {name url : Str} (hname : IsName name) (h : AsksFor name url) :
    lastNameOf url = some name := by
  unfold lastNameOf
  cases h with
  | path hfront =>
    have hmark : ¬ (find ['?'] (_ ++ '/' :: name)).isSome = true := fun hin => by
      rcases List.mem_append.mp (find_mark.mp hin) with hin | hin
      · exact hfront hin
      · rcases List.mem_cons.mp hin with heq | hin
        · exact absurd heq (by decide)
        · exact hname.mark hin
    rw [if_neg hmark, getLast?_stringexplode_slash hname]
  | @query front query hfront hquery hne =>
    have hmark : (find ['?'] (front ++ '/' :: name ++ '?' :: query)).isSome = true :=
      find_mark.mpr (List.mem_append_right _ List.mem_cons_self)
    have hpath : ∀ c ∈ front ++ '/' :: name, c ∉ ['?'] := by
      intro c hc hmem
      rw [List.mem_singleton.mp hmem] at hc
      rcases List.mem_append.mp hc with hc | hc
      · exact hfront hc
      · rcases List.mem_cons.mp hc with heq | hc
        · exact absurd heq (by decide)
        · exact hname.mark hc
    have hpieces : stringexplode (front ++ '/' :: name ++ '?' :: query) ['?'] =
        [front ++ '/' :: name, query] := by
      have hlast : ∀ c ∈ query, c ∉ ['?'] := fun c hc hmem =>
        hquery (List.mem_singleton.mp hmem ▸ hc)
      rw [stringexplode_append hpath (by simp) List.mem_cons_self, stringexplode_of_not_mem hlast hne]
    rw [if_pos hmark, hpieces]
    have hnames := getLast?_stringexplode_slash hname front
    dsimp only
    rw [if_neg (by simp), List.length_cons, List.length_cons, List.length_nil, List.getElem?_cons_zero,
      Option.bind_some, List.getLast?_append, hnames]
    rfl

/-! ## Which requests a plugin returns for -/

/-- There is a name for the entry: with a question mark there are two parts, else there is a name. -/
def NamesEntry (url : Str) : Prop :=
  if '?' ∈ url then 2 ≤ (parts (fun c => c ∈ ['?']) url).length
  else ∃ c ∈ url, c ≠ '/'

theorem lastNameOf_isSome_iff (url : Str) : (lastNameOf url).isSome = true ↔ NamesEntry url := by
  unfold lastNameOf NamesEntry
  by_cases hmark : '?' ∈ url
  · rw [if_pos (find_mark.mpr hmark), if_pos hmark]
    dsimp only
    rw [stringexplode_eq_parts]
    generalize parts (fun c => decide (c ∈ ['?'])) url = resultado
    by_cases htwo : resultado.length < 2
    · rw [if_pos htwo]
      exact iff_of_false Bool.false_ne_true (Nat.not_le_of_lt htwo)
    · have hne : resultado ≠ [] := by
        rintro rfl
        exact htwo (by decide)
      rw [if_neg htwo, List.getElem?_eq_getElem (by omega), Option.bind_some]
      refine iff_of_true ?_ (Nat.le_of_not_lt htwo)
      rw [List.getLast?_isSome]
      exact List.append_ne_nil_of_left_ne_nil hne _
  · rw [if_neg fun hin => hmark (find_mark.mp hin), if_neg hmark, List.getLast?_isSome,
      stringexplode_eq_parts, ne_eq, parts_eq_nil_iff]
    simp

/-- **Which requests a plugin returns for**: for all others `at` throws, and nothing catches that. -/
theorem named_returns_iff (p : NamedPlugin) (r : Resposta) (url : Str) :
    (p.hgetmatch2 r url).isSome = true ↔ (p.serves url = true → NamesEntry url) := by
  unfold NamedPlugin.hgetmatch2
  dsimp only
  split
  · next hserves =>
    rw [Option.isSome_map, lastNameOf_isSome_iff]
    exact ⟨fun h _ => h, fun h => h hserves⟩
  · next hserves => exact iff_of_true rfl fun h => absurd h hserves

/-! ## The entry -/

/-- What is known of an answer with an entry. -/
theorem NamedPlugin.hgetmatch2_match {p : NamedPlugin} {r s : Resposta} {url : Str}
    (h : p.hgetmatch2 r url = some s) (hmatch : s.isMatch = true) :
    s.domain = p.domain ∧ lastNameOf url = some s.file ∧ s.file ≠ [] := by
  unfold NamedPlugin.hgetmatch2 at h
  dsimp only at h
  split at h
  · obtain ⟨file, hfile, hs⟩ := Option.map_eq_some_iff.mp h
    split at hs
    · next hne =>
      subst hs
      exact ⟨rfl, hfile, hne⟩
    · subst hs
      cases hmatch
  · cases h
    cases hmatch

/-- The plugin that answers. -/
theorem mem_of_namedAnswer {r : Resposta} {url : Str} {answer : Option Resposta}
    (h : namedAnswer r url = some answer) :
    ∃ domaintmp p, getdomain url = some domaintmp ∧ (domaintmp, p) ∈ namedPlugins ∧
      p.hgetmatch2 r url = answer := by
  obtain ⟨domaintmp, hdomain, hanswer⟩ := Option.bind_eq_some_iff.mp h
  obtain ⟨p, hp, heq⟩ := Option.map_eq_some_iff.mp hanswer
  obtain ⟨before, after, hplugins, -⟩ := List.lookup_eq_some_iff.mp hp
  refine ⟨domaintmp, p, hdomain, ?_, heq⟩
  rw [hplugins]
  exact List.mem_append_right _ List.mem_cons_self

/-- No two plugins have one domain. -/
theorem namedPlugins_nodup :
    (namedPlugins.map Prod.fst).Nodup ∧ (namedPlugins.map fun p => p.2.domain).Nodup := by
  constructor <;> decide +kernel

/-- **Two requests share an entry** exactly when they have the plugin and the last name in common: the
rest of the host, the other names of the path and the query do not count. -/
theorem named_key_iff {name name' url url' : Str} (hname : IsName name) (hname' : IsName name')
    (hurl : AsksFor name url) (hurl' : AsksFor name' url') {r r' s s' : Resposta}
    (h : namedAnswer r url = some (some s)) (h' : namedAnswer r' url' = some (some s'))
    (hmatch : s.isMatch = true) (hmatch' : s'.isMatch = true) :
    s.key = s'.key ↔ getdomain url = getdomain url' ∧ name = name' := by
  obtain ⟨domaintmp, p, hdomaintmp, hp, hanswer⟩ := mem_of_namedAnswer h
  obtain ⟨domaintmp', p', hdomaintmp', hp', hanswer'⟩ := mem_of_namedAnswer h'
  obtain ⟨hdomain, hfile, -⟩ := NamedPlugin.hgetmatch2_match hanswer hmatch
  obtain ⟨hdomain', hfile', -⟩ := NamedPlugin.hgetmatch2_match hanswer' hmatch'
  rw [lastNameOf_of_asksFor hname hurl, Option.some.injEq] at hfile
  rw [lastNameOf_of_asksFor hname' hurl', Option.some.injEq] at hfile'
  have hsame : p.domain = p'.domain ↔ domaintmp = domaintmp' := by
    obtain ⟨hkeys, hdomains⟩ := namedPlugins_nodup
    constructor
    · intro heq
      have hpair := List.inj_on_of_nodup_map hdomains hp hp' heq
      exact congrArg Prod.fst hpair
    · intro heq
      have hpair := List.inj_on_of_nodup_map hkeys hp hp' heq
      exact congrArg (fun q => q.2.domain) hpair
  rw [Resposta.key, Resposta.key, Key.mk.injEq, hdomain, hdomain', ← hfile, ← hfile', hsame, hdomaintmp,
    hdomaintmp', Option.some.injEq]

theorem named_key_iff_song :
    ∃ s s', namedAnswer Connection.new.r "a.bomusica.biz/x/y.mp3?t=1".toList = some (some s) ∧
      namedAnswer Connection.new.r "b.bomusica.biz/y.mp3".toList = some (some s') ∧
      s.key = s'.key := by
  have hname : IsName "y.mp3".toList := ⟨by decide, by decide, by decide⟩
  have hurl : AsksFor "y.mp3".toList "a.bomusica.biz/x/y.mp3?t=1".toList :=
    @AsksFor.query _ "a.bomusica.biz/x".toList "t=1".toList (by decide) (by decide) (by decide)
  have hurl' : AsksFor "y.mp3".toList "b.bomusica.biz/y.mp3".toList :=
    @AsksFor.path _ "b.bomusica.biz".toList (by decide)
  have hanswer : namedAnswer Connection.new.r "a.bomusica.biz/x/y.mp3?t=1".toList =
      some (some ⟨true, "bomusica.biz".toList, "y.mp3".toList, 0, 0, 0, false⟩) := by decide +kernel
  have hanswer' : namedAnswer Connection.new.r "b.bomusica.biz/y.mp3".toList =
      some (some ⟨true, "bomusica.biz".toList, "y.mp3".toList, 0, 0, 0, false⟩) := by decide +kernel
  exact ⟨_, _, hanswer, hanswer', (named_key_iff hname hname hurl hurl' hanswer hanswer' rfl rfl).mpr
    ⟨by decide +kernel, rfl⟩⟩

/-! ## Where the file lies -/

/-- A name behind two directories does not climb out of the place above them, not even as `..`. -/
theorem below_of_name {base tail d e c : Str} (hbase : base ≠ []) (hd : Proper d) (he : Proper e)
    (htail : components tail = [d, e, c]) : Below (base ++ '/' :: tail) base := by
  have hwalk : resolve (base ++ '/' :: tail) =
      walk (isAbsolute base) (e :: d :: resolve base) c := by
    rw [resolve_append hbase, htail, List.foldl_cons, List.foldl_cons, List.foldl_cons,
      walk_proper hd, walk_proper he]
    rfl
  have hparent : ∀ names : List Str, (∀ n ∈ names, Proper n) → parent ∉ names := fun names h hin =>
    (h parent hin).2.2 rfl
  refine ⟨isAbsolute_append hbase _, ?_⟩
  rw [hwalk]
  rcases component_cases c with hskip | rfl | hproper
  · exact ⟨[e, d], by simp, hparent _ (by simp [hd, he]), walk_skip hskip⟩
  · exact ⟨[d], by simp, hparent _ (by simp [hd]), walk_parent he.2.2⟩
  · exact ⟨[c, e, d], by simp, hparent _ (by simp [hd, he, hproper]), walk_proper hproper⟩

theorem slash_not_mem_webmName {file : Str} (h : '/' ∉ file) : '/' ∉ webmName file := by
  unfold webmName
  split
  · intro hin
    rcases List.mem_append.mp hin with hin | hin
    · rcases List.mem_append.mp hin with hin | hin
      · exact h (List.mem_of_mem_take hin)
      · exact absurd hin (by decide)
    · exact h (List.mem_of_mem_drop hin)
  · exact h

theorem slash_not_mem_partialName {file : Str} (h : '/' ∉ file) : '/' ∉ partialName file := by
  unfold partialName
  split
  · exact h
  · intro hin
    rcases List.mem_append.mp hin with hin | hin
    · exact absurd hin (by decide)
    · exact h hin

theorem splitAtFirst_subset {separator str l r : Str} (h : splitAtFirst separator str = some (l, r)) :
    l ⊆ str ∧ r ⊆ str := by
  induction str generalizing l r with
  | nil => cases h
  | cons c str ih =>
    rw [splitAtFirst] at h
    split at h
    · cases h
      exact ⟨List.nil_subset _, List.drop_subset _ _⟩
    · obtain ⟨⟨l', r'⟩, hrest, heq⟩ := Option.map_eq_some_iff.mp h
      cases heq
      obtain ⟨hl, hr⟩ := ih hrest
      exact ⟨List.cons_subset_cons c hl, List.subset_cons_of_subset c hr⟩

/-- The parts of a name have no other characters than the name. -/
theorem subset_of_mem_splitstring {separator str w : Str} (h : w ∈ splitstring str separator) :
    w ⊆ str := by
  unfold splitstring at h
  generalize str.length + 1 = fuel at h
  induction fuel generalizing str with
  | zero => cases h
  | succ fuel ih =>
    rw [splitstringLoop] at h
    split at h
    · next l r hsplit =>
      obtain ⟨hl, hr⟩ := splitAtFirst_subset hsplit
      split at h
      · exact List.Subset.trans (ih h) hr
      · rcases List.mem_cons.mp h with rfl | h
        · exact hl
        · exact List.Subset.trans (ih h) hr
    · split at h
      · cases h
      · rw [List.mem_singleton.mp h]
        exact List.Subset.refl str

/-- The file on disk has no `/` in its name, if that of the row has none. -/
theorem cachePath_slash {domain file directory path : Str}
    (h : cachePath domain file directory = some path) (hfile : '/' ∉ file) :
    ∃ name subdir, '/' ∉ name ∧ ConvertChar name = some subdir ∧
      path = rowPath directory domain subdir name := by
  unfold cachePath at h
  split at h
  · split at h
    · next a b c parts hparts =>
      obtain ⟨subdir, hsubdir, rfl⟩ := Option.map_eq_some_iff.mp h
      refine ⟨a ++ DELIM ++ b, subdir, fun hin => ?_, hsubdir, rfl⟩
      have hinside : ∀ w ∈ splitstring file DELIM, '/' ∉ w := fun w hw hmem =>
        hfile (subset_of_mem_splitstring hw hmem)
      rw [hparts] at hinside
      rcases List.mem_append.mp hin with hin | hin
      · rcases List.mem_append.mp hin with hin | hin
        · exact hinside a (by simp) hin
        · exact absurd hin (by decide)
      · exact hinside b (by simp) hin
    · cases h
  · obtain ⟨subdir, hsubdir, rfl⟩ := Option.map_eq_some_iff.mp h
    exact ⟨file, subdir, hfile, hsubdir, rfl⟩

/-- The file of an entry whose name has no `/`. -/
theorem confined_of_slash {r : Resposta} (hdomain : r.domain ≠ []) (hfile : '/' ∉ r.file) :
    Confined r := by
  intro name hname directory path hpath
  have hslash : '/' ∉ name := by
    simp only [List.mem_cons, List.not_mem_nil, or_false] at hname
    rcases hname with rfl | rfl | rfl
    · exact hfile
    · exact slash_not_mem_partialName hfile
    · exact slash_not_mem_webmName (slash_not_mem_partialName hfile)
  obtain ⟨name, subdir, hname, hsubdir, rfl⟩ := cachePath_slash hpath hslash
  obtain ⟨d, e, hcomponents, hd, he⟩ := components_subdir hsubdir name
  rw [components_of_not_mem hname] at hcomponents
  have hrow : rowPath directory r.domain subdir name =
      directory ++ r.domain ++ '/' :: (subdir ++ '/' :: name) := by
    simp [rowPath]
  rw [hrow]
  exact below_of_name (List.append_ne_nil_of_right_ne_nil _ hdomain) hd he hcomponents

/-- In front of a query is a path that has a name. -/
def PathHasName (url : Str) : Prop :=
  ∀ init path last, parts (fun c => c ∈ ['?']) url = init ++ [path, last] → ∃ c ∈ path, c ≠ '/'

theorem slash_not_mem_lastNameOf {url file : Str} (hurl : PathHasName url)
    (h : lastNameOf url = some file) : '/' ∉ file := by
  have hnames : ∀ path : Str, file ∈ stringexplode path ['/'] → '/' ∉ file := fun path hfile hin =>
    not_mem_of_mem_stringexplode hfile '/' hin List.mem_cons_self
  unfold lastNameOf at h
  split at h
  · dsimp only at h
    split at h
    · cases h
    · next htwo =>
      obtain ⟨path, hpath, h⟩ := Option.bind_eq_some_iff.mp h
      obtain ⟨hlt, hpath⟩ := List.getElem?_eq_some_iff.mp hpath
      have hname : stringexplode path ['/'] ≠ [] := by
        obtain ⟨path', last, hend⟩ := List.length_eq_two.mp
          (show ((stringexplode url ['?']).drop ((stringexplode url ['?']).length - 2)).length = 2 by
            rw [List.length_drop]
            omega)
        have hpath' : path' = path := by
          rw [List.drop_eq_getElem_cons hlt, hpath] at hend
          exact (List.cons.inj hend).1.symm
        have hparts := List.take_append_drop ((stringexplode url ['?']).length - 2)
          (stringexplode url ['?'])
        rw [hend, hpath'] at hparts
        obtain ⟨c, hc, hne⟩ := hurl _ path last (stringexplode_eq_parts url ['?'] ▸ hparts.symm)
        rw [stringexplode_eq_parts, ne_eq, parts_eq_nil_iff]
        intro hall
        exact hne (List.mem_singleton.mp (of_decide_eq_true (hall c hc)))
      rw [List.getLast?_append, List.getLast?_eq_some_getLast hname, Option.some_or] at h
      cases h
      exact hnames path (List.getLast_mem hname)
  · exact hnames url (List.mem_of_getLast? h)

/-- The domains of the plugins. -/
theorem namedPlugins_domain : ∀ p ∈ namedPlugins, p.2.domain ≠ [] := by decide +kernel

/-- **An entry stays in its directory**, if there is a name in front of the query. -/
theorem named_confined {url : Str} (hurl : PathHasName url) {r s : Resposta}
    (h : namedAnswer r url = some (some s)) (hmatch : s.isMatch = true) : Confined s := by
  obtain ⟨domaintmp, p, -, hp, hanswer⟩ := mem_of_namedAnswer h
  obtain ⟨hdomain, hfile, -⟩ := NamedPlugin.hgetmatch2_match hanswer hmatch
  exact confined_of_slash (hdomain ▸ namedPlugins_domain (domaintmp, p) hp)
    (slash_not_mem_lastNameOf hurl hfile)

theorem named_confined_song :
    ∃ s, namedAnswer Connection.new.r "a.bomusica.biz/x/..?t=/1".toList = some (some s) ∧
      Confined s := by
  have hurl : PathHasName "a.bomusica.biz/x/..?t=/1".toList := by
    intro init path last hparts
    have hpair : parts (fun c => decide (c ∈ ['?'])) "a.bomusica.biz/x/..?t=/1".toList =
        [] ++ ["a.bomusica.biz/x/..".toList, "t=/1".toList] := by decide +kernel
    obtain ⟨-, hend⟩ := List.append_inj' (hparts.symm.trans hpair) rfl
    rw [(List.cons.inj hend).1]
    exact ⟨'a', by decide, by decide⟩
  have hanswer : namedAnswer Connection.new.r "a.bomusica.biz/x/..?t=/1".toList =
      some (some ⟨true, "bomusica.biz".toList, "..".toList, 0, 0, 0, false⟩) := by decide +kernel
  exact ⟨_, hanswer, named_confined hurl hanswer rfl⟩

/-- Without a name in front of it, the query is the name, with its slashes. -/
theorem not_confined_query :
    namedAnswer Connection.new.r "bomusica.biz/?/?../../../../etc/x".toList =
        some (some ⟨true, "bomusica.biz".toList, "../../../../etc/x".toList, 0, 0, 0, false⟩) ∧
      ¬ Confined ⟨true, "bomusica.biz".toList, "../../../../etc/x".toList, 0, 0, 0, false⟩ := by
  refine ⟨by decide +kernel, fun hconfined => ?_⟩
  obtain ⟨-, names, hne, -, heq⟩ := hconfined _ List.mem_cons_self "/haarp/".toList
    "/haarp/bomusica.biz/7/8_43/../../../../etc/x".toList (by decide +kernel)
  have hpath : resolve "/haarp/bomusica.biz/7/8_43/../../../../etc/x".toList =
      ["x".toList, "etc".toList] := by decide +kernel
  have hbase : resolve ("/haarp/".toList ++ "bomusica.biz".toList) =
      ["bomusica.biz".toList, "haarp".toList] := by decide +kernel
  rw [hpath, hbase] at heq
  have hlength : 2 = names.length + 2 := (congrArg List.length heq).trans List.length_append
  exact hne (List.length_eq_zero_iff.mp (by omega))

end Haarp
