import Haarp.Plugins.Named
import Haarp.Utils.Md5
import Haarp.Utils.Replace

/-!
# The plugin for all other domains

`generalplugin.so`, which `Cache` loads when there is no plugin of the domain. The name of an entry is
the digest of the domain and the path, with the last name of the path behind it.

* `general_key_iff`: two requests share an entry exactly when their domain and their path are the same,
  if the digest tells them apart.
* `general_confined`: the directory of an entry is one name, and its file stays there.
-/

namespace Haarp

open Base

/-! ## The source -/

/-- `\.\w{2,4}$` -/
def extension : Regex Char := inTurn [dot, wordChar, wordChar, .opt wordChar, .opt wordChar]

/-- The domain of the entry: of two labels the first one. -/
def entryDomain (domain_ : Str) : Str :=
  let split := stringexplode domain_ ['.']
  if split.length = 2 then split.head?.getD [] else domain_

/-- `SearchReplaceAny(url, search, "")` -/
def without (url search : Str) : Option Str :=
  (SearchReplaceAny (url.length + 1) url search []).map (·.2)

namespace General

/-- `get_filename` with its second argument; `none` when `at` throws. The members of `MD5` that are
not set are `buffer` and `digest`. -/
def get_filename (buffer digest : List UInt8) (url : Str) : Option (Str × Str) :=
  (without url "http://".toList).bind fun url =>
  (without url "https://".toList).bind fun url =>
  (getdomain url).bind fun domain_ =>
    match find ['/'] url with
    | some position => (stringexplode url ['/']).getLast?.map fun name =>
      (md5 buffer digest (domain_ ++ url.drop position) ++ DELIM ++ name, entryDomain domain_)
    | none => some ([], entryDomain domain_)

/-- `hgetmatch2` -/
def hgetmatch2 (buffer digest : List UInt8) (r : Resposta) (url : Str) : Option Resposta :=
  let r := { r with domain := [], file := [], range_min := 0, range_max := 0 }
  if find ['?'] url = none ∧ regexMatch extension true url ≠ [] then
    (get_filename buffer digest url).map fun (file, domain) =>
      if file ≠ [] then { r with file, domain, isMatch := true } else { r with file, isMatch := false }
  else some { r with isMatch := false }

end General

/-! ## The request -/

/-- The text that `get_filename` goes on with. -/
def schemeless (url : Str) : Str :=
  (replaceAll "https://".toList [] (replaceAll "http://".toList [] url).2).2

theorem without_eq {search : Str} (hsearch : search ≠ []) (url : Str) :
    without url search = some (replaceAll search [] url).2 := by
  rw [without, SearchReplaceAny, replaceLoop_replaceAll hsearch (Nat.lt_succ_self _)]
  rfl

/-- A request for a name on a host. -/
structure NameOn (labels : List Str) (request url : Str) : Prop where
  host : IsHost labels
  url_eq : schemeless url = hostOf labels ++ request
  slash : request.head? = some '/'
  name : ∃ c ∈ request, c ≠ '/'

/-! ## The domain -/

section Domain

variable {labels : List Str} {request url d : Str}

/-- A domain by an expression has two labels. -/
theorem specialDomain_labels (h : specialDomain url = some d) : ∃ ls, IsHost ls ∧ d = hostOf ls := by
  unfold specialDomain at h
  split at h
  · cases h
    exact ⟨["youtube".toList, "com".toList], ⟨by decide, by decide⟩, by decide⟩
  split at h
  · cases h
    exact ⟨["mediafire".toList, "com".toList], ⟨by decide, by decide⟩, by decide⟩
  split at h
  · cases h
    exact ⟨["speedtest".toList, "net".toList], ⟨by decide, by decide⟩, by decide⟩
  split at h
  · cases h
    exact ⟨["youku".toList, "com".toList], ⟨by decide, by decide⟩, by decide⟩
  have hnetflix : ∃ ls, IsHost ls ∧ "netflix.com".toList = hostOf ls :=
    ⟨["netflix".toList, "com".toList], ⟨by decide, by decide⟩, by decide⟩
  split at h
  · cases h
    exact hnetflix
  split at h
  · cases h
    exact hnetflix
  · cases h

/-- The domain consists of labels of the host. -/
theorem lastLabels_labels (hhost : IsHost labels) (h : lastLabels (hostOf labels) labels = some d) :
    ∃ ls, IsHost ls ∧ d = hostOf ls := by
  rcases List.eq_nil_or_concat' labels with rfl | ⟨init, last, rfl⟩
  · exact absurd rfl hhost.ne_nil
  rcases List.eq_nil_or_concat' init with rfl | ⟨init, second, rfl⟩
  · cases h
    exact ⟨_, hhost, rfl⟩
  · rw [List.append_assoc, List.singleton_append] at h hhost
    rw [lastLabels_two] at h
    split at h
    · obtain ⟨third, hthird, rfl⟩ := Option.map_eq_some_iff.mp h
      obtain ⟨init, rfl⟩ := List.getLast?_eq_some_iff.mp hthird
      rw [List.append_assoc] at hhost
      have hthree : IsHost [third, second, last] :=
        ⟨List.cons_ne_nil _ _, fun l hl => hhost.label l (List.mem_append_right _ hl)⟩
      exact ⟨_, hthree, by simp [hostOf]⟩
    · cases h
      have htwo : IsHost [second, last] :=
        ⟨List.cons_ne_nil _ _, fun l hl => hhost.label l (List.mem_append_right _ hl)⟩
      exact ⟨_, htwo, by simp [hostOf]⟩

/-- The domain of a request for a name has labels. -/
theorem getdomain_labels (hhost : IsHost labels) (hslash : request.head? = some '/')
    (hname : ∃ c ∈ request, c ≠ '/') (h : getdomain (hostOf labels ++ request) = some d) :
    ∃ ls, IsHost ls ∧ d = hostOf ls := by
  cases hspecial : specialDomain (hostOf labels ++ request) with
  | some domain =>
    rw [getdomain, hspecial] at h
    cases h
    exact specialDomain_labels hspecial
  | none =>
    rw [getdomain_name hhost hspecial hslash hname] at h
    split at h
    · cases h
      exact ⟨labels, hhost, rfl⟩
    · exact lastLabels_labels hhost h

/-- A host is one name. -/
theorem IsHost.proper (h : IsHost labels) : Proper (hostOf labels) := by
  have hsplit := stringexplode_hostOf h.ne_nil fun l hl => ⟨(h.label l hl).1, (h.label l hl).2.1⟩
  refine ⟨h.hostOf_ne_nil, fun heq => h.ne_nil ?_, fun heq => h.ne_nil ?_⟩
  · rw [← hsplit, heq]
    rfl
  · rw [← hsplit, heq]
    rfl

theorem entryDomain_eq (h : IsHost labels) :
    ∃ ls, IsHost ls ∧ entryDomain (hostOf labels) = hostOf ls := by
  have hsplit := stringexplode_hostOf h.ne_nil fun l hl => ⟨(h.label l hl).1, (h.label l hl).2.1⟩
  unfold entryDomain
  dsimp only
  rw [hsplit]
  split
  · obtain ⟨first, rest, rfl⟩ := List.exists_cons_of_ne_nil h.ne_nil
    refine ⟨[first], ⟨List.cons_ne_nil _ _, fun l hl => h.label l ?_⟩, by simp [hostOf]⟩
    rw [List.mem_singleton.mp hl]
    exact List.mem_cons_self
  · exact ⟨labels, h, rfl⟩

end Domain

/-! ## The entry -/

section Entry

variable {labels labels' : List Str} {request request' url url' d d' : Str}
  {buffer digest buffer' digest' : List UInt8} {r r' s s' : Resposta}

/-- What is known of an answer with an entry. -/
theorem general_match (hasked : NameOn labels request url)
    (h : General.hgetmatch2 buffer digest r url = some s) (hmatch : s.isMatch = true) :
    ∃ d name, getdomain (hostOf labels ++ request) = some d ∧ s.domain = entryDomain d ∧
      (stringexplode request ['/']).getLast? = some name ∧
      s.file = md5 buffer digest (d ++ request) ++ DELIM ++ name := by
  unfold General.hgetmatch2 at h
  dsimp only at h
  split at h
  swap
  · cases h
    cases hmatch
  obtain ⟨⟨file, domain⟩, hfile, hs⟩ := Option.map_eq_some_iff.mp h
  unfold General.get_filename at hfile
  have hhttp : "http://".toList ≠ [] := by decide
  have hhttps : "https://".toList ≠ [] := by decide
  rw [without_eq hhttp, Option.bind_some, without_eq hhttps, Option.bind_some, ← schemeless,
    hasked.url_eq] at hfile
  obtain ⟨d, hd, hfile⟩ := Option.bind_eq_some_iff.mp hfile
  obtain ⟨path, hpath⟩ := List.head?_eq_some_iff.mp hasked.slash
  have hslash : ∀ c ∈ hostOf labels, c ∉ ['/'] := fun c hc hmem =>
    hasked.host.slash (List.mem_singleton.mp hmem ▸ hc)
  have hposition : find ['/'] (hostOf labels ++ request) = some (hostOf labels).length := by
    have hnot : ¬ ['/'] <:+: hostOf labels := fun hin =>
      hasked.host.slash ((List.singleton_infix_iff _ _).mp hin)
    have hzero : find ['/'] ('/' :: path) = some 0 := find_eq_zero.mpr ⟨path, rfl⟩
    rw [find_append hnot fun c hc => hslash c (List.mem_of_getLast? hc), hpath, hzero, Option.map_some,
      Nat.zero_add]
  have hnames : (stringexplode (hostOf labels ++ request) ['/']).getLast? =
      (stringexplode request ['/']).getLast? := by
    have hmore : stringexplode request ['/'] ≠ [] := by
      obtain ⟨c, hc, hne⟩ := hasked.name
      rw [ne_eq, stringexplode_eq_nil_iff]
      exact fun hall => hne (List.mem_singleton.mp (hall c hc))
    rw [hpath, stringexplode_cons List.mem_cons_self] at hmore ⊢
    rw [stringexplode_append hslash hasked.host.hostOf_ne_nil List.mem_cons_self,
      List.getLast?_cons_of_ne_nil hmore]
  simp only [hposition, hnames, List.drop_left] at hfile
  obtain ⟨name, hname, heq⟩ := Option.map_eq_some_iff.mp hfile
  cases heq
  split at hs
  · subst hs
    exact ⟨d, name, hd, rfl, hname, rfl⟩
  · subst hs
    cases hmatch

theorem slash_not_mem_hex : '/' ∉ "0123456789abcdef".toList := by decide

/-- **Two requests share an entry** exactly when their domain and their path are the same, if the
digest tells the two texts apart. -/
theorem general_key_iff (hasked : NameOn labels request url) (hasked' : NameOn labels' request' url')
    (hd : getdomain (hostOf labels ++ request) = some d)
    (hd' : getdomain (hostOf labels' ++ request') = some d')
    (h : General.hgetmatch2 buffer digest r url = some s)
    (h' : General.hgetmatch2 buffer' digest' r' url' = some s')
    (hmatch : s.isMatch = true) (hmatch' : s'.isMatch = true)
    (hbuffer : buffer.length = 64) (hbuffer' : buffer'.length = 64)
    (hlength : (d ++ request).length + 64 < 2 ^ 32)
    (hdigest : md5 buffer digest (d ++ request) = md5 buffer' digest' (d' ++ request') →
      d ++ request = d' ++ request') :
    s.key = s'.key ↔ d = d' ∧ request = request' := by
  obtain ⟨_, name, hd₁, hdomain, hname, hfile⟩ := general_match hasked h hmatch
  obtain ⟨_, name', hd₁', hdomain', hname', hfile'⟩ := general_match hasked' h' hmatch'
  cases hd.symm.trans hd₁
  cases hd'.symm.trans hd₁'
  rw [Resposta.key, Resposta.key, Key.mk.injEq, hdomain, hdomain', hfile, hfile', List.append_assoc,
    List.append_assoc]
  constructor
  · rintro ⟨-, hfiles⟩
    have hwidth : (md5 buffer digest (d ++ request)).length =
        (md5 buffer' digest' (d' ++ request')).length := by
      rw [(md5_text _ _ _).1, (md5_text _ _ _).1]
    have htext := hdigest (List.append_inj_left hfiles hwidth)
    obtain ⟨ls, hls, rfl⟩ := getdomain_labels hasked.host hasked.slash hasked.name hd
    obtain ⟨ls', hls', rfl⟩ := getdomain_labels hasked'.host hasked'.slash hasked'.name hd'
    obtain ⟨path, hpath⟩ := List.head?_eq_some_iff.mp hasked.slash
    obtain ⟨path', hpath'⟩ := List.head?_eq_some_iff.mp hasked'.slash
    rw [hpath, hpath'] at htext ⊢
    obtain ⟨hdomains, hpaths⟩ := append_cons_inj hls.slash hls'.slash htext
    exact ⟨hdomains, congrArg _ hpaths⟩
  · rintro ⟨rfl, rfl⟩
    cases hname.symm.trans hname'
    rw [md5_eq hbuffer digest hlength, md5_eq hbuffer' digest' hlength]
    exact ⟨rfl, rfl⟩

theorem nameOn_exampleOrg {first : Char} {request : Str} (hdot : first ≠ '.') (hslash : first ≠ '/')
    (hscheme : schemeless (first :: ".example.org".toList ++ request) =
      first :: ".example.org".toList ++ request)
    (hrequest : request.head? = some '/') (hname : ∃ c ∈ request, c ≠ '/') :
    NameOn [[first], "example".toList, "org".toList] request
      (first :: ".example.org".toList ++ request) := by
  have hlabels : ∀ l ∈ ["example".toList, "org".toList], l ≠ [] ∧ '.' ∉ l ∧ '/' ∉ l := by decide
  refine ⟨⟨List.cons_ne_nil _ _, fun l hl => ?_⟩, hscheme, hrequest, hname⟩
  rcases List.mem_cons.mp hl with rfl | hl
  · simp [hdot.symm, hslash.symm]
  · exact hlabels l hl

theorem general_key_iff_song :
    ∃ s s', General.hgetmatch2 (List.replicate 64 1) [] Connection.new.r
        "a.example.org/x/y.mp3".toList = some s ∧
      General.hgetmatch2 (List.replicate 64 2) [] Connection.new.r
        "b.example.org/x/y.mp3".toList = some s' ∧ s.key = s'.key := by
  have hasked : NameOn ["a".toList, "example".toList, "org".toList] "/x/y.mp3".toList
      "a.example.org/x/y.mp3".toList :=
    nameOn_exampleOrg (by decide) (by decide) (by decide +kernel) rfl ⟨'x', by decide, by decide⟩
  have hasked' : NameOn ["b".toList, "example".toList, "org".toList] "/x/y.mp3".toList
      "b.example.org/x/y.mp3".toList :=
    nameOn_exampleOrg (by decide) (by decide) (by decide +kernel) rfl ⟨'x', by decide, by decide⟩
  have hd : getdomain "a.example.org/x/y.mp3".toList = some "example.org".toList := by decide +kernel
  have hd' : getdomain "b.example.org/x/y.mp3".toList = some "example.org".toList := by decide +kernel
  have hanswer : (General.hgetmatch2 (List.replicate 64 1) [] Connection.new.r
      "a.example.org/x/y.mp3".toList).any (·.isMatch) = true := by decide +kernel
  have hanswer' : (General.hgetmatch2 (List.replicate 64 2) [] Connection.new.r
      "b.example.org/x/y.mp3".toList).any (·.isMatch) = true := by decide +kernel
  obtain ⟨s, hs, hmatch⟩ := (Option.any_eq_true _ _).mp hanswer
  obtain ⟨s', hs', hmatch'⟩ := (Option.any_eq_true _ _).mp hanswer'
  have hiff := general_key_iff hasked hasked' hd hd' hs hs' hmatch hmatch' rfl rfl (by decide)
    fun _ => rfl
  exact ⟨s, s', hs, hs', hiff.mpr ⟨rfl, rfl⟩⟩

/-- **Where the file lies**: in a directory with one name, which the path does not leave. -/
theorem general_confined (hasked : NameOn labels request url)
    (h : General.hgetmatch2 buffer digest r url = some s) (hmatch : s.isMatch = true) :
    Proper s.domain ∧ '/' ∉ s.domain ∧ Confined s := by
  obtain ⟨d, name, hd, hdomain, hname, hfile⟩ := general_match hasked h hmatch
  obtain ⟨ls, hls, rfl⟩ := getdomain_labels hasked.host hasked.slash hasked.name hd
  obtain ⟨ls', hls', heq⟩ := entryDomain_eq hls
  rw [heq] at hdomain
  have hslash : '/' ∉ s.file := by
    rw [hfile]
    intro hin
    rcases List.mem_append.mp hin with hin | hin
    · rcases List.mem_append.mp hin with hin | hin
      · exact slash_not_mem_hex ((md5_text _ _ _).2 _ hin)
      · exact absurd hin (by decide)
    · exact not_mem_of_mem_stringexplode (List.mem_of_getLast? hname) '/' hin List.mem_cons_self
  rw [hdomain]
  exact ⟨hls'.proper, hls'.slash, confined_of_slash (hdomain ▸ hls'.hostOf_ne_nil) hslash⟩

theorem general_confined_song :
    ∃ s, General.hgetmatch2 (List.replicate 64 0) [] Connection.new.r
      "a.example.org/../../y.mp3".toList = some s ∧ Confined s := by
  have hasked : NameOn ["a".toList, "example".toList, "org".toList] "/../../y.mp3".toList
      "a.example.org/../../y.mp3".toList :=
    nameOn_exampleOrg (by decide) (by decide) (by decide +kernel) rfl ⟨'y', by decide, by decide⟩
  have hanswer : (General.hgetmatch2 (List.replicate 64 0) [] Connection.new.r
      "a.example.org/../../y.mp3".toList).any (·.isMatch) = true := by decide +kernel
  obtain ⟨s, hs, hmatch⟩ := (Option.any_eq_true _ _).mp hanswer
  exact ⟨s, hs, (general_confined hasked hs hmatch).2.2⟩

end Entry

end Haarp
