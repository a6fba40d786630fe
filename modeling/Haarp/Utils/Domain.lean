import Haarp.Utils.Search

/-!
# The domain of a request

`getdomain`: the domain whose plugin is asked, from the host and the path. Some hosts are told by
expressions; of the others it is the last two or three labels. `getdomain_iff` says for which requests
that is so: the path is cut off only when there is a name in it, and two short labels are too few.
-/

namespace Haarp

open Base

/-! ## The source -/

/-- Expressions one behind the other. -/
def inTurn : List (Regex Char) → Regex Char
  | [] => .epsilon
  | er :: ers => .seq er (inTurn ers)

/-- `[0-5]` and the like. -/
def charBetween (least most : Char) : Regex Char := .char fun c => least ≤ c ∧ c ≤ most

/-- `\.` -/
def dot : Regex Char := .word ['.']

/-- `25[0-5]|2[0-4][0-9]`, and the other numbers `[01]?[0-9][0-9]?`. -/
def octetFrom200 : Regex Char :=
  .alt (inTurn [.word ['2', '5'], charBetween '0' '5'])
    (inTurn [.word ['2'], charBetween '0' '4', digit])

def octetBelow200 : Regex Char := inTurn [.opt (oneOf ['0', '1']), digit, .opt digit]

/-- `[0-9]{1,3}` and `[0-9]{2,3}` -/
def oneToThree : Regex Char := inTurn [digit, .opt digit, .opt digit]

def twoToThree : Regex Char := inTurn [digit, digit, .opt digit]

/-- `74\.125\.` with a number and a point behind it. -/
def google : List (Regex Char) := [.word "74.125.".toList, .alt octetFrom200 octetBelow200, dot]

def mediafire : Regex Char :=
  inTurn [.alt (.word "205.196.".toList) (.word "199.91.".toList), twoToThree, dot, oneToThree]

def speedtest : Regex Char :=
  inTurn [.plus (.alt dot (.alt (charBetween 'a' 'z') (.alt digit (.word ['-'])))),
    .opt (inTurn [.word ['/'], .plus wordChar]), .plus (.word "/speedtest".toList), .word ['/'],
    .alt (inTurn [.word "random".toList, .plus digit, .word ['x'], .plus digit, .word ".jpg".toList])
      (.word "latency.txt".toList)]

def youku : Regex Char :=
  inTurn [twoToThree, dot, twoToThree, dot, twoToThree, dot, oneToThree, .word "/youku/".toList]

def netflix198 : Regex Char :=
  inTurn [.word "198.38.".toList,
    .alt (inTurn [.word ['9'], charBetween '6' '9']) (inTurn [.word ['1'], charBetween '0' '2', digit]),
    dot, oneToThree, .word "/range/".toList]

def netflix108 : Regex Char :=
  inTurn [.word "108.175.".toList,
    .alt (inTurn [.word ['3'], charBetween '2' '9']) (inTurn [.word ['4'], digit]),
    dot, oneToThree, .word "/range/".toList]

/-- The domains that `getdomain` tells by expressions. In the first one, `$` belongs to the last of the
numbers alone. -/
def specialDomain (url : Str) : Option Str :=
  if regexMatchLine (inTurn (google ++ [octetFrom200])) false url ≠ [] ∨
      regexMatchLine (inTurn (google ++ [octetBelow200])) true url ≠ [] then some "youtube.com".toList
  else if regexMatchLine mediafire false url ≠ [] then some "mediafire.com".toList
  else if regexMatchLine speedtest false url ≠ [] then some "speedtest.net".toList
  else if regexMatchLine youku false url ≠ [] then some "youku.com".toList
  else if regexMatch netflix198 false url ≠ [] then some "netflix.com".toList
  else if regexMatch netflix108 false url ≠ [] then some "netflix.com".toList
  else none

/-- `[0-9]+\.[0-9]+\.[0-9]+\.[0-9]+` -/
def address : Regex Char :=
  inTurn [.plus digit, dot, .plus digit, dot, .plus digit, dot, .plus digit]

def avg : Str := ['a', 'v', 'g']

/-- The end of `getdomain`, with the labels of `url`. -/
def lastLabels (url : Str) (resultado : List Str) : Option Str :=
  match resultado.reverse with
  | last :: second :: rest =>
    if second.length ≤ 3 ∧ last.length ≤ 3 ∧ second ≠ avg then
      rest.head?.map fun third => third ++ '.' :: second ++ '.' :: last
    else some (second ++ '.' :: last)
  | _ => some url

/-- `getdomain`; `none` when `at` throws. -/
def getdomain (url : Str) : Option Str :=
  match specialDomain url with
  | some domain => some domain
  | none =>
    if url.isEmpty then some []
    else
      let resultado := stringexplode url ['/']
      let url := if resultado.length > 1 then resultado.head?.getD [] else url
      if regexMatchLine address true url ≠ [] then some url
      else lastLabels url (stringexplode url ['.'])

/-! ## Hosts -/

/-- The labels with points between them. -/
def hostOf (labels : List Str) : Str := (labels.flatMap ('.' :: ·)).tail

/-- The labels of a host. -/
structure IsHost (labels : List Str) : Prop where
  ne_nil : labels ≠ []
  label : ∀ l ∈ labels, l ≠ [] ∧ '.' ∉ l ∧ '/' ∉ l

/-- Four numbers. -/
def IsAddress (labels : List Str) : Prop :=
  labels.length = 4 ∧ ∀ l ∈ labels, ∀ c ∈ l, c.isDigit = true

instance (labels : List Str) : Decidable (IsAddress labels) :=
  inferInstanceAs (Decidable (_ ∧ _))

/-- Both of the last labels are short, and the last but one is not `avg`. -/
def ShortEnd (labels : List Str) : Prop :=
  ∃ init second last, labels = init ++ [second, last] ∧ second.length ≤ 3 ∧ last.length ≤ 3 ∧
    second ≠ avg

open Classical in
/-- What the domain of a host is: the host itself when it is one label or an address; otherwise its
last two labels, or its last three when the last two are short and it has three. -/
noncomputable def domainOfHost (labels : List Str) : Str :=
  if labels.length = 1 ∨ IsAddress labels then hostOf labels
  else if ShortEnd labels ∧ 3 ≤ labels.length then hostOf (labels.drop (labels.length - 3))
  else hostOf (labels.drop (labels.length - 2))

section Hosts

variable {labels : List Str}

theorem cons_hostOf (h : labels ≠ []) : '.' :: hostOf labels = labels.flatMap ('.' :: ·) := by
  obtain ⟨l, labels, rfl⟩ := List.exists_cons_of_ne_nil h
  rfl

/-- The labels of a host are found again. -/
theorem stringexplode_hostOf (hne : labels ≠ []) (hlabels : ∀ l ∈ labels, l ≠ [] ∧ '.' ∉ l) :
    stringexplode (hostOf labels) ['.'] = labels := by
  have hsplit := stringexplode_flatMap hlabels
  rwa [← cons_hostOf hne, stringexplode_cons List.mem_cons_self] at hsplit

theorem mem_hostOf {c : Char} (hc : c ∈ hostOf labels) : c = '.' ∨ ∃ l ∈ labels, c ∈ l := by
  obtain ⟨l, hl, hcl⟩ := List.mem_flatMap.mp (List.mem_of_mem_tail hc)
  rcases List.mem_cons.mp hcl with rfl | hcl
  · exact .inl rfl
  · exact .inr ⟨l, hl, hcl⟩

theorem IsHost.slash (h : IsHost labels) : '/' ∉ hostOf labels := by
  intro hmem
  rcases mem_hostOf hmem with heq | ⟨l, hl, hmem⟩
  · exact absurd heq (by decide)
  · exact (h.label l hl).2.2 hmem

theorem IsHost.hostOf_ne_nil (h : IsHost labels) : hostOf labels ≠ [] := by
  intro hnil
  obtain ⟨l, labels, rfl⟩ := List.exists_cons_of_ne_nil h.ne_nil
  have hl := (h.label l List.mem_cons_self).1
  simp [hostOf, hl] at hnil

/-- A host has one point less than labels. -/
theorem count_hostOf (hlabels : ∀ l ∈ labels, '.' ∉ l) : (hostOf labels).count '.' = labels.length - 1 := by
  have hall : (labels.flatMap ('.' :: ·)).count '.' = labels.length := by
    induction labels with
    | nil => rfl
    | cons l labels ih =>
      rw [List.forall_mem_cons] at hlabels
      rw [List.flatMap_cons, List.count_append, List.count_cons_self, List.count_eq_zero.mpr hlabels.1,
        ih hlabels.2, List.length_cons, Nat.zero_add, Nat.add_comm]
  cases labels with
  | nil => rfl
  | cons l labels =>
    rw [hostOf, List.flatMap_cons, List.cons_append] at *
    rw [List.count_cons_self] at hall
    exact Nat.eq_sub_of_add_eq hall

end Hosts

/-! ## Addresses -/

/-- What looks like an address has three points. -/
theorem count_of_mem_address {w : Str} (hw : w ∈ address.language) : 3 ≤ w.count '.' := by
  obtain ⟨a, -, x, hx, rfl⟩ := Regex.mem_seq.mp hw
  obtain ⟨p, hp, y, hy, rfl⟩ := Regex.mem_seq.mp hx
  obtain ⟨b, -, z, hz, rfl⟩ := Regex.mem_seq.mp hy
  obtain ⟨q, hq, u, hu, rfl⟩ := Regex.mem_seq.mp hz
  obtain ⟨c, -, v, hv, rfl⟩ := Regex.mem_seq.mp hu
  obtain ⟨r, hr, d, -, rfl⟩ := Regex.mem_seq.mp hv
  rw [Regex.mem_word.mp hp, Regex.mem_word.mp hq, Regex.mem_word.mp hr]
  simp only [List.count_append, List.count_singleton_self]
  omega

theorem address_of_digits {labels : List Str} (hlabels : ∀ l ∈ labels, l ≠ []) (h : IsAddress labels) :
    hostOf labels ∈ address.language := by
  obtain ⟨hlength, hdigits⟩ := h
  match labels, hlength with
  | [a, b, c, d], _ =>
    have hnumber : ∀ l ∈ [a, b, c, d], l ∈ (Regex.plus digit).language := fun l hl =>
      Regex.mem_plus_char.mpr ⟨hlabels l hl, hdigits l hl⟩
    have hdot : ['.'] ∈ dot.language := Regex.mem_word.mpr rfl
    have hlast : d ++ [] ∈ (inTurn [.plus digit]).language :=
      Regex.append_mem_seq (hnumber d (by simp)) rfl
    have hcd := Regex.append_mem_seq (hnumber c (by simp)) (Regex.append_mem_seq hdot hlast)
    have hbcd := Regex.append_mem_seq (hnumber b (by simp)) (Regex.append_mem_seq hdot hcd)
    have habcd := Regex.append_mem_seq (hnumber a (by simp)) (Regex.append_mem_seq hdot hbcd)
    have hhost : hostOf [a, b, c, d] = a ++ (['.'] ++ (b ++ (['.'] ++ (c ++ (['.'] ++ (d ++ [])))))) := by
      simp [hostOf]
    rw [hhost]
    exact habcd

/-- An address is taken for one. -/
theorem regexMatchLine_address {labels : List Str} (hlabels : ∀ l ∈ labels, l ≠ []) (h : IsAddress labels) :
    regexMatchLine address true (hostOf labels) ≠ [] := by
  have hplain : ∀ c ∈ hostOf labels, c ≠ Char.ofNat 0 := by
    rintro c hc rfl
    rcases mem_hostOf hc with heq | ⟨l, hl, hmem⟩
    · exact absurd heq (by decide)
    · exact absurd (h.2 l hl _ hmem) (by decide)
  have hcstr : cStr (hostOf labels) = hostOf labels ++ [] := by
    rw [List.append_nil]
    exact List.takeWhile_eq_self_iff.mpr fun c hc => decide_eq_true (hplain c hc)
  exact regexMatchLine_ne_nil rfl hcstr (address_of_digits hlabels h) rfl

/-! ## The domain -/

section Domain

variable {labels : List Str} {url request : Str}

theorem lastLabels_two (url : Str) (init : List Str) (second last : Str) :
    lastLabels url (init ++ [second, last]) =
      if second.length ≤ 3 ∧ last.length ≤ 3 ∧ second ≠ avg then
        init.getLast?.map fun third => third ++ '.' :: second ++ '.' :: last
      else some (second ++ '.' :: last) := by
  simp [lastLabels]

/-- The last label is a part of the domain. -/
theorem suffix_of_lastLabels {init : List Str} {last d : Str} (hurl : last <:+ url)
    (h : lastLabels url (init ++ [last]) = some d) : last <:+ d := by
  rcases List.eq_nil_or_concat' init with rfl | ⟨init, second, rfl⟩
  · cases h
    exact hurl
  · rw [List.append_assoc, List.singleton_append, lastLabels_two] at h
    split at h
    · obtain ⟨third, -, rfl⟩ := Option.map_eq_some_iff.mp h
      exact ⟨third ++ '.' :: second ++ ['.'], by simp⟩
    · cases h
      exact ⟨second ++ ['.'], by simp⟩

theorem shortEnd_two {init : List Str} {second last : Str} :
    ShortEnd (init ++ [second, last]) ↔ second.length ≤ 3 ∧ last.length ≤ 3 ∧ second ≠ avg := by
  constructor
  · rintro ⟨init', second', last', heq, h⟩
    obtain ⟨-, hlast⟩ := List.append_inj' heq rfl
    cases hlast
    exact h
  · exact fun h => ⟨init, second, last, rfl, h⟩

/-- The domain of a host that is not taken for an address. -/
theorem lastLabels_iff (hlabels : labels ≠ []) (haddress : ¬ IsAddress labels) :
    lastLabels (hostOf labels) labels = some (domainOfHost labels) ↔
      ¬ (labels.length = 2 ∧ ShortEnd labels) := by
  rcases List.eq_nil_or_concat' labels with rfl | ⟨init, last, rfl⟩
  · exact absurd rfl hlabels
  rcases List.eq_nil_or_concat' init with rfl | ⟨init, second, rfl⟩
  · -- one label
    refine iff_of_true ?_ fun h => absurd (show 1 = 2 from h.1) (by decide)
    rw [domainOfHost, if_pos (.inl rfl)]
    rfl
  · rw [List.append_assoc, List.singleton_append] at haddress ⊢
    have hone : ¬ ((init ++ [second, last]).length = 1 ∨ IsAddress (init ++ [second, last])) := by
      rw [not_or, List.length_append]
      exact ⟨Nat.ne_of_gt (Nat.lt_add_left _ (Nat.lt_succ_self 1)), haddress⟩
    have htwo : hostOf ((init ++ [second, last]).drop ((init ++ [second, last]).length - 2)) =
        second ++ '.' :: last := by
      simp [hostOf]
    rw [lastLabels_two, domainOfHost, if_neg hone, shortEnd_two, htwo]
    by_cases hshort : second.length ≤ 3 ∧ last.length ≤ 3 ∧ second ≠ avg
    · rw [if_pos hshort]
      rcases List.eq_nil_or_concat' init with rfl | ⟨init, third, rfl⟩
      · -- there is no third label
        exact iff_of_false (fun h => by cases h) fun h => h ⟨rfl, hshort⟩
      · have hthree : 3 ≤ (init ++ [third] ++ [second, last]).length := by
          simp only [List.length_append, List.length_cons, List.length_nil]
          omega
        refine iff_of_true ?_ fun h => ?_
        · rw [if_pos ⟨hshort, hthree⟩, List.getLast?_concat]
          simp [hostOf]
        · omega
    · rw [if_neg hshort, if_neg fun h => hshort h.1]
      exact iff_of_true rfl fun h => hshort h.2

/-- What stands behind a host belongs to its last label. -/
theorem hostOf_append (init : List Str) (last request : Str) :
    hostOf (init ++ [last]) ++ request = hostOf (init ++ [last ++ request]) := by
  cases init with
  | nil => simp [hostOf]
  | cons l init => simp [hostOf]

theorem suffix_hostOf (init : List Str) (last : Str) : last <:+ hostOf (init ++ [last]) := by
  have h := hostOf_append init [] last
  rw [List.nil_append] at h
  rw [← h]
  exact List.suffix_append _ last

/-- The labels of a host with slashes behind it. -/
theorem stringexplode_slashes {init : List Str} {last : Str}
    (hlabels : ∀ l ∈ init ++ [last], l ≠ [] ∧ '.' ∉ l) (hrequest : ∀ c ∈ request, c = '/') :
    stringexplode (hostOf (init ++ [last]) ++ request) ['.'] = init ++ [last ++ request] := by
  rw [hostOf_append]
  refine stringexplode_hostOf (by simp) fun l hl => ?_
  rcases List.mem_append.mp hl with hl | hl
  · exact hlabels l (List.mem_append_left _ hl)
  · obtain ⟨hne, hdot⟩ := hlabels last (by simp)
    rw [List.mem_singleton.mp hl, List.mem_append, not_or]
    refine ⟨List.append_ne_nil_of_left_ne_nil hne _, hdot, fun hmem => ?_⟩
    exact absurd (hrequest '.' hmem) (by decide)

/-- A path without a name is not cut off. -/
theorem getdomain_slashes {d : Str} (hhost : IsHost labels)
    (hspecial : specialDomain (hostOf labels ++ request) = none)
    (hrequest : ∀ c ∈ request, c = '/') (hne : request ≠ [])
    (h : getdomain (hostOf labels ++ request) = some d) : '/' ∈ d := by
  have hslash : '/' ∈ request := by
    obtain ⟨c, request, rfl⟩ := List.exists_cons_of_ne_nil hne
    rw [hrequest c List.mem_cons_self]
    exact List.mem_cons_self
  have hempty : (hostOf labels ++ request).isEmpty = false := by
    rw [List.isEmpty_eq_false_iff]
    exact List.append_ne_nil_of_right_ne_nil _ hne
  have hone : stringexplode (hostOf labels ++ request) ['/'] = [hostOf labels] := by
    obtain ⟨c, request, rfl⟩ := List.exists_cons_of_ne_nil hne
    obtain rfl : c = '/' := hrequest c List.mem_cons_self
    have hnone : stringexplode request ['/'] = [] := by
      rw [stringexplode_eq_parts, parts_eq_nil_iff]
      intro c hc
      rw [hrequest c (List.mem_cons_of_mem _ hc)]
      rfl
    have hslash' : ∀ c ∈ hostOf labels, c ∉ ['/'] := fun c hc hmem =>
      hhost.slash (List.mem_singleton.mp hmem ▸ hc)
    rw [stringexplode_append hslash' hhost.hostOf_ne_nil List.mem_cons_self, hnone]
  rw [getdomain, hspecial] at h
  simp only [hempty, hone, List.length_singleton, gt_iff_lt, lt_irrefl, if_false, Bool.false_eq_true] at h
  split at h
  · cases h
    exact List.mem_append_right _ hslash
  · obtain ⟨init, last, rfl⟩ := (List.eq_nil_or_concat' labels).resolve_left hhost.ne_nil
    have hlabels : ∀ l ∈ init ++ [last], l ≠ [] ∧ '.' ∉ l := fun l hl =>
      ⟨(hhost.label l hl).1, (hhost.label l hl).2.1⟩
    rw [stringexplode_slashes hlabels hrequest] at h
    have hurl : last ++ request <:+ hostOf (init ++ [last]) ++ request := by
      rw [hostOf_append]
      exact suffix_hostOf init (last ++ request)
    exact (suffix_of_lastLabels hurl h).subset (List.mem_append_right last hslash)

/-- A path with a name is cut off. -/
theorem getdomain_name (hhost : IsHost labels)
    (hspecial : specialDomain (hostOf labels ++ request) = none) (hrequest : request.head? = some '/')
    (hname : ∃ c ∈ request, c ≠ '/') :
    getdomain (hostOf labels ++ request) =
      if regexMatchLine address true (hostOf labels) ≠ [] then some (hostOf labels)
      else lastLabels (hostOf labels) labels := by
  obtain ⟨request, rfl⟩ := List.head?_eq_some_iff.mp hrequest
  have hempty : (hostOf labels ++ '/' :: request).isEmpty = false := by
    rw [List.isEmpty_eq_false_iff]
    exact List.append_ne_nil_of_right_ne_nil _ (List.cons_ne_nil _ _)
  have hslash : ∀ c ∈ hostOf labels, c ∉ ['/'] := fun c hc hmem =>
    hhost.slash (List.mem_singleton.mp hmem ▸ hc)
  have hparts : stringexplode (hostOf labels ++ '/' :: request) ['/'] =
      hostOf labels :: stringexplode request ['/'] :=
    stringexplode_append hslash hhost.hostOf_ne_nil List.mem_cons_self
  have hmore : stringexplode request ['/'] ≠ [] := by
    obtain ⟨c, hc, hne⟩ := hname
    rw [stringexplode_eq_parts, ne_eq, parts_eq_nil_iff]
    intro hall
    have hc' := (List.mem_cons.mp hc).resolve_left hne
    exact hne (List.mem_singleton.mp (of_decide_eq_true (hall c hc')))
  have hlength : (hostOf labels :: stringexplode request ['/']).length > 1 :=
    Nat.succ_lt_succ (List.length_pos_iff.mpr hmore)
  rw [getdomain, hspecial]
  dsimp only
  rw [if_neg (by simp [hempty]), hparts, if_pos hlength, List.head?_cons, Option.getD_some,
    stringexplode_hostOf hhost.ne_nil fun l hl => ⟨(hhost.label l hl).1, (hhost.label l hl).2.1⟩]

/-- What is taken for an address has four labels. -/
theorem length_of_regexMatchLine (hhost : IsHost labels)
    (h : regexMatchLine address true (hostOf labels) ≠ []) : 4 ≤ labels.length := by
  obtain ⟨hmem, hinside⟩ := regexMatchLine_sound h
  have hcount := (count_of_mem_address hmem).trans (hinside.sublist.count_le '.')
  rw [count_hostOf fun l hl => (hhost.label l hl).2.1] at hcount
  omega

/-- The domain of such a host is shorter than the host. -/
theorem domainOfHost_ne (hlabels : 4 ≤ labels.length) (hdot : ∀ l ∈ labels, '.' ∉ l)
    (haddress : ¬ IsAddress labels) : domainOfHost labels ≠ hostOf labels := by
  have hcount : ∀ n, n ≤ 3 → hostOf (labels.drop (labels.length - n)) ≠ hostOf labels := by
    intro n hn heq
    have hdots := congrArg (List.count '.') heq
    rw [count_hostOf hdot, count_hostOf fun l hl => hdot l (List.mem_of_mem_drop hl),
      List.length_drop] at hdots
    omega
  have hone : ¬ (labels.length = 1 ∨ IsAddress labels) := not_or.mpr ⟨by omega, haddress⟩
  rw [domainOfHost, if_neg hone]
  split
  · exact hcount 3 le_rfl
  · exact hcount 2 (by decide)

/-- **Domain extraction** is right exactly when there is a name in the path, two labels are not both
short, and nothing but an address is taken for one. -/
theorem getdomain_iff (hhost : IsHost labels) (hrequest : request.head? = some '/')
    (hspecial : specialDomain (hostOf labels ++ request) = none) :
    (getdomain (hostOf labels ++ request) = some (domainOfHost labels) ∧ '/' ∉ domainOfHost labels) ↔
      (∃ c ∈ request, c ≠ '/') ∧ ¬ (labels.length = 2 ∧ ShortEnd labels) ∧
        (regexMatchLine address true (hostOf labels) ≠ [] → IsAddress labels) := by
  have hslash : '/' ∉ domainOfHost labels := by
    have hdrop : ∀ n, '/' ∉ hostOf (labels.drop n) := by
      intro n hmem
      rcases mem_hostOf hmem with heq | ⟨l, hl, hmem⟩
      · exact absurd heq (by decide)
      · exact (hhost.label l (List.mem_of_mem_drop hl)).2.2 hmem
    unfold domainOfHost
    split
    · exact hhost.slash
    · split
      · exact hdrop _
      · exact hdrop _
  rw [and_iff_left hslash]
  by_cases hname : ∃ c ∈ request, c ≠ '/'
  · rw [and_iff_right hname, getdomain_name hhost hspecial hrequest hname]
    by_cases hmatch : regexMatchLine address true (hostOf labels) ≠ []
    · have hlength := length_of_regexMatchLine hhost hmatch
      rw [if_pos hmatch, forall_prop_of_true hmatch]
      by_cases haddress : IsAddress labels
      · refine iff_of_true ?_ ⟨fun h => by omega, haddress⟩
        rw [domainOfHost, if_pos (.inr haddress)]
      · refine iff_of_false (fun h => ?_) fun h => haddress h.2
        have hdot : ∀ l ∈ labels, '.' ∉ l := fun l hl => (hhost.label l hl).2.1
        exact domainOfHost_ne hlength hdot haddress (Option.some.inj h).symm
    · have haddress : ¬ IsAddress labels := fun h =>
        hmatch (regexMatchLine_address (fun l hl => (hhost.label l hl).1) h)
      rw [if_neg hmatch, lastLabels_iff hhost.ne_nil haddress, and_iff_left fun h => absurd h hmatch]
  · refine iff_of_false (fun h => ?_) fun h => hname h.1
    have hall : ∀ c ∈ request, c = '/' := by
      intro c hc
      by_contra hne
      exact hname ⟨c, hc, hne⟩
    have hne : request ≠ [] := by
      rintro rfl
      cases hrequest
    exact hslash (getdomain_slashes hhost hspecial hall hne h)

/-- A host of three labels. -/
theorem getdomain_www :
    getdomain (hostOf ["www".toList, "example".toList, "org".toList] ++ "/x".toList) =
      some (domainOfHost ["www".toList, "example".toList, "org".toList]) := by
  have hhost : IsHost ["www".toList, "example".toList, "org".toList] :=
    ⟨List.cons_ne_nil _ _, by decide⟩
  have hspecial : specialDomain
      (hostOf ["www".toList, "example".toList, "org".toList] ++ "/x".toList) = none := by decide +kernel
  have haddress : regexMatchLine address true
      (hostOf ["www".toList, "example".toList, "org".toList]) = [] := by decide +kernel
  refine ((getdomain_iff hhost rfl hspecial).mpr ⟨⟨'x', by decide, by decide⟩, fun h => ?_, fun h => ?_⟩).1
  · exact absurd h.1 (by decide)
  · exact absurd haddress h

/-- Two short labels, and a path without a name. -/
theorem not_getdomain_short :
    (specialDomain (hostOf ["t".toList, "co".toList] ++ "/x".toList) = none ∧
      getdomain (hostOf ["t".toList, "co".toList] ++ "/x".toList) = none) ∧
    specialDomain (hostOf ["www".toList, "example".toList, "org".toList] ++ "/".toList) = none ∧
      getdomain (hostOf ["www".toList, "example".toList, "org".toList] ++ "/".toList) =
        some "example.org/".toList := by
  decide +kernel

end Domain

end Haarp
