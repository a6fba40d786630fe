import Haarp.Http.Tokens

/-!
# The configuration

`Params` reads a file of lines with a key and a value over the defaults. A line is trimmed in the
variable that `getline` reads into, and a last line without a line break is read for a second time, since
`getline` leaves the variable alone at the end of the file.

* `readConfig_reads`: what a file means, line by line, and which file is refused at which line.
* `readConfig_written`: the settings that a file is written with are read from it, the last one of a key
  counts.
* `setParams_sane`: what `TestConfig` makes sure of, whatever the file is. The defaults pass it
  (`setParams_defaults`).
-/

namespace Haarp

/-- `params`; a key without a value has an empty one. -/
abbrev Params := Str → Str

namespace Params

/-! ## The source -/

/-- `" \t"` -/
def blanks : Str := [' ', '\t']

/-- `str.find_first_of(set)` -/
def findFirstOf (set str : Str) : Option Nat := str.findIdx? (· ∈ set)

/-- What becomes of a value. -/
def normalised (value : Str) : Str :=
  if UpperCase value = "TRUE".toList ∨ UpperCase value = "FALSE".toList then UpperCase value else value

/-- `SetConfig` -/
def SetConfig (param value : Str) (params : Params) : Params := fun p =>
  if p = UpperCase param then normalised value else params p

/-- `SetDefaults`; the paths are chosen by `configure`. -/
def SetDefaults (ACCESSLOG ERRORLOG PIDFILE : Str) : Params :=
  [("CACHEDIR".toList, "/haarp".toList), ("PLUGINSDIR".toList, "/etc/haarp/plugins".toList),
    ("MYSQL_HOST".toList, "localhost".toList), ("MYSQL_USER".toList, "root".toList),
    ("MYSQL_PASS".toList, []), ("MYSQL_DB".toList, "haarp".toList), ("CACHE_LIMIT".toList, "98".toList),
    ("DISPLAYINITIALMESSAGES".toList, "true".toList), ("USER".toList, "root".toList),
    ("GROUP".toList, "root".toList), ("DAEMON".toList, "true".toList),
    ("SERVERNUMBER".toList, "8".toList), ("MAXSERVERS".toList, "150".toList),
    ("PORT".toList, "8080".toList), ("BIND_ADDRESS".toList, []), ("SOURCE_ADDRESS".toList, []),
    ("PARENTPROXY".toList, []), ("PARENTPORT".toList, "0".toList), ("ACCESSLOG".toList, ACCESSLOG),
    ("ERRORLOG".toList, ERRORLOG), ("LOG_OKS".toList, "true".toList), ("LOGLEVEL".toList, "0".toList),
    ("USESYSLOG".toList, "false".toList), ("SYSLOGNAME".toList, "haarp".toList),
    ("SYSLOGFACILITY".toList, "daemon".toList), ("SYSLOGLEVEL".toList, "info".toList),
    ("PIDFILE".toList, PIDFILE), ("TRANSPARENT".toList, "false".toList),
    ("FORWARDED_IP".toList, "false".toList), ("X_FORWARDED_FOR".toList, "false".toList)].foldl
    (fun params setting => SetConfig setting.1 setting.2 params) fun _ => []

/-- One turn of the loop of `ReadConfig`: the variable `line` behind it and the parameters, or `none` for
an invalid line. -/
def readLine (line : Str) (params : Params) : Option (Str × Params) :=
  match findFirstNotOf blanks line with
  | none => some (line, params)
  | some position =>
    let line := (line.drop position).take ((findLastNotOf blanks line).getD 0 - position + 1)
    if line.length = 0 then some (line, params)
    else if line.take 1 = ['#'] then some (line, params)
    else
      match findFirstOf blanks line with
      | some position =>
        let key := line.take position
        match findFirstNotOf blanks (line.drop (position + 1)) with
        | none => none
        | some n => some (line, SetConfig key (line.drop (position + 1 + n)) params)
      | none => none

/-- The loop of `ReadConfig` over what is between the line breaks. -/
def readLines : List Str → Params → Bool × Params
  | [], params => (true, params)
  | [last], params =>
    match readLine last params with
    | none => (false, params)
    | some (line, params) =>
      -- The end of the file is seen with an empty line, or only by the next `getline`.
      if last = [] then (true, params)
      else
        match readLine line params with
        | none => (false, params)
        | some (_, params) => (true, params)
  | line :: rest, params =>
    match readLine line params with
    | none => (false, params)
    | some (_, params) => readLines rest params

/-- `ReadConfig`; there is no text when the file cannot be opened. -/
def ReadConfig (text : Option Str) (params : Params) : Bool × Params :=
  match text with
  | none => (false, params)
  | some text => readLines (text.splitOn '\n') params

/-- `GetConfigInt`, for a number that is an `int`. -/
def GetConfigInt (param : Str) (params : Params) : Int := atoll (params param)

/-- The test of an address: `NULL` is none, and `isAddress` is whether `inet_addr` knows it. -/
def testAddress (isAddress : Str → Bool) (param : Str) (params : Params) : Bool × Params :=
  let params := if params param = "NULL".toList then SetConfig param [] params else params
  if params param ≠ [] ∧ isAddress (params param) = false then (false, params) else (true, params)

/-- `TestConfig` -/
def TestConfig (isAddress : Str → Bool) (params : Params) : Bool × Params :=
  if GetConfigInt "SERVERNUMBER".toList params < 1 then (false, params)
  else if (params "ACCESSLOG".toList).take 1 ≠ ['/'] ∨ (params "ERRORLOG".toList).take 1 ≠ ['/'] then
    (false, params)
  else
    let (ok, params) := testAddress isAddress "BIND_ADDRESS".toList params
    if !ok then (false, params)
    else
      let (ok, params) := testAddress isAddress "SOURCE_ADDRESS".toList params
      if !ok then (false, params)
      else if params "PARENTPROXY".toList ≠ [] ∧ GetConfigInt "PARENTPORT".toList params < 1 then
        (false, params)
      else (true, params)

/-- `SetParams`, with the text of the file and the defaults. -/
def SetParams (isAddress : Str → Bool) (text : Option Str) (defaults : Params) : Bool × Params :=
  let (ok, params) := ReadConfig text defaults
  if !ok then (false, params) else TestConfig isAddress params

/-! ## What a line means -/

/-- A key of the file. -/
structure IsKey (key : Str) : Prop where
  ne_nil : key ≠ []
  blank : ∀ c ∈ key, c ∉ blanks
  comment : key.head? ≠ some '#'

/-- A value of the file. -/
structure IsValue (value : Str) : Prop where
  ne_nil : value ≠ []
  head : ∀ c, value.head? = some c → c ∉ blanks
  last : ∀ c, value.getLast? = some c → c ∉ blanks

instance (key : Str) : Decidable (IsKey key) :=
  decidable_of_iff (key ≠ [] ∧ (key.all fun c => c ∉ blanks) = true ∧ key.head? ≠ some '#')
    ⟨fun h => ⟨h.1, by simpa using h.2.1, h.2.2⟩, fun h => ⟨h.ne_nil, by simpa using h.blank, h.comment⟩⟩

instance (value : Str) : Decidable (IsValue value) :=
  decidable_of_iff (value ≠ [] ∧ (value.head?.all fun c => c ∉ blanks) = true ∧
      (value.getLast?.all fun c => c ∉ blanks) = true)
    (by
      simp only [Option.all_eq_true, decide_eq_true_eq]
      exact ⟨fun h => ⟨h.1, h.2.1, h.2.2⟩, fun h => ⟨h.ne_nil, h.head, h.last⟩⟩)

/-- The lines that are allowed, with the setting in them, if there is one. -/
inductive Meant : Str → Option (Str × Str) → Prop
  | blank {line : Str} (hline : ∀ c ∈ line, c ∈ blanks) : Meant line none
  | comment {before : Str} (rest : Str) (hbefore : ∀ c ∈ before, c ∈ blanks) :
    Meant (before ++ '#' :: rest) none
  | setting {before key gap value after : Str} (hbefore : ∀ c ∈ before, c ∈ blanks) (hkey : IsKey key)
    (hgap : ∀ c ∈ gap, c ∈ blanks) (hne : gap ≠ []) (hvalue : IsValue value)
    (hafter : ∀ c ∈ after, c ∈ blanks) :
    Meant (before ++ (key ++ (gap ++ value)) ++ after) (some (key, value))

/-- What a line does. -/
def assign (params : Params) : Option (Str × Str) → Params
  | none => params
  | some (key, value) => SetConfig key value params

/-- The last setting of a parameter. -/
def lastSetting (ms : List (Option (Str × Str))) (param : Str) : Option Str :=
  ms.reverse.findSome? fun m => m.bind fun s =>
    if param = UpperCase s.1 then some (normalised s.2) else none

/-- **What a text means**: line by line the settings, up to the first line that is not allowed. -/
inductive Reads (text : Str) (params : Params) : Bool × Params → Prop
  | accepted {ms : List (Option (Str × Str))} (hlines : List.Forall₂ Meant (text.splitOn '\n') ms) :
    Reads text params (true, fun param => (lastSetting ms param).getD (params param))
  | refused {good rest : List Str} {bad : Str} {ms : List (Option (Str × Str))}
    (htext : text.splitOn '\n' = good ++ bad :: rest) (hlines : List.Forall₂ Meant good ms)
    (hbad : ¬ ∃ m, Meant bad m) :
    Reads text params (false, fun param => (lastSetting ms param).getD (params param))

section Lines

variable {line before core after : Str} {params : Params}

/-- A search that begins with items it passes over. -/
theorem findIdx?_skip {p : Char → Bool} {u v : Str} (hu : ∀ c ∈ u, p c = false)
    (hv : ∃ c w, v = c :: w ∧ p c = true) : (u ++ v).findIdx? p = some u.length := by
  obtain ⟨c, w, rfl, hc⟩ := hv
  rw [List.findIdx?_append, List.findIdx?_eq_none_iff.mpr hu, List.findIdx?_cons, if_pos hc]
  simp

/-- What is cut off is blank. -/
theorem trimmed (hbefore : ∀ c ∈ before, c ∈ blanks) (hafter : ∀ c ∈ after, c ∈ blanks)
    (hcore : IsValue core) :
    findFirstNotOf blanks (before ++ core ++ after) = some before.length ∧
      ((before ++ core ++ after).drop before.length).take
        ((findLastNotOf blanks (before ++ core ++ after)).getD 0 - before.length + 1) = core := by
  obtain ⟨first, tail, hfirst⟩ := List.exists_cons_of_ne_nil hcore.ne_nil
  obtain ⟨init, last, hlast⟩ := (List.eq_nil_or_concat' core).resolve_left hcore.ne_nil
  have hposition : findFirstNotOf blanks (before ++ core ++ after) = some before.length := by
    rw [List.append_assoc]
    refine findIdx?_skip (fun c hc => by simpa using hbefore c hc)
      ⟨first, tail ++ after, by simp [hfirst], ?_⟩
    simpa using hcore.head first (by simp [hfirst])
  have hend : findLastNotOf blanks (before ++ core ++ after) =
      some (before.length + (core.length - 1)) := by
    have hreverse : (before ++ core ++ after).reverse.findIdx? (fun c => c ∉ blanks) =
        some after.length := by
      rw [List.reverse_append, ← List.length_reverse]
      refine findIdx?_skip (fun c hc => by simpa using hafter c (List.mem_reverse.mp hc))
        ⟨last, init.reverse ++ before.reverse, by simp [hlast], ?_⟩
      simpa using hcore.last last (by simp [hlast])
    have hpos : 0 < core.length := List.length_pos_iff.mpr hcore.ne_nil
    rw [findLastNotOf, hreverse]
    simp only [Option.map_some, List.length_append, Option.some.injEq]
    omega
  refine ⟨hposition, ?_⟩
  have hpos : 0 < core.length := List.length_pos_iff.mpr hcore.ne_nil
  have hlength : before.length + (core.length - 1) - before.length + 1 = core.length := by omega
  rw [hend, Option.getD_some, hlength, List.append_assoc, List.drop_left, List.take_left]

/-- A line that is blank is skipped. -/
theorem readLine_blank (hline : ∀ c ∈ line, c ∈ blanks) : readLine line params = some (line, params) := by
  have hnone : findFirstNotOf blanks line = none :=
    List.findIdx?_eq_none_iff.mpr fun c hc => by simpa using hline c hc
  rw [readLine, hnone]

/-- What is done with a line that is trimmed. -/
theorem readLine_core (hbefore : ∀ c ∈ before, c ∈ blanks) (hafter : ∀ c ∈ after, c ∈ blanks)
    (hcore : IsValue core) : readLine (before ++ core ++ after) params =
      if core.head? = some '#' then some (core, params)
      else
        match findFirstOf blanks core with
        | some position =>
          (findFirstNotOf blanks (core.drop (position + 1))).map fun n =>
            (core, SetConfig (core.take position) (core.drop (position + 1 + n)) params)
        | none => none := by
  obtain ⟨hposition, htrimmed⟩ := trimmed hbefore hafter hcore
  obtain ⟨first, tail, rfl⟩ := List.exists_cons_of_ne_nil hcore.ne_nil
  rw [readLine, hposition]
  dsimp only
  rw [htrimmed, if_neg (by simp)]
  by_cases hcomment : first = '#'
  · rw [if_pos (by simp [hcomment]), if_pos (by simp [hcomment])]
  · rw [if_neg (by simp [hcomment]), if_neg (by simp [hcomment])]
    cases findFirstOf blanks (first :: tail) with
    | none => rfl
    | some position =>
      dsimp only
      cases findFirstNotOf blanks ((first :: tail).drop (position + 1)) <;> rfl

/-- The front of a text as far as `p` holds. -/
theorem exists_span (p : Char → Bool) (text : Str) : ∃ u v, text = u ++ v ∧ (∀ c ∈ u, p c = true) ∧
    ∀ c, v.head? = some c → p c = false := by
  refine ⟨text.takeWhile p, text.dropWhile p, List.takeWhile_append_dropWhile.symm,
    fun c hc => List.mem_takeWhile_imp hc, fun c hc => ?_⟩
  have hhead := List.head?_dropWhile_not p text
  rwa [hc] at hhead

/-- Each line is blank, or blanks around a text. -/
theorem blank_or_core (line : Str) : (∀ c ∈ line, c ∈ blanks) ∨
    ∃ before core after, line = before ++ core ++ after ∧ (∀ c ∈ before, c ∈ blanks) ∧
      (∀ c ∈ after, c ∈ blanks) ∧ IsValue core := by
  obtain ⟨before, rest, rfl, hbefore, hhead⟩ := exists_span (· ∈ blanks) line
  obtain ⟨after, core, hrest, hafter, hlast⟩ := exists_span (· ∈ blanks) rest.reverse
  rw [List.reverse_eq_iff, List.reverse_append] at hrest
  simp only [decide_eq_true_eq, decide_eq_false_iff_not] at hbefore hhead hafter hlast
  subst hrest
  rcases List.eq_nil_or_concat' core with rfl | ⟨core, last, rfl⟩
  · -- there are only blanks
    refine .inl fun c hc => ?_
    rcases List.mem_append.mp hc with hc | hc
    · exact hbefore c hc
    · exact hafter c (by simpa using hc)
  · refine .inr ⟨before, (core ++ [last]).reverse, after.reverse, by simp, hbefore,
      fun c hc => hafter c (List.mem_reverse.mp hc), by simp, fun c hc => hhead c ?_,
      fun c hc => hlast c ?_⟩
    · rw [List.head?_append, hc]
      rfl
    · rwa [List.getLast?_reverse] at hc

/-- A text without blanks around it is one word, or a key and a value. -/
theorem word_or_setting (hcore : IsValue core) (hcomment : core.head? ≠ some '#') :
    (∀ c ∈ core, c ∉ blanks) ∨ ∃ key gap value, core = key ++ (gap ++ value) ∧ IsKey key ∧
      (∀ c ∈ gap, c ∈ blanks) ∧ gap ≠ [] ∧ IsValue value := by
  obtain ⟨key, rest, rfl, hkey, hblank⟩ := exists_span (· ∉ blanks) core
  obtain ⟨gap, value, rfl, hgap, hhead⟩ := exists_span (· ∈ blanks) rest
  simp only [decide_eq_true_eq, decide_eq_false_iff_not, not_not] at hkey hblank hgap hhead
  rcases List.eq_nil_or_concat' value with rfl | ⟨init, last, hvalue⟩
  · rcases List.eq_nil_or_concat' gap with rfl | ⟨gap, last, rfl⟩
    · exact .inl fun c hc => hkey c (by simpa using hc)
    · exact absurd (hgap last (by simp)) (hcore.last last (by simp))
  have hne : value ≠ [] := by simp [hvalue]
  have hkeyNe : key ≠ [] := by
    rintro rfl
    obtain ⟨c, tail, hc⟩ := List.exists_cons_of_ne_nil (List.append_ne_nil_of_right_ne_nil gap hne)
    have hfirst : (gap ++ value).head? = some c := by rw [hc, List.head?_cons]
    exact hcore.head c (by rw [List.nil_append, hfirst]) (hblank c hfirst)
  have hgapNe : gap ≠ [] := by
    rintro rfl
    obtain ⟨c, tail, rfl⟩ := List.exists_cons_of_ne_nil hne
    exact hhead c rfl (hblank c rfl)
  refine .inr ⟨key, gap, value, rfl, ⟨hkeyNe, hkey, fun heq => hcomment ?_⟩, hgap, hgapNe, hne, hhead,
    fun c hc => hcore.last c ?_⟩
  · rw [List.head?_append, heq]
    rfl
  · rw [List.getLast?_append, List.getLast?_append, hc]
    rfl

/-- A setting is found in its line. -/
theorem readLine_setting {key gap value : Str} (hbefore : ∀ c ∈ before, c ∈ blanks) (hkey : IsKey key)
    (hgap : ∀ c ∈ gap, c ∈ blanks) (hne : gap ≠ []) (hvalue : IsValue value)
    (hafter : ∀ c ∈ after, c ∈ blanks) :
    readLine (before ++ (key ++ (gap ++ value)) ++ after) params =
      some (key ++ (gap ++ value), SetConfig key value params) := by
  obtain ⟨first, tail, rfl⟩ := List.exists_cons_of_ne_nil hkey.ne_nil
  obtain ⟨blank, gap, rfl⟩ := List.exists_cons_of_ne_nil hne
  obtain ⟨v, rest, hv⟩ := List.exists_cons_of_ne_nil hvalue.ne_nil
  have hcore : IsValue (first :: tail ++ (blank :: gap ++ value)) := by
    refine ⟨by simp, fun c hc => ?_, fun c hc => ?_⟩
    · rw [List.cons_append, List.head?_cons, Option.some.injEq] at hc
      exact hc ▸ hkey.blank first List.mem_cons_self
    · obtain ⟨last, hlast⟩ : ∃ last, value.getLast? = some last :=
        ⟨_, List.getLast?_eq_some_getLast hvalue.ne_nil⟩
      rw [List.getLast?_append, List.getLast?_append, hlast] at hc
      exact hvalue.last c (hlast.trans hc)
  have hkeyEnd : findFirstOf blanks (first :: tail ++ (blank :: gap ++ value)) =
      some (first :: tail).length :=
    findIdx?_skip (fun c hc => by simpa using hkey.blank c hc)
      ⟨blank, gap ++ value, rfl, by simpa using hgap blank List.mem_cons_self⟩
  have hdrop : (first :: tail ++ (blank :: gap ++ value)).drop ((first :: tail).length + 1) =
      gap ++ value := by
    rw [← List.drop_drop, List.drop_left]
    rfl
  have hgapEnd : findFirstNotOf blanks (gap ++ value) = some gap.length :=
    findIdx?_skip (fun c hc => by simpa using hgap c (List.mem_cons_of_mem _ hc))
      ⟨v, rest, hv, by simpa using hvalue.head v (by simp [hv])⟩
  have hfirst : (first :: tail ++ (blank :: gap ++ value)).head? ≠ some '#' := hkey.comment
  rw [readLine_core hbefore hafter hcore, if_neg hfirst, hkeyEnd]
  dsimp only
  rw [hdrop, hgapEnd, Option.map_some, ← List.drop_drop, hdrop, List.drop_left, List.take_left]

/-- A comment is skipped. -/
theorem readLine_comment (rest : Str) (hbefore : ∀ c ∈ before, c ∈ blanks) :
    ∃ rest', readLine (before ++ '#' :: rest) params = some ('#' :: rest', params) := by
  obtain ⟨after, core, hrest, hafter, hlast⟩ := exists_span (· ∈ blanks) rest.reverse
  rw [List.reverse_eq_iff, List.reverse_append] at hrest
  simp only [decide_eq_true_eq, decide_eq_false_iff_not] at hafter hlast
  have hcore : IsValue ('#' :: core.reverse) := by
    refine ⟨List.cons_ne_nil _ _, fun c hc => ?_, fun c hc => ?_⟩
    · cases hc
      decide
    · rcases List.eq_nil_or_concat' core.reverse with hnil | ⟨init, last, hconcat⟩
      · rw [hnil, List.getLast?_singleton] at hc
        cases hc
        decide
      · rw [hconcat, ← List.cons_append, List.getLast?_concat] at hc
        refine hlast c ?_
        rwa [← List.getLast?_reverse, hconcat, List.getLast?_concat]
  refine ⟨core.reverse, ?_⟩
  have hline : before ++ '#' :: rest = before ++ '#' :: core.reverse ++ after.reverse := by simp [hrest]
  rw [hline, readLine_core hbefore (fun c hc => hafter c (List.mem_reverse.mp hc)) hcore,
    if_pos List.head?_cons]

/-- What a line that is allowed does; what is left in the variable means the same. -/
theorem readLine_meant {m : Option (Str × Str)} (h : Meant line m) :
    ∃ line', readLine line params = some (line', assign params m) ∧ Meant line' m := by
  cases h with
  | blank hline => exact ⟨line, readLine_blank hline, .blank hline⟩
  | comment rest hbefore =>
    obtain ⟨rest', hread⟩ := readLine_comment rest hbefore
    have hmeant := @Meant.comment [] rest' (by simp)
    exact ⟨_, hread, hmeant⟩
  | @setting before key gap value after hbefore hkey hgap hne hvalue hafter =>
    have hmeant := @Meant.setting [] key gap value [] (by simp) hkey hgap hne hvalue (by simp)
    rw [List.append_nil, List.nil_append] at hmeant
    exact ⟨_, readLine_setting hbefore hkey hgap hne hvalue hafter, hmeant⟩

/-- Each line is allowed, or refused. -/
theorem meant_or_refused (line : Str) : (∃ m, Meant line m) ∨ ∀ params, readLine line params = none := by
  obtain hblank | ⟨before, core, after, rfl, hbefore, hafter, hcore⟩ := blank_or_core line
  · exact .inl ⟨none, .blank hblank⟩
  by_cases hcomment : core.head? = some '#'
  · obtain ⟨rest, rfl⟩ := List.head?_eq_some_iff.mp hcomment
    refine .inl ⟨none, ?_⟩
    rw [List.append_assoc]
    exact .comment (rest ++ after) hbefore
  obtain hword | ⟨key, gap, value, rfl, hkey, hgap, hne, hvalue⟩ := word_or_setting hcore hcomment
  · refine .inr fun params => ?_
    have hnone : findFirstOf blanks core = none :=
      List.findIdx?_eq_none_iff.mpr fun c hc => by simpa using hword c hc
    rw [readLine_core hbefore hafter hcore, if_neg hcomment, hnone]
  · exact .inl ⟨_, .setting hbefore hkey hgap hne hvalue hafter⟩

end Lines

/-! ## The file -/

section Files

variable {params : Params} {lines : List Str} {ms : List (Option (Str × Str))}

theorem assign_twice (params : Params) (m : Option (Str × Str)) :
    assign (assign params m) m = assign params m := by
  cases m with
  | none => rfl
  | some setting =>
    funext p
    simp only [assign, SetConfig]
    split <;> rfl

/-- Of each parameter the last setting counts. -/
theorem foldl_assign (ms : List (Option (Str × Str))) (params : Params) :
    ms.foldl assign params = fun param => (lastSetting ms param).getD (params param) := by
  induction ms using List.reverseRecOn with
  | nil => rfl
  | append_singleton ms m ih =>
    funext param
    rw [List.foldl_concat, ih, lastSetting, List.reverse_concat, List.findSome?_cons]
    cases m with
    | none => rfl
    | some setting =>
      simp only [assign, SetConfig, Option.bind_some]
      by_cases hparam : param = UpperCase setting.1
      · rw [if_pos hparam, if_pos hparam]
        rfl
      · rw [if_neg hparam, if_neg hparam]
        rfl

/-- A last line that is read for a second time changes nothing. -/
theorem readLines_last {last : Str} {m : Option (Str × Str)} (h : Meant last m) :
    readLines [last] params = (true, assign params m) := by
  obtain ⟨line, hread, hmeant⟩ := @readLine_meant last params m h
  obtain ⟨line', hagain, -⟩ := @readLine_meant line (assign params m) m hmeant
  rw [readLines, hread]
  dsimp only
  split
  · rfl
  · rw [hagain, assign_twice]

theorem readLines_cons {line : Str} {m : Option (Str × Str)} (h : Meant line m) (hne : lines ≠ []) :
    readLines (line :: lines) params = readLines lines (assign params m) := by
  obtain ⟨line', hread, -⟩ := @readLine_meant line params m h
  rw [readLines, hread]
  exact hne

theorem readLines_meant (h : List.Forall₂ Meant lines ms) :
    readLines lines params = (true, ms.foldl assign params) := by
  induction h generalizing params with
  | nil => rfl
  | @cons line m lines ms hmeant hlines ih =>
    cases lines with
    | nil =>
      cases hlines
      exact readLines_last hmeant
    | cons next lines => rw [readLines_cons hmeant (List.cons_ne_nil _ _), ih, List.foldl_cons]

theorem readLines_refused {good rest : List Str} {bad : Str} (h : List.Forall₂ Meant good ms)
    (hbad : ∀ params, readLine bad params = none) :
    readLines (good ++ bad :: rest) params = (false, ms.foldl assign params) := by
  induction h generalizing params with
  | nil =>
    cases rest with
    | nil => rw [List.nil_append, readLines, hbad]; rfl
    | cons next rest => rw [List.nil_append, readLines, hbad]; exacts [rfl, List.cons_ne_nil _ _]
  | cons hmeant _ ih => rw [List.cons_append, readLines_cons hmeant (by simp), ih, List.foldl_cons]

/-- All lines are allowed, or there is a first one that is refused. -/
theorem lines_cases (lines : List Str) : (∃ ms, List.Forall₂ Meant lines ms) ∨
    ∃ good bad rest ms, lines = good ++ bad :: rest ∧ List.Forall₂ Meant good ms ∧
      ∀ params, readLine bad params = none := by
  induction lines with
  | nil => exact .inl ⟨[], .nil⟩
  | cons line lines ih =>
    obtain ⟨m, hmeant⟩ | hrefused := meant_or_refused line
    · obtain ⟨ms, hlines⟩ | ⟨good, bad, rest, ms, rfl, hlines, hbad⟩ := ih
      · exact .inl ⟨m :: ms, .cons hmeant hlines⟩
      · exact .inr ⟨line :: good, bad, rest, m :: ms, rfl, .cons hmeant hlines, hbad⟩
    · exact .inr ⟨[], line, lines, [], rfl, .nil, hrefused⟩

/-- **The file is read as it is meant**, for every text. -/
theorem readConfig_reads (text : Str) (params : Params) :
    Reads text params (ReadConfig (some text) params) := by
  obtain ⟨ms, hlines⟩ | ⟨good, bad, rest, ms, htext, hlines, hrefused⟩ := lines_cases (text.splitOn '\n')
  · rw [ReadConfig, readLines_meant hlines, foldl_assign]
    exact .accepted hlines
  · have hbad : ¬ ∃ m, Meant bad m := by
      rintro ⟨m, hmeant⟩
      obtain ⟨line', hread, -⟩ := @readLine_meant bad params m hmeant
      rw [hrefused] at hread
      cases hread
    rw [ReadConfig, htext, readLines_refused hlines hrefused, foldl_assign]
    exact .refused htext hlines hbad

/-- A file with one line for each setting. -/
def written (settings : List (Str × Str)) : Str :=
  settings.flatMap fun setting => setting.1 ++ ' ' :: setting.2 ++ ['\n']

theorem splitOn_written {settings : List (Str × Str)}
    (hlines : ∀ s ∈ settings, '\n' ∉ s.1 ∧ '\n' ∉ s.2) :
    (written settings).splitOn '\n' = settings.map (fun s => s.1 ++ ' ' :: s.2) ++ [[]] := by
  induction settings with
  | nil => rfl
  | cons setting settings ih =>
    rw [List.forall_mem_cons] at hlines
    have hfirst : '\n' ∉ setting.1 ++ ' ' :: setting.2 := by
      rw [List.mem_append, List.mem_cons]
      rintro (hin | heq | hin)
      · exact hlines.1.1 hin
      · exact absurd heq (by decide)
      · exact hlines.1.2 hin
    have htext : written (setting :: settings) =
        (setting.1 ++ ' ' :: setting.2) ++ '\n' :: written settings := by
      simp [written]
    have hword : (setting.1 ++ ' ' :: setting.2).splitOnP (· == '\n') = [setting.1 ++ ' ' :: setting.2] :=
      List.splitOnP_eq_singleton fun c hc => beq_eq_false_iff_ne.mpr fun heq => hfirst (heq ▸ hc)
    rw [htext, List.map_cons, List.cons_append, ← ih hlines.2, List.splitOn,
      List.splitOnP_append_cons (p := (· == '\n')) _ _ (beq_self_eq_true '\n'), hword]
    rfl

/-- **What is written is read**: of each parameter the last setting counts, in capital letters. -/
theorem readConfig_written {settings : List (Str × Str)}
    (hsettings : ∀ s ∈ settings, IsKey s.1 ∧ IsValue s.2)
    (hlines : ∀ s ∈ settings, '\n' ∉ s.1 ∧ '\n' ∉ s.2)
    (params : Params) : ReadConfig (some (written settings)) params =
      (true, fun param => (lastSetting (settings.map some) param).getD (params param)) := by
  have hmeant : List.Forall₂ Meant (settings.map (fun s => s.1 ++ ' ' :: s.2) ++ [[]])
      (settings.map some ++ [none]) := by
    refine List.rel_append (List.forall₂_map_left_iff.mpr (List.forall₂_map_right_iff.mpr
      (List.forall₂_same.mpr fun s hs => ?_))) (.cons (.blank (by simp)) .nil)
    have hline := @Meant.setting [] s.1 [' '] s.2 [] (by simp) (hsettings s hs).1 (by simp [blanks])
      (by simp) (hsettings s hs).2 (by simp)
    simpa using hline
  rw [ReadConfig, splitOn_written hlines, readLines_meant hmeant, List.foldl_concat, foldl_assign]
  rfl

theorem readConfig_written_port :
    ReadConfig (some "Port 3128\nTRANSPARENT yes\nport 8080\ntransparent True\n".toList) (fun _ => []) =
      (true, fun param => (lastSetting ([("Port".toList, "3128".toList),
        ("TRANSPARENT".toList, "yes".toList), ("port".toList, "8080".toList),
        ("transparent".toList, "True".toList)].map some) param).getD []) :=
  @readConfig_written [("Port".toList, "3128".toList), ("TRANSPARENT".toList, "yes".toList),
      ("port".toList, "8080".toList), ("transparent".toList, "True".toList)]
    (by decide +kernel) (by decide +kernel) _

end Files

/-! ## The test -/

section Test

variable {isAddress : Str → Bool} {params params' : Params} {param : Str}

/-- What `testAddress` leaves. -/
theorem testAddress_ok (h : testAddress isAddress param params = (true, params'))
    (hparam : UpperCase param = param) :
    (params' param = [] ∨ isAddress (params' param) = true) ∧ ∀ p, p ≠ param → params' p = params p := by
  have hothers : ∀ p, p ≠ param → (if params param = "NULL".toList then SetConfig param [] params
      else params) p = params p := by
    intro p hp
    split
    · rw [SetConfig, hparam, if_neg hp]
    · rfl
  rw [testAddress] at h
  generalize (if params param = "NULL".toList then SetConfig param [] params else params) = nulled
    at h hothers
  by_cases haddress : nulled param ≠ [] ∧ isAddress (nulled param) = false
  · rw [if_pos haddress] at h
    exact absurd (congrArg Prod.fst h) Bool.false_ne_true
  · rw [if_neg haddress] at h
    cases h
    refine ⟨?_, hothers⟩
    by_cases hempty : params' param = []
    · exact .inl hempty
    · exact .inr (Bool.eq_true_of_not_eq_false fun hfalse => haddress ⟨hempty, hfalse⟩)

/-- What is made sure of. -/
structure Sane (isAddress : Str → Bool) (params : Params) : Prop where
  servers : 1 ≤ GetConfigInt "SERVERNUMBER".toList params
  logs : (params "ACCESSLOG".toList).take 1 = ['/'] ∧ (params "ERRORLOG".toList).take 1 = ['/']
  bindAddress : params "BIND_ADDRESS".toList = [] ∨ isAddress (params "BIND_ADDRESS".toList) = true
  sourceAddress : params "SOURCE_ADDRESS".toList = [] ∨ isAddress (params "SOURCE_ADDRESS".toList) = true
  parent : params "PARENTPROXY".toList ≠ [] → 1 ≤ GetConfigInt "PARENTPORT".toList params

/-- An accepted configuration is sane, and only the addresses are other than they were read. -/
theorem testConfig_sane (h : TestConfig isAddress params = (true, params')) :
    Sane isAddress params' ∧ ∀ p, p ≠ "BIND_ADDRESS".toList → p ≠ "SOURCE_ADDRESS".toList →
      params' p = params p := by
  rw [TestConfig] at h
  split at h
  · exact absurd (congrArg Prod.fst h) Bool.false_ne_true
  rename_i hservers
  split at h
  · exact absurd (congrArg Prod.fst h) Bool.false_ne_true
  rename_i hlogs
  rcases hbind : testAddress isAddress "BIND_ADDRESS".toList params with ⟨ok, bound⟩
  rw [hbind] at h
  dsimp only at h
  cases ok with
  | false => exact absurd (congrArg Prod.fst h) Bool.false_ne_true
  | true =>
    rcases hsource : testAddress isAddress "SOURCE_ADDRESS".toList bound with ⟨ok, sourced⟩
    rw [hsource] at h
    dsimp only at h
    cases ok with
    | false => exact absurd (congrArg Prod.fst h) Bool.false_ne_true
    | true =>
      rw [Bool.not_true, if_neg Bool.false_ne_true, if_neg Bool.false_ne_true] at h
      split at h
      · exact absurd (congrArg Prod.fst h) Bool.false_ne_true
      rename_i hparent
      cases h
      obtain ⟨hbound, hothers⟩ := testAddress_ok hbind (by decide)
      obtain ⟨hsourced, hothers'⟩ := testAddress_ok hsource (by decide)
      have heq : ∀ p, p ≠ "BIND_ADDRESS".toList → p ≠ "SOURCE_ADDRESS".toList → params' p = params p :=
        fun p hp hp' => (hothers' p hp').trans (hothers p hp)
      refine ⟨⟨?_, ?_, ?_, hsourced, ?_⟩, heq⟩
      · rw [GetConfigInt, heq _ (by decide) (by decide)]
        exact not_lt.mp hservers
      · rw [heq _ (by decide) (by decide), heq _ (by decide) (by decide)]
        exact not_not.mp fun hne => hlogs (not_and_or.mp hne)
      · rw [hothers' _ (by decide)]
        exact hbound
      · intro hproxy
        exact not_lt.mp fun hlt => hparent ⟨hproxy, hlt⟩

/-- **The proxy runs with a sane configuration only**: what is read from the file, but for the word `NULL`
of an address. -/
theorem setParams_sane {text : Option Str} {defaults : Params}
    (h : SetParams isAddress text defaults = (true, params')) :
    Sane isAddress params' ∧ ∃ read, ReadConfig text defaults = (true, read) ∧
      ∀ p, p ≠ "BIND_ADDRESS".toList → p ≠ "SOURCE_ADDRESS".toList → params' p = read p := by
  rw [SetParams] at h
  rcases hread : ReadConfig text defaults with ⟨ok, read⟩
  rw [hread] at h
  dsimp only at h
  cases ok with
  | false =>
    rw [Bool.not_false, if_pos rfl] at h
    exact absurd (congrArg Prod.fst h) Bool.false_ne_true
  | true =>
    rw [Bool.not_true, if_neg Bool.false_ne_true] at h
    obtain ⟨hsane, hothers⟩ := testConfig_sane h
    exact ⟨hsane, read, rfl, hothers⟩

theorem testAddress_of_ok (hnull : params param ≠ "NULL".toList)
    (h : params param = [] ∨ isAddress (params param) = true) :
    testAddress isAddress param params = (true, params) := by
  rw [testAddress, if_neg hnull]
  refine if_neg ?_
  rintro ⟨hne, hfalse⟩
  rcases h with hempty | htrue
  · exact hne hempty
  · rw [hfalse] at htrue
    cases htrue

/-- A sane configuration is accepted as it is, if it does not use the word `NULL`. -/
theorem testConfig_of_sane (h : Sane isAddress params)
    (hbind : params "BIND_ADDRESS".toList ≠ "NULL".toList)
    (hsource : params "SOURCE_ADDRESS".toList ≠ "NULL".toList) :
    TestConfig isAddress params = (true, params) := by
  have hlogs : ¬ ((params "ACCESSLOG".toList).take 1 ≠ ['/'] ∨
      (params "ERRORLOG".toList).take 1 ≠ ['/']) := by
    rw [not_or, not_not, not_not]
    exact h.logs
  have hparent : ¬ (params "PARENTPROXY".toList ≠ [] ∧
      GetConfigInt "PARENTPORT".toList params < 1) := fun ⟨hproxy, hlt⟩ =>
    not_le.mpr hlt (h.parent hproxy)
  rw [TestConfig, if_neg (not_lt.mpr h.servers), if_neg hlogs,
    testAddress_of_ok hbind h.bindAddress]
  dsimp only
  rw [testAddress_of_ok hsource h.sourceAddress]
  exact if_neg hparent

section Defaults

variable {ACCESSLOG ERRORLOG PIDFILE : Str}

/-- Paths are no words. -/
theorem normalised_path {path : Str} (h : path.head? = some '/') : normalised path = path := by
  obtain ⟨rest, rfl⟩ : ∃ rest, path = '/' :: rest := List.head?_eq_some_iff.mp h
  exact if_neg fun hword => by rcases hword with hword | hword <;> cases hword

/-- The defaults are sane, when the paths of the logs are absolute. -/
theorem sane_defaults (haccess : ACCESSLOG.head? = some '/') (herror : ERRORLOG.head? = some '/') :
    Sane isAddress (SetDefaults ACCESSLOG ERRORLOG PIDFILE) := by
  have habsolute : ∀ {path : Str}, path.head? = some '/' → (normalised path).take 1 = ['/'] := by
    intro path h
    rw [normalised_path h]
    obtain ⟨rest, rfl⟩ : ∃ rest, path = '/' :: rest := List.head?_eq_some_iff.mp h
    rfl
  have hservers : SetDefaults ACCESSLOG ERRORLOG PIDFILE "SERVERNUMBER".toList = ['8'] := rfl
  refine ⟨?_, ⟨habsolute haccess, habsolute herror⟩, .inl rfl, .inl rfl, fun hproxy => absurd rfl hproxy⟩
  rw [GetConfigInt, hservers]
  decide

/-- **A file that sets nothing is accepted**, and leaves the defaults. -/
theorem setParams_defaults {text : Str} (haccess : ACCESSLOG.head? = some '/')
    (herror : ERRORLOG.head? = some '/') (htext : ∀ line ∈ text.splitOn '\n', Meant line none) :
    SetParams isAddress (some text) (SetDefaults ACCESSLOG ERRORLOG PIDFILE) =
      (true, SetDefaults ACCESSLOG ERRORLOG PIDFILE) := by
  have hlines : List.Forall₂ Meant (text.splitOn '\n') ((text.splitOn '\n').map fun _ => none) :=
    List.forall₂_map_right_iff.mpr (List.forall₂_same.mpr htext)
  have hnothing : ∀ (lines : List Str) (params : Params),
      (lines.map fun _ => none).foldl assign params = params := by
    intro lines params
    induction lines with
    | nil => rfl
    | cons line lines ih => exact ih
  have hbind : SetDefaults ACCESSLOG ERRORLOG PIDFILE "BIND_ADDRESS".toList = [] := rfl
  have hsource : SetDefaults ACCESSLOG ERRORLOG PIDFILE "SOURCE_ADDRESS".toList = [] := rfl
  rw [SetParams, ReadConfig, readLines_meant hlines, hnothing]
  dsimp only
  rw [Bool.not_true, if_neg Bool.false_ne_true]
  exact testConfig_of_sane (sane_defaults haccess herror) (by rw [hbind]; decide)
    (by rw [hsource]; decide)

end Defaults

end Test

end Params

end Haarp
