import Haarp.Utils.Search
import Haarp.Utils.Users
import Mathlib.Data.List.Sort

/-!
# The history as a text

`lusercache2str` writes the ten latest users of a file into the column `users`, and `str2lusercache`
reads them back. Addresses come from the client: a comma, a semicolon or a NUL in one of them
breaks the round trip (`str2lusercache_lusercache2str_iff`), and a long one overflows the buffer of a
record (`lusercache2str_fits_iff`).
-/

namespace Haarp

open Base

/-! ## Writing -/

/-- `compareUserCache` -/
def compareUserCache (l1 l2 : Usercache) : Prop := l2.date_modified < l1.date_modified

instance (l1 l2 : Usercache) : Decidable (compareUserCache l1 l2) :=
  inferInstanceAs (Decidable (l2.date_modified < l1.date_modified))

/-- `luc.sort(compareUserCache)`: stable, the latest users come first. -/
def sortUserCache (luc : Lusercache) : Lusercache :=
  luc.insertionSort fun l1 l2 => ¬ compareUserCache l2 l1

/-- `LIMIT_USER_CACHE_DB` -/
def limitUserCacheDb : Nat := 10

/-- `"%s,%li,%li,%lli,%lli"` -/
def userText (u : Usercache) : Str :=
  cStr u.ip ++ ',' :: longText u.date_downloaded.toInt ++ ',' :: longText u.date_modified.toInt ++
    ',' :: longText u.bytes_acumulate.toInt ++ ',' :: longText u.bytes_requested.toInt

/-- The loop of `lusercache2str`. The record goes to `user[100]` with the NUL behind it; `none` when it
does not fit. -/
def lusercache2strLoop (lsize : Nat) : Nat → Str → Lusercache → Option Str
  | _, re, [] => some re
  | limit_users, re, it :: luc =>
    let user := userText it
    if 99 < user.length then none
    else
      -- the first node is `luc.begin()`
      let re := if limit_users = 0 then user else re ++ ';' :: user
      if lsize ≤ limit_users + 1 then some re
      else lusercache2strLoop lsize (limit_users + 1) re luc

/-- `lusercache2str` -/
def lusercache2str (luc : Lusercache) : Option Str :=
  let luc := sortUserCache luc
  lusercache2strLoop (min luc.length limitUserCacheDb) 0 [] luc

/-! ## Reading -/

/-- `sscanf` with `%li` or `%lli` into a variable with the value `old`. -/
def sscanf (old : Int64) (text : Str) : Int64 :=
  let str := text.dropWhile isspace
  let digits := if str.head? = some '-' ∨ str.head? = some '+' then str.tail else str
  if digits.head?.any Char.isDigit then Int64.ofInt (atoll text) else old

/-- The loop of `str2lusercache`, with the variable `n` that it fills again and again. -/
def str2lusercacheLoop : Usercache → List Str → Bool × Lusercache
  | _, [] => (true, [])
  | n, luser :: lusers =>
    match stringexplode luser [','] with
    | [ip, date_downloaded, date_modified, bytes_acumulate, bytes_requested] =>
      let n : Usercache :=
        { ip
          date_downloaded := sscanf n.date_downloaded date_downloaded
          date_modified := sscanf n.date_modified date_modified
          bytes_acumulate := sscanf n.bytes_acumulate bytes_acumulate
          bytes_requested := sscanf n.bytes_requested bytes_requested }
      let (re, lre) := str2lusercacheLoop n lusers
      (re, n :: lre)
    | _ => (false, [])

/-- `str2lusercache`: what it returns, and the list `lre`; `n` is the local variable before anything
is assigned to it. -/
def str2lusercache (n : Usercache) (str : Str) : Bool × Lusercache :=
  str2lusercacheLoop n (stringexplode str [';'])

/-! ## The users that are kept -/

/-- The users that `lusercache2str` writes. -/
def keptUsers (luc : Lusercache) : Lusercache := (sortUserCache luc).take limitUserCacheDb

section Sorting

instance : Std.Total fun l1 l2 : Usercache => ¬ compareUserCache l2 l1 where
  total l1 l2 := by
    simp only [compareUserCache, Int64.lt_iff_toInt_lt]
    omega

instance : IsTrans Usercache fun l1 l2 => ¬ compareUserCache l2 l1 where
  trans l1 l2 l3 := by
    simp only [compareUserCache, Int64.lt_iff_toInt_lt]
    omega

/-- The sort: the same users, the latest first, those of one date in the order of the list. -/
theorem sortUserCache_spec (luc : Lusercache) :
    (sortUserCache luc).Perm luc ∧
      (sortUserCache luc).Pairwise (fun l1 l2 => l2.date_modified ≤ l1.date_modified) ∧
      ∀ date, ((sortUserCache luc).filter fun u => u.date_modified = date) =
        luc.filter fun u => u.date_modified = date := by
  have hperm : (sortUserCache luc).Perm luc := List.perm_insertionSort _ luc
  refine ⟨hperm, ?_, fun date => ?_⟩
  · have hsorted : (sortUserCache luc).Pairwise fun l1 l2 => ¬ compareUserCache l2 l1 :=
      List.pairwise_insertionSort _ luc
    refine hsorted.imp fun {l1 l2} h => ?_
    rw [compareUserCache, Int64.lt_iff_toInt_lt, not_lt] at h
    exact Int64.le_iff_toInt_le.mpr h
  · have hpairwise : (luc.filter fun u => u.date_modified = date).Pairwise
        fun l1 l2 => ¬ compareUserCache l2 l1 := by
      refine List.pairwise_of_forall_mem_list fun l1 h1 l2 h2 => ?_
      have h1' := of_decide_eq_true (List.mem_filter.mp h1).2
      have h2' := of_decide_eq_true (List.mem_filter.mp h2).2
      rw [compareUserCache, h1', h2', Int64.lt_iff_toInt_lt]
      exact lt_irrefl _
    have hsub : (luc.filter fun u => u.date_modified = date).Sublist (sortUserCache luc) :=
      List.sublist_insertionSort hpairwise List.filter_sublist
    have hsub' := hsub.filter fun u => u.date_modified = date
    simp only [List.filter_filter, Bool.and_self] at hsub'
    exact (hsub'.eq_of_length (hperm.filter _).length_eq.symm).symm

end Sorting

theorem mem_of_mem_keptUsers {luc : Lusercache} {u : Usercache} (hu : u ∈ keptUsers luc) : u ∈ luc :=
  (sortUserCache_spec luc).1.mem_iff.mp (List.mem_of_mem_take hu)

/-! ## What is written -/

/-- The records of `users` with semicolons between them. -/
def joinUsers (users : Lusercache) : Str := (users.flatMap fun u => ';' :: userText u).tail

theorem lusercache2strLoop_eq {lsize limit_users : Nat} (hlimit : 0 < limit_users)
    (hlsize : limit_users < lsize) (re : Str) (luc : Lusercache) :
    lusercache2strLoop lsize limit_users re luc =
      if ∀ u ∈ luc.take (lsize - limit_users), (userText u).length ≤ 99 then
        some (re ++ (luc.take (lsize - limit_users)).flatMap fun u => ';' :: userText u)
      else none := by
  induction luc generalizing limit_users re with
  | nil => simp [lusercache2strLoop]
  | cons it luc ih =>
    obtain ⟨k, hk⟩ : ∃ k, lsize - limit_users = k + 1 := ⟨lsize - limit_users - 1, by omega⟩
    rw [lusercache2strLoop, hk, List.take_succ_cons]
    by_cases hfit : (userText it).length ≤ 99
    · simp only [if_neg (not_lt.mpr hfit), if_neg (Nat.ne_of_gt hlimit), List.forall_mem_cons, hfit,
        true_and, List.flatMap_cons]
      by_cases hlast : lsize ≤ limit_users + 1
      · obtain rfl : k = 0 := by omega
        simp [hlast]
      · have hrest : lsize - (limit_users + 1) = k := by omega
        rw [if_neg hlast, ih (Nat.succ_pos _) (by omega), hrest, List.append_assoc]
    · simp [not_le.mp hfit, hfit]

theorem lusercache2str_eq (luc : Lusercache) :
    lusercache2str luc =
      if ∀ u ∈ keptUsers luc, (userText u).length ≤ 99 then some (joinUsers (keptUsers luc))
      else none := by
  unfold lusercache2str keptUsers
  generalize sortUserCache luc = sorted
  cases sorted with
  | nil => simp [lusercache2strLoop, joinUsers]
  | cons it luc =>
    have htake : (it :: luc).take limitUserCacheDb = it :: luc.take 9 := rfl
    rw [htake, lusercache2strLoop, joinUsers]
    by_cases hfit : (userText it).length ≤ 99
    · simp only [if_neg (not_lt.mpr hfit), if_true, List.forall_mem_cons, hfit, true_and,
        List.flatMap_cons, List.cons_append, List.tail_cons, Nat.zero_add]
      by_cases hlast : min (it :: luc).length limitUserCacheDb ≤ 1
      · have hnil : luc = [] := by
          rw [List.length_cons, limitUserCacheDb] at hlast
          exact List.length_eq_zero_iff.mp (by omega)
        subst hnil
        simp [limitUserCacheDb]
      · have hcount : luc.take (min (it :: luc).length limitUserCacheDb - 1) = luc.take 9 := by
          rw [List.take_eq_take_iff, List.length_cons, limitUserCacheDb]
          omega
        rw [if_neg hlast, lusercache2strLoop_eq Nat.one_pos (not_le.mp hlast), hcount]
    · simp [not_le.mp hfit, hfit]

/-! ## What is read back -/

/-- `atoll` of what `longText` writes, also with a sign. -/
theorem atoll_longText_of_fits {n : Int} (hmin : -llongMax - 1 ≤ n) (hmax : n ≤ llongMax) :
    atoll (longText n) = n := by
  cases n with
  | ofNat n => exact atoll_longText (Int.natCast_nonneg n) hmax
  | negSucc n =>
    have hdigits : (Nat.toDigits 10 (n + 1)).takeWhile Char.isDigit = Nat.toDigits 10 (n + 1) :=
      takeWhile_isDigit fun c hc => Nat.isDigit_of_mem_toDigits (by decide) (by decide) hc
    have hvalue : Nat.ofDigitChars 10 (Nat.toDigits 10 (n + 1)) 0 = n + 1 :=
      Nat.ofDigitChars_ten_toDigits
    have hdrop : ('-' :: Nat.toDigits 10 (n + 1)).dropWhile isspace = '-' :: Nat.toDigits 10 (n + 1) :=
      List.dropWhile_cons_of_neg (by decide)
    simp only [longText, atoll, hdrop, List.head?_cons, true_or, if_true, List.tail_cons, hdigits, hvalue]
    rw [Int.negSucc_eq] at hmin ⊢
    push_cast
    exact max_eq_right hmin

/-- A number is read back, whatever the variable held. -/
theorem sscanf_longText (old x : Int64) : sscanf old (longText x.toInt) = x := by
  have hvalue : atoll (longText x.toInt) = x.toInt := by
    have hmin := x.le_toInt
    have hmax := x.toInt_lt
    refine atoll_longText_of_fits ?_ ?_ <;> unfold llongMax <;> omega
  have hfirst : ∀ n : Nat, ∃ c w, Nat.toDigits 10 n = c :: w ∧ c.isDigit = true := by
    intro n
    obtain ⟨c, w, hw⟩ := List.exists_cons_of_ne_nil (Nat.toDigits_ne_nil (n := n) (b := 10))
    exact ⟨c, w, hw, Nat.isDigit_of_mem_toDigits (by decide) (by decide) (hw ▸ List.mem_cons_self)⟩
  have hscan : sscanf old (longText x.toInt) = Int64.ofInt (atoll (longText x.toInt)) := by
    cases x.toInt with
    | ofNat n =>
      obtain ⟨c, w, hw, hc⟩ := hfirst n
      have hminus : c ≠ '-' := fun h => absurd (h ▸ hc) (by decide)
      have hplus : c ≠ '+' := fun h => absurd (h ▸ hc) (by decide)
      simp [sscanf, longText, hw, isspace_of_isDigit hc, hminus, hplus, hc]
    | negSucc n =>
      obtain ⟨c, w, hw, hc⟩ := hfirst (n + 1)
      have hspace : isspace '-' = false := by decide
      simp [sscanf, longText, hw, hspace, hc]
  rw [hscan, hvalue, Int64.ofInt_toInt]

/-- The characters of a number are digits and the sign. -/
theorem mem_longText {n : Int} {c : Char} (hc : c ∈ longText n) : c.isDigit = true ∨ c = '-' := by
  cases n with
  | ofNat n => exact .inl (Nat.isDigit_of_mem_toDigits (by decide) (by decide) hc)
  | negSucc n =>
    rcases List.mem_cons.mp hc with rfl | hc
    · exact .inr rfl
    · exact .inl (Nat.isDigit_of_mem_toDigits (by decide) (by decide) hc)

/-- The parts of a record. -/
def userFields (u : Usercache) : List Str :=
  [cStr u.ip, longText u.date_downloaded.toInt, longText u.date_modified.toInt,
    longText u.bytes_acumulate.toInt, longText u.bytes_requested.toInt]

theorem userText_eq (u : Usercache) : ',' :: userText u = (userFields u).flatMap (',' :: ·) := by
  simp [userText, userFields]

/-- A character that is no digit, sign or comma is in a record only when the address has it. -/
theorem mem_userText {u : Usercache} {c : Char} (hc : c ∈ userText u) (hdigit : c.isDigit = false)
    (hminus : c ≠ '-') (hcomma : c ≠ ',') : c ∈ cStr u.ip := by
  have hnot : ∀ n : Int, c ∉ longText n := by
    intro n hmem
    rcases mem_longText hmem with h | h
    · exact absurd (hdigit.symm.trans h) (by decide)
    · exact hminus h
  simpa [userText, hnot, hcomma] using hc

theorem not_mem_cStr (str : Str) : Char.ofNat 0 ∉ cStr str :=
  fun h => absurd (List.mem_takeWhile_imp h) (by simp)

/-- An address that comes back as it is. -/
structure PlainAddress (ip : Str) : Prop where
  ne_nil : ip ≠ []
  comma : ',' ∉ ip
  semicolon : ';' ∉ ip
  nul : Char.ofNat 0 ∉ ip

theorem stringexplode_userText {u : Usercache} (hip : PlainAddress u.ip) :
    stringexplode (userText u) [','] = [u.ip, longText u.date_downloaded.toInt,
      longText u.date_modified.toInt, longText u.bytes_acumulate.toInt,
      longText u.bytes_requested.toInt] := by
  have hfields : userFields u = u.ip :: (userFields u).tail := by
    rw [userFields, cStr_eq_self hip.nul]
    rfl
  have hsplit : stringexplode ((userFields u).flatMap (',' :: ·)) [','] = userFields u := by
    refine stringexplode_flatMap fun w hw => ?_
    rw [hfields] at hw
    rcases List.mem_cons.mp hw with rfl | hw
    · exact ⟨hip.ne_nil, hip.comma⟩
    · have hnumber : ∃ n, w = longText n := by
        simp only [userFields, List.tail_cons, List.mem_cons, List.not_mem_nil, or_false] at hw
        rcases hw with rfl | rfl | rfl | rfl <;> exact ⟨_, rfl⟩
      obtain ⟨n, rfl⟩ := hnumber
      refine ⟨longText_ne_nil n, fun hmem => ?_⟩
      rcases mem_longText hmem with h | h
      · exact absurd h (by decide)
      · exact absurd h (by decide)
  rw [← userText_eq, stringexplode_cons (by simp), hfields] at hsplit
  exact hsplit

/-- The records of users with such addresses, read one after the other. -/
theorem str2lusercacheLoop_userTexts (users : Lusercache) (hips : ∀ u ∈ users, PlainAddress u.ip)
    (n : Usercache) : str2lusercacheLoop n (users.map userText) = (true, users) := by
  induction users generalizing n with
  | nil => rfl
  | cons u users ih =>
    have hu := stringexplode_userText (hips u List.mem_cons_self)
    have hrest : ∀ n, str2lusercacheLoop n (users.map userText) = (true, users) :=
      ih fun v hv => hips v (List.mem_cons_of_mem u hv)
    rw [List.map_cons, str2lusercacheLoop, hu]
    simp only [sscanf_longText, hrest]

theorem stringexplode_joinUsers {users : Lusercache} (hips : ∀ u ∈ users, PlainAddress u.ip) :
    stringexplode (joinUsers users) [';'] = users.map userText := by
  have hsplit : stringexplode (users.flatMap fun u => ';' :: userText u) [';'] = users.map userText := by
    have hmap : (users.flatMap fun u => ';' :: userText u) = (users.map userText).flatMap (';' :: ·) := by
      rw [List.flatMap_map]
    rw [hmap]
    refine stringexplode_flatMap fun w hw => ?_
    obtain ⟨u, hu, rfl⟩ := List.mem_map.mp hw
    refine ⟨by simp [userText], fun hmem => ?_⟩
    have hip := mem_userText hmem (by decide) (by decide) (by decide)
    exact (hips u hu).semicolon ((List.takeWhile_prefix _).subset hip)
  cases users with
  | nil => rfl
  | cons _ users =>
    rw [List.flatMap_cons, List.cons_append, stringexplode_cons (by simp)] at hsplit
    exact hsplit

/-- An address that is read has no comma, and only characters that are in its record. -/
theorem str2lusercacheLoop_ip (lusers : List Str) (n : Usercache) :
    ∀ u ∈ (str2lusercacheLoop n lusers).2,
      ',' ∉ u.ip ∧ ∃ luser ∈ lusers, ∀ c ∈ u.ip, c ∈ luser := by
  induction lusers generalizing n with
  | nil => exact fun u hu => absurd hu List.not_mem_nil
  | cons luser lusers ih =>
    intro u hu
    rw [str2lusercacheLoop] at hu
    split at hu
    · rename_i ip _ _ _ _ hsplit
      have hmem : ip ∈ stringexplode luser [','] := hsplit ▸ List.mem_cons_self
      rcases List.mem_cons.mp hu with rfl | hu
      · refine ⟨fun h => not_mem_of_mem_stringexplode hmem ',' h List.mem_cons_self, ?_⟩
        exact ⟨luser, List.mem_cons_self, subset_of_mem_stringexplode hmem⟩
      · obtain ⟨hcomma, luser', hluser', hsub⟩ := ih _ u hu
        exact ⟨hcomma, luser', List.mem_cons_of_mem luser hluser', hsub⟩
    · exact absurd hu List.not_mem_nil

/-! ## The round trip -/

theorem length_userText (u : Usercache) :
    (userText u).length = (cStr u.ip).length + (longText u.date_downloaded.toInt).length +
      (longText u.date_modified.toInt).length + (longText u.bytes_acumulate.toInt).length +
      (longText u.bytes_requested.toInt).length + 4 := by
  simp only [userText, List.length_append, List.length_cons]
  omega

/-- **The history survives the database** exactly when every address that is kept has no comma, no
semicolon and no NUL, and leaves room for the numbers. -/
theorem str2lusercache_lusercache2str_iff (calls : List UserCall) (n : Usercache) :
    (∃ str, lusercache2str (addUserCaches [] calls) = some str ∧
      str2lusercache n str = (true, keptUsers (addUserCaches [] calls))) ↔
    ∀ u ∈ keptUsers (addUserCaches [] calls), ',' ∉ u.ip ∧ ';' ∉ u.ip ∧ Char.ofNat 0 ∉ u.ip ∧
      u.ip.length + (longText u.date_downloaded.toInt).length +
        (longText u.date_modified.toInt).length + (longText u.bytes_acumulate.toInt).length +
        (longText u.bytes_requested.toInt).length + 4 ≤ 99 := by
  have hne : ∀ u ∈ keptUsers (addUserCaches [] calls), u.ip ≠ [] := fun u hu =>
    (addUserCaches_built calls u (mem_of_mem_keptUsers hu)).ip_ne_nil
  generalize addUserCaches [] calls = luc at hne
  rw [lusercache2str_eq]
  constructor
  · rintro ⟨str, hstr, hread⟩
    split at hstr
    · rename_i hfit
      cases hstr
      intro u hu
      have hmem : u ∈ (str2lusercache n (joinUsers (keptUsers luc))).2 := by rwa [hread]
      obtain ⟨hcomma, luser, hluser, hsub⟩ := str2lusercacheLoop_ip _ n u hmem
      have hsemicolon : ';' ∉ u.ip := fun h =>
        not_mem_of_mem_stringexplode hluser ';' (hsub ';' h) List.mem_cons_self
      have hnul : Char.ofNat 0 ∉ u.ip := by
        intro h
        have hjoin := subset_of_mem_stringexplode hluser _ (hsub _ h)
        obtain ⟨v, -, hv⟩ := List.mem_flatMap.mp (List.mem_of_mem_tail hjoin)
        have hv' := (List.mem_cons.mp hv).resolve_left (by decide)
        exact not_mem_cStr v.ip (mem_userText hv' (by decide) (by decide) (by decide))
      have hlength := hfit u hu
      rw [length_userText, cStr_eq_self hnul] at hlength
      exact ⟨hcomma, hsemicolon, hnul, hlength⟩
    · cases hstr
  · intro h
    have hfit : ∀ u ∈ keptUsers luc, (userText u).length ≤ 99 := by
      intro u hu
      obtain ⟨-, -, hnul, hlength⟩ := h u hu
      rwa [length_userText, cStr_eq_self hnul]
    have hips : ∀ u ∈ keptUsers luc, PlainAddress u.ip := fun u hu =>
      ⟨hne u hu, (h u hu).1, (h u hu).2.1, (h u hu).2.2.1⟩
    refine ⟨joinUsers (keptUsers luc), if_pos hfit, ?_⟩
    rw [str2lusercache, stringexplode_joinUsers hips]
    exact str2lusercacheLoop_userTexts _ hips n

/-- An `X-Forwarded-For` value of two addresses without a blank between them. -/
theorem not_str2lusercache_forwarded :
    saveClientIP "10.0.0.1,10.0.0.2".toList = some "10.0.0.1,10.0.0.2".toList ∧
    ∀ n, ¬ ∃ str, lusercache2str (addUserCaches [] [⟨"10.0.0.1,10.0.0.2".toList, 1, 5, false⟩]) = some str ∧
      str2lusercache n str =
        (true, keptUsers (addUserCaches [] [⟨"10.0.0.1,10.0.0.2".toList, 1, 5, false⟩])) := by
  refine ⟨by decide, fun n => ?_⟩
  rintro ⟨str, hstr, hread⟩
  have hwritten : lusercache2str (addUserCaches [] [⟨"10.0.0.1,10.0.0.2".toList, 1, 5, false⟩]) =
      some "10.0.0.1,10.0.0.2,1,1,5,0".toList := by decide
  rw [hwritten] at hstr
  cases hstr
  -- the record has six fields
  have hsix : stringexplode "10.0.0.1,10.0.0.2,1,1,5,0".toList [','] =
      ["10.0.0.1".toList, "10.0.0.2".toList, ['1'], ['1'], ['5'], ['0']] := by decide
  have hone : stringexplode "10.0.0.1,10.0.0.2,1,1,5,0".toList [';'] =
      ["10.0.0.1,10.0.0.2,1,1,5,0".toList] := by decide
  rw [str2lusercache, hone, str2lusercacheLoop, hsix] at hread
  cases hread

/-! ## The buffers -/

/-- The number of characters of a 64-bit number. -/
theorem length_longText_le (x : Int64) : (longText x.toInt).length ≤ 20 := by
  have hmin := x.le_toInt
  have hmax := x.toInt_lt
  cases hx : x.toInt with
  | ofNat n =>
    rw [hx] at hmax
    have hn : n < 10 ^ 20 := by
      have : (n : Int) < 2 ^ 63 := hmax
      omega
    exact (Nat.length_toDigits_le_iff (by decide) (by decide)).mpr hn
  | negSucc n =>
    rw [hx, Int.negSucc_eq] at hmin
    have hn : n + 1 < 10 ^ 19 := by omega
    have hdigits : (Nat.toDigits 10 (n + 1)).length ≤ 19 :=
      (Nat.length_toDigits_le_iff (by decide) (by decide)).mpr hn
    exact Nat.succ_le_succ hdigits

theorem length_longText_le_of_pos {x : Int64} (hx : 0 < x) : (longText x.toInt).length ≤ 19 := by
  have hmax := x.toInt_lt
  have hpos : 0 < x.toInt := Int64.lt_iff_toInt_lt.mp hx
  obtain ⟨n, hn⟩ := Int.eq_ofNat_of_zero_le hpos.le
  have hlt : n < 10 ^ 19 := by omega
  rw [hn]
  exact (Nat.length_toDigits_le_iff (by decide) (by decide)).mpr hlt

/-- Ten records and the semicolons between them. -/
theorem length_joinUsers_le {users : Lusercache} {k : Nat} (h : ∀ u ∈ users, (userText u).length ≤ k) :
    (joinUsers users).length ≤ users.length * (k + 1) - 1 := by
  have hall : (users.flatMap fun u => ';' :: userText u).length ≤ users.length * (k + 1) := by
    induction users with
    | nil => exact Nat.zero_le _
    | cons u users ih =>
      have hu := h u List.mem_cons_self
      have hrest := ih fun v hv => h v (List.mem_cons_of_mem u hv)
      rw [List.flatMap_cons, List.length_append, List.length_cons, List.length_cons, Nat.succ_mul]
      omega
  rw [joinUsers, List.length_tail]
  exact Nat.sub_le_sub_right hall 1

/-- `lusercache2str` writes no record past the end of its buffer, and the column holds the result. -/
def FitsBuffers (luc : Lusercache) : Prop :=
  ∃ str, lusercache2str luc = some str ∧ str.length ≤ 1000

theorem fitsBuffers_iff (luc : Lusercache) :
    FitsBuffers luc ↔ ∀ u ∈ keptUsers luc, (userText u).length ≤ 99 := by
  rw [FitsBuffers, lusercache2str_eq]
  constructor
  · rintro ⟨str, hstr, -⟩
    split at hstr
    · assumption
    · cases hstr
  · intro hfit
    refine ⟨_, if_pos hfit, ?_⟩
    have hlength := length_joinUsers_le hfit
    have hcount : (keptUsers luc).length ≤ 10 := List.length_take_le 10 _
    omega

/-- The worst case of a client. -/
theorem addUserCaches_worst {ip : Str} (hip : ip ≠ []) :
    addUserCaches [] [⟨ip, Int64.maxValue, Int64.minValue, false⟩,
      ⟨ip, Int64.maxValue, Int64.minValue, true⟩] =
    [⟨ip, Int64.maxValue, Int64.maxValue, Int64.minValue, Int64.minValue⟩] := by
  have hdate : (0 : Int64) ≠ Int64.maxValue := by decide
  simp [addUserCaches, addUserCache, addUserCacheLoop, hip, hdate]

/-- For given addresses, whatever the dates and byte counts are. -/
theorem fitsBuffers_addresses_iff (ips : List Str) :
    (∀ calls : List UserCall, (∀ c ∈ calls, c.ip ∈ ips) → FitsBuffers (addUserCaches [] calls)) ↔
      ∀ ip ∈ ips, (cStr ip).length ≤ 17 := by
  constructor
  · intro h ip hip
    by_cases hne : ip = []
    · subst hne
      exact Nat.zero_le _
    · have hfits := h [⟨ip, Int64.maxValue, Int64.minValue, false⟩,
        ⟨ip, Int64.maxValue, Int64.minValue, true⟩] (by simp [hip])
      rw [addUserCaches_worst hne, fitsBuffers_iff] at hfits
      have hlength := hfits _ List.mem_cons_self
      rw [length_userText] at hlength
      have hmax : (longText Int64.maxValue.toInt).length = 19 := by decide
      have hmin : (longText Int64.minValue.toInt).length = 20 := by decide
      simp only [hmax, hmin] at hlength
      omega
  · intro h calls hcalls
    rw [fitsBuffers_iff]
    intro u hu
    have hbuilt := addUserCaches_built calls u (mem_of_mem_keptUsers hu)
    have hip : (cStr u.ip).length ≤ 17 := by
      obtain ⟨c, hc, hip⟩ := hbuilt.ip
      rw [hip, UserCall.read]
      split
      · exact show (cStr ['0', '.', '0', '.', '0', '.', '0']).length ≤ 17 by decide
      · exact h c.ip (hcalls c hc)
    have hdown := length_longText_le_of_pos hbuilt.date_downloaded
    have hmod := length_longText_le_of_pos hbuilt.date_modified
    have hacu := length_longText_le u.bytes_acumulate
    have hreq := length_longText_le u.bytes_requested
    rw [length_userText]
    omega

/-- **The history fits its buffers** exactly when each address that is kept leaves room for its
numbers; for given addresses and any dates and byte counts, exactly when no address has more than 17
characters. -/
theorem lusercache2str_fits_iff (calls : List UserCall) (ips : List Str) :
    (FitsBuffers (addUserCaches [] calls) ↔ ∀ u ∈ keptUsers (addUserCaches [] calls),
      (cStr u.ip).length + (longText u.date_downloaded.toInt).length +
        (longText u.date_modified.toInt).length + (longText u.bytes_acumulate.toInt).length +
        (longText u.bytes_requested.toInt).length + 4 ≤ 99) ∧
    ((∀ calls : List UserCall, (∀ c ∈ calls, c.ip ∈ ips) → FitsBuffers (addUserCaches [] calls)) ↔
      ∀ ip ∈ ips, (cStr ip).length ≤ 17) := by
  refine ⟨?_, fitsBuffers_addresses_iff ips⟩
  simp only [fitsBuffers_iff, length_userText]

/-- An `X-Forwarded-For` value of a hundred characters. -/
theorem not_fitsBuffers_forwarded :
    saveClientIP (List.replicate 100 'a') = some (List.replicate 100 'a') ∧
      ¬ FitsBuffers (addUserCaches [] [⟨List.replicate 100 'a', 1, 5, false⟩]) := by
  have hword : ∀ c ∈ List.replicate 100 'a', c = 'a' := fun c hc => List.eq_of_mem_replicate hc
  refine ⟨saveClientIP_word (by simp) fun h => absurd (hword ' ' h) (by decide), fun h => ?_⟩
  have hmem : ⟨List.replicate 100 'a', 1, 1, 5, 0⟩ ∈
      keptUsers (addUserCaches [] [⟨List.replicate 100 'a', 1, 5, false⟩]) := List.mem_cons_self
  have hlength := (fitsBuffers_iff _).mp h _ hmem
  have hip : cStr (List.replicate 100 'a') = List.replicate 100 'a' :=
    cStr_eq_self fun h => absurd (hword _ h) (by decide)
  rw [length_userText, hip, List.length_replicate] at hlength
  omega

end Haarp
