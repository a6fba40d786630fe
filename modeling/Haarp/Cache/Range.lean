import Haarp.Cache.Connection
import Haarp.Utils.Plan

/-!
# Range requests

`getLimitBytes` reads a range from the header of the browser, and the branch of `Cache` for a file of
known size decides what is served. `range_answered` compares the two with what HTTP means by the
three forms `x-y`, `x-` and `-n`, for a file that is stored whole.
-/

namespace Haarp

/-! ## What HTTP means by a range -/

/-- A decimal number in a header. -/
structure Digits where
  text : Str
  ne_nil : text ≠ []
  isDigit : ∀ c ∈ text, c.isDigit = true

def Digits.value (d : Digits) : Int := Nat.ofDigitChars 10 d.text 0

/-- The forms of a range: `x-y`, `x-` and `-n`. -/
inductive ByteRange
  | closed (x y : Digits)
  | fromByte (x : Digits)
  | last (n : Digits)

namespace ByteRange

def text : ByteRange → Str
  | closed x y => x.text ++ '-' :: y.text
  | fromByte x => x.text ++ ['-']
  | last n => '-' :: n.text

/-- A range of which a file of `s` bytes has some. -/
def Satisfiable (s : Int) : ByteRange → Prop
  | closed x y => x.value ≤ y.value ∧ x.value < s
  | fromByte x => x.value < s
  | last n => 1 ≤ n.value

/-- The first and the last byte of the answer. -/
def answer (s : Int) : ByteRange → Int × Int
  | closed x y => (x.value, min y.value (s - 1))
  | fromByte x => (x.value, s - 1)
  | last n => (max 0 (s - n.value), s - 1)

/-- The ranges that are answered as asked. -/
def AsAsked (s : Int) : ByteRange → Prop
  | closed x y => ¬ (y.value = 0 ∧ 1 < s) ∧ ¬ (x.value = s - 1 ∧ s ≤ y.value) ∧ y.value < llongMax
  | fromByte _ => True
  | last n => s = 2 * n.value

instance (s : Int) (b : ByteRange) : Decidable (b.Satisfiable s) :=
  match b with
  | closed x y => inferInstanceAs (Decidable (x.value ≤ y.value ∧ x.value < s))
  | fromByte x => inferInstanceAs (Decidable (x.value < s))
  | last n => inferInstanceAs (Decidable (1 ≤ n.value))

instance (s : Int) (b : ByteRange) : Decidable (b.AsAsked s) :=
  match b with
  | closed x y => inferInstanceAs (Decidable (¬ (y.value = 0 ∧ 1 < s) ∧
      ¬ (x.value = s - 1 ∧ s ≤ y.value) ∧ y.value < llongMax))
  | fromByte _ => inferInstanceAs (Decidable True)
  | last n => inferInstanceAs (Decidable (s = 2 * n.value))

/-- `range_min` and `range_max` behind `getLimitBytes`. -/
def limits : ByteRange → Int × Int
  | closed x y => (min llongMax x.value, min llongMax y.value)
  | fromByte x => (min llongMax x.value, -1)
  | last n => (min llongMax n.value, -1)

end ByteRange

section Digits

variable (d : Digits)

theorem Digits.atoll : atoll d.text = min llongMax d.value := atoll_digits d.isDigit d.ne_nil

theorem Digits.value_nonneg : 0 ≤ d.value := Int.natCast_nonneg _

theorem Digits.not_mem {c : Char} (hc : c.isDigit = false) : ∀ x ∈ d.text, x ∉ [c] := by
  intro x hx hmem
  have hdigit := d.isDigit x hx
  rw [List.mem_singleton.mp hmem, hc] at hdigit
  cases hdigit

end Digits

/-! ## What getLimitBytes reads -/

/-- A line that `substr(8)` can be taken of, if it is asked for. -/
def OriginOk (line : Str) : Prop := origin <+: line → 8 ≤ line.length

instance (line : Str) : Decidable (OriginOk line) :=
  inferInstanceAs (Decidable (origin <+: line → 8 ≤ line.length))

section Scan

/-- A line is read unless `substr(8)` throws. -/
theorem LimitScan.line_isSome {scan : LimitScan} {i : Nat} {line : Str} :
    (scan.line i line).isSome ↔ OriginOk line := by
  unfold LimitScan.line OriginOk
  dsimp only
  rw [← find_eq_zero]
  split
  · next horigin =>
    split
    · simp only [Option.isSome_none, Bool.false_eq_true, horigin, forall_const, false_iff]
      omega
    · simp only [Option.isSome_some, horigin, forall_const, true_iff]
      omega
  · next horigin => simp [horigin]

/-- A line that is no `Range: bytes=` changes no range. -/
theorem LimitScan.line_other {scan scan' : LimitScan} {i : Nat} {line : Str}
    (hline : ¬ rangeBytes <+: line) (h : scan.line i line = some scan') :
    scan'.range_min = scan.range_min ∧ scan'.range_max = scan.range_max ∧
      scan'.value = scan.value ∧ scan'.rangeb = scan.rangeb ∧
      (scan.isPartial = true → scan'.isPartial = true) := by
  unfold LimitScan.line at h
  dsimp only at h
  rw [if_neg (fun hfind => hline (find_eq_zero.mp hfind))] at h
  split at h
  · split at h
    · cases h
    · split at h <;> cases h <;> simp
  · split at h <;> cases h <;> simp

theorem getLimitBytesLoop_isSome {i : Nat} {scan : LimitScan} {lines : List Str} :
    (getLimitBytesLoop i scan lines).isSome ↔ ∀ line ∈ lines, OriginOk line := by
  induction lines generalizing i scan with
  | nil => simp [getLimitBytesLoop]
  | cons line lines ih =>
    rw [getLimitBytesLoop, List.forall_mem_cons, ← scan.line_isSome (i := i)]
    cases hline : scan.line i line with
    | none => simp
    | some scan' => simp [ih]

theorem getLimitBytesLoop_other {i : Nat} {scan scan' : LimitScan} {lines : List Str}
    (hlines : ∀ line ∈ lines, ¬ rangeBytes <+: line)
    (h : getLimitBytesLoop i scan lines = some scan') :
    scan'.range_min = scan.range_min ∧ scan'.range_max = scan.range_max ∧
      scan'.value = scan.value ∧ scan'.rangeb = scan.rangeb ∧
      (scan.isPartial = true → scan'.isPartial = true) := by
  induction lines generalizing i scan with
  | nil =>
    cases h
    simp
  | cons line lines ih =>
    obtain ⟨scan₁, hline, hrest⟩ := Option.bind_eq_some_iff.mp h
    obtain ⟨hmin, hmax, hvalue, hrangeb, hpartly⟩ :=
      LimitScan.line_other (hlines line List.mem_cons_self) hline
    obtain ⟨hmin', hmax', hvalue', hrangeb', hpartly'⟩ :=
      ih (fun l hl => hlines l (List.mem_cons_of_mem line hl)) hrest
    exact ⟨hmin'.trans hmin, hmax'.trans hmax, hvalue'.trans hvalue, hrangeb'.trans hrangeb,
      fun hp => hpartly' (hpartly hp)⟩

theorem getLimitBytesLoop_append {i : Nat} {scan : LimitScan} {pre post : List Str} :
    getLimitBytesLoop i scan (pre ++ post) =
      (getLimitBytesLoop i scan pre).bind fun scan =>
        getLimitBytesLoop (i + pre.length) scan post := by
  induction pre generalizing i scan with
  | nil => rfl
  | cons line pre ih =>
    simp only [List.cons_append, getLimitBytesLoop, Option.bind_assoc, List.length_cons]
    congr 1
    funext scan₁
    rw [ih, Nat.add_assoc, Nat.add_comm 1]

/-- The pieces of a range. -/
theorem ByteRange.explode (b : ByteRange) :
    stringexplode (rangeBytes ++ b.text) ['='] = [rangeBytes.dropLast, b.text] ∧
      (stringexplode b.text ['-']).map atoll =
        match b with
        | closed x y => [min llongMax x.value, min llongMax y.value]
        | fromByte x => [min llongMax x.value]
        | last n => [min llongMax n.value] := by
  have htext : (∀ c ∈ b.text, c ∉ ['=']) ∧ b.text ≠ [] := by
    cases b with
    | closed x y =>
      refine ⟨fun c hc => ?_, by simp [text]⟩
      rcases List.mem_append.mp hc with hc | hc
      · exact x.not_mem (by decide) c hc
      · rcases List.mem_cons.mp hc with rfl | hc
        · decide
        · exact y.not_mem (by decide) c hc
    | fromByte x =>
      refine ⟨fun c hc => ?_, by simp [text]⟩
      rcases List.mem_append.mp hc with hc | hc
      · exact x.not_mem (by decide) c hc
      · rw [List.mem_singleton.mp hc]
        decide
    | last n =>
      refine ⟨fun c hc => ?_, by simp [text]⟩
      rcases List.mem_cons.mp hc with rfl | hc
      · decide
      · exact n.not_mem (by decide) c hc
  refine ⟨?_, ?_⟩
  · have hsplit : rangeBytes ++ b.text = rangeBytes.dropLast ++ '=' :: b.text := rfl
    rw [hsplit, stringexplode_append (by simp [rangeBytes]) (by decide) (by simp),
      stringexplode_of_not_mem htext.1 htext.2]
  · cases b with
    | closed x y =>
      rw [text, stringexplode_append (x.not_mem (by decide)) x.ne_nil (by simp),
        stringexplode_of_not_mem (y.not_mem (by decide)) y.ne_nil]
      simp [Digits.atoll]
    | fromByte x =>
      rw [text, stringexplode_append (x.not_mem (by decide)) x.ne_nil (by simp)]
      simp [stringexplode, stringexplodeLoop, Digits.atoll]
    | last n =>
      rw [text, stringexplode_cons (by simp),
        stringexplode_of_not_mem (n.not_mem (by decide)) n.ne_nil]
      simp [Digits.atoll]

/-- The line of the range, if no other one came before it. -/
theorem LimitScan.line_range {scan scan' : LimitScan} {i : Nat} (b : ByteRange)
    (hvalue : scan.value = []) (hrangeb : scan.rangeb = [])
    (h : scan.line i (rangeBytes ++ b.text) = some scan') :
    (scan'.range_min, scan'.range_max) = b.limits ∧ scan'.isPartial = true := by
  have horigin : find origin (rangeBytes ++ b.text) ≠ some 0 := by
    rw [ne_eq, find_eq_zero]
    rintro ⟨t, ht⟩
    cases ht
  obtain ⟨hexplode, hatoll⟩ := b.explode
  unfold LimitScan.line at h
  dsimp only at h
  rw [if_pos (find_eq_zero.mpr (List.prefix_append _ _)), if_neg horigin] at h
  have hscan : ∀ scan₁ : LimitScan, scan₁.value = [] → scan₁.rangeb = [] →
      ((scan₁.range (rangeBytes ++ b.text)).range_min,
        (scan₁.range (rangeBytes ++ b.text)).range_max) = b.limits ∧
        (scan₁.range (rangeBytes ++ b.text)).isPartial = true := by
    intro scan₁ hvalue hrangeb
    unfold LimitScan.range
    simp only [hvalue, hexplode, List.nil_append, hrangeb]
    cases b with
    | closed x y =>
      obtain ⟨t₁, t₂, hpieces, h₁, h₂⟩ : ∃ t₁ t₂, stringexplode (ByteRange.closed x y).text ['-'] =
          [t₁, t₂] ∧ atoll t₁ = min llongMax x.value ∧ atoll t₂ = min llongMax y.value := by
        simpa [List.map_eq_cons_iff] using hatoll
      simp only [hpieces, h₁, h₂, ByteRange.limits, and_self]
    | fromByte x =>
      obtain ⟨t, hpieces, ht⟩ := List.map_eq_singleton_iff.mp hatoll
      simp only [hpieces, ht, ByteRange.limits, and_self]
    | last n =>
      obtain ⟨t, hpieces, ht⟩ := List.map_eq_singleton_iff.mp hatoll
      simp only [hpieces, ht, ByteRange.limits, and_self]
  rw [← Option.some.inj h]
  split
  · exact hscan _ hvalue hrangeb
  · exact hscan _ hvalue hrangeb

/-- **What `getLimitBytes` reads** from a header with one `Range: bytes=` line. -/
theorem getLimitBytes_range {header : Str} {pre post : List Str} {b : ByteRange}
    (hlines : stringexplode header ['\r', '\n'] = pre ++ (rangeBytes ++ b.text) :: post)
    (hsingle : ∀ line ∈ pre ++ post, ¬ rangeBytes <+: line) :
    ((getLimitBytes header).isSome ↔ ∀ line ∈ pre ++ post, OriginOk line) ∧
      ∀ limits, getLimitBytes header = some limits →
        (limits.range_min, limits.range_max) = b.limits ∧ limits.isPartial = true := by
  have hrange : OriginOk (rangeBytes ++ b.text) := by
    rintro ⟨t, ht⟩
    cases ht
  unfold getLimitBytes
  rw [hlines, if_neg (by simp)]
  refine ⟨?_, fun limits h => ?_⟩
  · rw [Option.isSome_map, getLimitBytesLoop_isSome]
    simp only [List.forall_mem_append, List.forall_mem_cons, hrange, true_and]
  · obtain ⟨scan, hloop, rfl⟩ := Option.map_eq_some_iff.mp h
    rw [getLimitBytesLoop_append] at hloop
    obtain ⟨scan₁, hpre, hloop⟩ := Option.bind_eq_some_iff.mp hloop
    obtain ⟨scan₂, hline, hpost⟩ := Option.bind_eq_some_iff.mp hloop
    obtain ⟨-, -, hvalue, hrangeb, -⟩ := getLimitBytesLoop_other
      (fun line hline => hsingle line (List.mem_append_left post hline)) hpre
    obtain ⟨hboth, hpartly⟩ := LimitScan.line_range b hvalue hrangeb hline
    obtain ⟨hmin, hmax, -, -, hkeep⟩ := getLimitBytesLoop_other
      (fun line hline => hsingle line (List.mem_append_right pre hline)) hpost
    rw [hmin, hmax]
    exact ⟨hboth, hkeep hpartly⟩

end Scan

/-! ## What the plan is made for -/

section Plan

variable {c c' : Connection}

/-- The last byte that a request goes to, for a file of known size. -/
def Connection.top (c : Connection) : Int :=
  if c.size_orig_file > c.range_min + 1 ∧ c.size_orig_file < c.changeTop.range_max + 1 then
    c.size_orig_file - 1
  else c.changeTop.range_max

theorem Connection.changeTop_eq (c : Connection) :
    c.changeTop.range_min = c.range_min ∧ c.changeTop.size_orig_file = c.size_orig_file ∧
      c.changeTop.lranges = c.lranges := by
  unfold Connection.changeTop
  split <;> exact ⟨rfl, rfl, rfl⟩

/-- What the branch for a file of known size decides, when no number overflows. -/
theorem Connection.sizeKnown_some (h : c.sizeKnown = some c') :
    (c.size_orig_file > c.range_min + 1 → c.changeTop.range_max < llongMax) ∧
      c'.range_min = c.range_min ∧ c'.range_max = c.top ∧
      c'.filesizeneto = c.top - c.range_min + 1 ∧
      (c'.lrangeswork, c'.hit) = getRangeWork c.lranges c.range_min c.top := by
  obtain ⟨c₁, htruncate, h⟩ := Option.bind_eq_some_iff.mp h
  obtain ⟨filesizeneto, hneto, rfl⟩ := Option.map_eq_some_iff.mp h
  obtain ⟨-, rfl⟩ := llong_eq_some.mp hneto
  obtain ⟨hmin, hsize, hl⟩ := c.changeTop_eq
  have h₁ : (c.size_orig_file > c.range_min + 1 → c.changeTop.range_max < llongMax) ∧
      c₁.range_min = c.range_min ∧ c₁.range_max = c.top ∧ c₁.lranges = c.lranges := by
    obtain ⟨first, hfirst, htruncate⟩ := Option.bind_eq_some_iff.mp htruncate
    obtain ⟨-, rfl⟩ := llong_eq_some.mp hfirst
    unfold Connection.top
    rw [hmin, hsize] at htruncate
    by_cases hlong : c.size_orig_file > c.range_min + 1
    · rw [if_pos hlong] at htruncate
      obtain ⟨top, htop, rfl⟩ := Option.map_eq_some_iff.mp htruncate
      obtain ⟨hbound, rfl⟩ := llong_eq_some.mp htop
      refine ⟨fun _ => by omega, ?_⟩
      by_cases htrunc : c.size_orig_file < c.changeTop.range_max + 1
      · rw [if_pos htrunc, if_pos ⟨hlong, htrunc⟩]
        exact ⟨rfl, rfl, hl⟩
      · rw [if_neg htrunc, if_neg (fun hh => htrunc hh.2)]
        exact ⟨hmin, rfl, hl⟩
    · rw [if_neg hlong] at htruncate
      rw [← Option.some.inj htruncate, if_neg (fun hh => hlong hh.1)]
      exact ⟨fun hh => absurd hh hlong, hmin, rfl, hl⟩
  obtain ⟨hbound, hmin₁, hmax₁, hl₁⟩ := h₁
  refine ⟨hbound, hmin₁, hmax₁, by simp only [Connection.plan, hmin₁, hmax₁], ?_⟩
  simp only [Connection.plan, Transfer.lrangeswork, List.nil_append, hl₁, hmin₁, hmax₁]

theorem Connection.sizeKnown_isSome (h₀ : 0 ≤ c.range_min) (hmin : c.range_min < llongMax)
    (htop : 0 ≤ c.changeTop.range_max)
    (hmax : c.size_orig_file > c.range_min + 1 → c.changeTop.range_max < llongMax)
    (hlength : c.changeTop.range_max - c.range_min < llongMax) : c.sizeKnown.isSome := by
  obtain ⟨hmin₁, hsize, -⟩ := c.changeTop_eq
  have hfirst : llong (c.changeTop.range_min + 1) = some (c.range_min + 1) :=
    llong_eq_some.mpr ⟨by rw [hmin₁]; unfold llongMax at *; omega, by rw [hmin₁]⟩
  obtain ⟨c₁, htruncate, h₁, h₂⟩ : ∃ c₁, c.changeTop.truncateTop = some c₁ ∧
      c₁.range_min = c.range_min ∧ 0 ≤ c₁.range_max ∧ c₁.range_max ≤ c.changeTop.range_max := by
    unfold Connection.truncateTop
    rw [hfirst, Option.bind_some]
    split
    · next hlong =>
      have hlast : llong (c.changeTop.range_max + 1) = some (c.changeTop.range_max + 1) := by
        have := hmax (by omega)
        exact llong_eq_some.mpr ⟨by unfold llongMax at *; omega, rfl⟩
      rw [hlast, Option.map_some]
      split
      · exact ⟨_, rfl, hmin₁, by simp only; omega, by simp only; omega⟩
      · exact ⟨_, rfl, hmin₁, htop, le_rfl⟩
    · exact ⟨_, rfl, hmin₁, htop, le_rfl⟩
  have hneto : llong (c₁.range_max - c₁.range_min + 1) = some (c₁.range_max - c₁.range_min + 1) :=
    llong_eq_some.mpr ⟨by unfold llongMax at *; omega, rfl⟩
  rw [Connection.sizeKnown, htruncate, Option.bind_some, hneto]
  rfl

end Plan

/-! ## The answer -/

/-- `getLimitBytes`, the choice of the range for the answer `r` of the plugin, and the branch of
`Cache` for a file of known size. -/
def answerRange (header : Str) (r : Resposta) (c : Connection) : Option Connection :=
  (getLimitBytes header).bind fun limits =>
    let (r, limits) := chooseRange r limits
    { c with r, toLimits := limits }.sizeKnown

/-- A hit with the bytes that the browser asks for. -/
def Answered (s : Int) (b : ByteRange) (out : Option Connection) : Prop :=
  ∃ c, out = some c ∧ c.hit = true ∧ (c.range_min, c.range_max) = b.answer s

/-- A plugin that has found no range in the URL. -/
structure Resposta.NoRange (r : Resposta) : Prop where
  range_min : r.range_min = 0
  range_max : r.range_max = 0
  exist_range : r.exist_range = false

section Answer

variable {c : Connection} {b : ByteRange}

/-- The range behind the choice, when the plugin has found none. -/
structure Chosen (b : ByteRange) (range_min range_max : Int) : Prop where
  zero : b.limits.2 = 0 → range_min = 0 ∧ range_max = 0
  asked : b.limits.2 ≠ 0 → range_min = b.limits.1 ∧ range_max = b.limits.2

theorem chooseRange_chosen {r : Resposta} (hr : r.NoRange) {limits : Limits}
    (hlimits : (limits.range_min, limits.range_max) = b.limits) (hpartly : limits.isPartial = true) :
    Chosen b (chooseRange r limits).2.range_min (chooseRange r limits).2.range_max := by
  have hmax : b.limits.2 = limits.range_max := by rw [← hlimits]
  have hmin : b.limits.1 = limits.range_min := by rw [← hlimits]
  unfold chooseRange
  simp only [hpartly, not_true_eq_false, false_or]
  by_cases hzero : limits.range_max = 0
  · rw [if_pos hzero]
    exact ⟨fun _ => ⟨hr.range_min, hr.range_max⟩, fun h => absurd (hmax.trans hzero) h⟩
  · rw [if_neg hzero]
    refine ⟨fun h => absurd (hmax.symm.trans h) hzero, fun _ => ?_⟩
    rw [hmin, hmax]
    split
    · split <;> exact ⟨rfl, rfl⟩
    · exact ⟨rfl, rfl⟩

theorem Connection.changeTop_range_max (c : Connection) :
    c.changeTop.range_max = if c.range_max ≤ 0 then c.size_orig_file - 1 else c.range_max := by
  unfold Connection.changeTop
  split <;> rfl

/-- The plan is made for what the browser asks for, in the cases of `AsAsked`. -/
theorem Connection.top_iff (hs : 0 < c.size_orig_file) (hmax : c.size_orig_file ≤ llongMax)
    (hsat : b.Satisfiable c.size_orig_file) (hchosen : Chosen b c.range_min c.range_max)
    (hbound : c.size_orig_file > c.range_min + 1 → c.changeTop.range_max < llongMax) :
    (c.range_min, c.top) = b.answer c.size_orig_file ↔ b.AsAsked c.size_orig_file := by
  obtain ⟨hzero, hasked⟩ := hchosen
  unfold Connection.top
  rw [changeTop_range_max] at hbound ⊢
  cases b with
  | closed x y =>
    have hx := x.value_nonneg
    obtain ⟨hxy, hxs⟩ := hsat
    simp only [ByteRange.limits, ByteRange.answer, ByteRange.AsAsked, Prod.mk.injEq] at hzero hasked ⊢
    generalize llongMax = greatest at *
    split at hbound <;> split <;> omega
  | fromByte x =>
    have hx := x.value_nonneg
    simp only [ByteRange.Satisfiable] at hsat
    simp only [ByteRange.limits, ByteRange.answer, ByteRange.AsAsked, Prod.mk.injEq, iff_true]
      at hasked ⊢
    generalize llongMax = greatest at *
    obtain ⟨hmin, hend⟩ := hasked (by decide)
    have hopen : c.range_max ≤ 0 := by omega
    rw [if_pos hopen]
    split <;> omega
  | last n =>
    simp only [ByteRange.Satisfiable] at hsat
    simp only [ByteRange.limits, ByteRange.answer, ByteRange.AsAsked, Prod.mk.injEq] at hasked ⊢
    generalize llongMax = greatest at *
    obtain ⟨hmin, hend⟩ := hasked (by decide)
    have hopen : c.range_max ≤ 0 := by omega
    rw [if_pos hopen]
    split <;> omega

/-- A plan for what the browser asks for is a hit. -/
theorem Connection.plan_hit (hl : StoredList c.lranges)
    (hcover : ∀ n, 0 ≤ n → n < c.size_orig_file → n ∈ storedBytes c.lranges) (hs : 0 < c.size_orig_file)
    (hsat : b.Satisfiable c.size_orig_file) (hasked : b.AsAsked c.size_orig_file)
    (h : (c.range_min, c.top) = b.answer c.size_orig_file) :
    (getRangeWork c.lranges c.range_min c.top).2 = true := by
  have hrange : 0 ≤ c.range_min ∧ c.range_min ≤ c.top ∧ c.top < c.size_orig_file := by
    cases b with
    | closed x y =>
      have hx := x.value_nonneg
      obtain ⟨hxy, hxs⟩ := hsat
      obtain ⟨hmin, htop⟩ := Prod.mk.inj h
      omega
    | fromByte x =>
      have hx := x.value_nonneg
      simp only [ByteRange.Satisfiable] at hsat
      obtain ⟨hmin, htop⟩ := Prod.mk.inj h
      omega
    | last n =>
      simp only [ByteRange.Satisfiable] at hsat
      simp only [ByteRange.AsAsked] at hasked
      obtain ⟨hmin, htop⟩ := Prod.mk.inj h
      omega
  obtain ⟨h₀, hle, htop⟩ := hrange
  rw [getRangeWork_hit hl h₀ hle]
  intro n hn hn'
  have hend : planEnd c.lranges c.range_min c.top ≤ c.top + 1 := by
    rw [planEnd]
    split <;> omega
  exact hcover n (by omega) (by omega)

theorem Connection.sizeKnown_answered (hl : StoredList c.lranges)
    (hcover : ∀ n, 0 ≤ n → n < c.size_orig_file → n ∈ storedBytes c.lranges) (hs : 0 < c.size_orig_file)
    (hmax : c.size_orig_file ≤ llongMax) (hsat : b.Satisfiable c.size_orig_file)
    (hchosen : Chosen b c.range_min c.range_max) :
    Answered c.size_orig_file b c.sizeKnown ↔ b.AsAsked c.size_orig_file := by
  constructor
  · rintro ⟨c', hc', -, hrange⟩
    obtain ⟨hbound, hmin, htop, -, -⟩ := sizeKnown_some hc'
    rw [hmin, htop] at hrange
    exact (top_iff hs hmax hsat hchosen hbound).mp hrange
  · intro hasked
    have hin : 0 ≤ c.range_min ∧ c.range_min < llongMax ∧ 0 ≤ c.changeTop.range_max ∧
        c.changeTop.range_max < llongMax := by
      obtain ⟨hzero, hrange⟩ := hchosen
      rw [changeTop_range_max]
      cases b with
      | closed x y =>
        have hx := x.value_nonneg
        obtain ⟨hxy, hxs⟩ := hsat
        simp only [ByteRange.limits, ByteRange.AsAsked] at hzero hrange hasked
        generalize llongMax = greatest at *
        split <;> omega
      | fromByte x =>
        have hx := x.value_nonneg
        simp only [ByteRange.Satisfiable] at hsat
        simp only [ByteRange.limits] at hrange
        obtain ⟨hmin, hend⟩ := hrange (by decide)
        generalize llongMax = greatest at *
        split <;> omega
      | last n =>
        simp only [ByteRange.Satisfiable, ByteRange.AsAsked] at hsat hasked
        simp only [ByteRange.limits] at hrange
        obtain ⟨hmin, hend⟩ := hrange (by decide)
        generalize llongMax = greatest at *
        split <;> omega
    obtain ⟨h₀, hmin, htop, hbound⟩ := hin
    obtain ⟨c', hc'⟩ := Option.isSome_iff_exists.mp
      (sizeKnown_isSome h₀ hmin htop (fun _ => hbound) (by omega))
    obtain ⟨-, hmin', htop', -, hplan⟩ := sizeKnown_some hc'
    have hrange := (top_iff hs hmax hsat hchosen fun _ => hbound).mpr hasked
    have hhit : c'.hit = (getRangeWork c.lranges c.range_min c.top).2 := congrArg Prod.snd hplan
    exact ⟨c', hc', hhit.trans (plan_hit hl hcover hs hsat hasked hrange), by rw [hmin', htop', hrange]⟩

end Answer

/-- **Range requests on a file that is stored whole** are answered as asked, but for `0-0`, a last
byte with an end beyond the file, numbers that overflow and the form `-n`; a short `Origin:` line
throws. -/
theorem range_answered {header : Str} (pre post : List Str) {b : ByteRange} {r : Resposta}
    {c : Connection} (hr : r.NoRange)
    (hlines : stringexplode header ['\r', '\n'] = pre ++ (rangeBytes ++ b.text) :: post)
    (hsingle : ∀ line ∈ pre ++ post, ¬ rangeBytes <+: line) (hl : StoredList c.lranges)
    (hcover : ∀ n, 0 ≤ n → n < c.size_orig_file → n ∈ storedBytes c.lranges) (hs : 0 < c.size_orig_file)
    (hmax : c.size_orig_file ≤ llongMax) (hsat : b.Satisfiable c.size_orig_file) :
    Answered c.size_orig_file b (answerRange header r c) ↔
      (∀ line ∈ pre ++ post, OriginOk line) ∧ b.AsAsked c.size_orig_file := by
  obtain ⟨hread, hlimits⟩ := getLimitBytes_range hlines hsingle
  rw [← hread, answerRange]
  cases hheader : getLimitBytes header with
  | none =>
    refine iff_of_false ?_ (by simp)
    rintro ⟨c', hc', -⟩
    cases hc'
  | some limits =>
    obtain ⟨hboth, hpartly⟩ := hlimits limits hheader
    rw [Option.bind_some, Option.isSome_some]
    simp only [true_and]
    exact Connection.sizeKnown_answered hl hcover hs hmax hsat (chooseRange_chosen hr hboth hpartly)

/-- Bytes 2 to 4 of ten. -/
theorem range_answered_closed :
    Answered 10 (.closed ⟨['2'], by decide, List.all_eq_true.mp rfl⟩ ⟨['4'], by decide, List.all_eq_true.mp rfl⟩)
      (answerRange (['G', 'E', 'T', '\r', '\n'] ++ rangeBytes ++ ['2', '-', '4'])
        ⟨true, [], ['f'], 0, 0, 0, false⟩
        { Connection.new with size_orig_file := 10, lranges := [⟨0, 9, 0⟩] }) :=
  (range_answered [['G', 'E', 'T']] []
    (c := { Connection.new with size_orig_file := 10, lranges := [⟨0, 9, 0⟩] }) ⟨rfl, rfl, rfl⟩
    (by decide) (by decide) (by decide)
    (fun n hn hn' => ⟨⟨0, 9, 0⟩, by decide, hn, Int.le_of_lt_add_one hn'⟩) (by decide) (by decide)
    (by decide)).mpr ⟨by decide, by decide⟩

/-- The last three of ten bytes are asked for, and bytes 3 to 9 are answered. -/
theorem range_answered_last :
    ByteRange.Satisfiable 10 (.last ⟨['3'], by decide, List.all_eq_true.mp rfl⟩) ∧
      ¬ Answered 10 (.last ⟨['3'], by decide, List.all_eq_true.mp rfl⟩)
        (answerRange (['G', 'E', 'T', '\r', '\n'] ++ rangeBytes ++ ['-', '3'])
          ⟨true, [], ['f'], 0, 0, 0, false⟩
          { Connection.new with size_orig_file := 10, lranges := [⟨0, 9, 0⟩] }) := by
  refine ⟨by decide, ?_⟩
  rintro ⟨c, hc, -, hrange⟩
  have hanswer : (answerRange (['G', 'E', 'T', '\r', '\n'] ++ rangeBytes ++ ['-', '3'])
      ⟨true, [], ['f'], 0, 0, 0, false⟩
      { Connection.new with size_orig_file := 10, lranges := [⟨0, 9, 0⟩] }).map
        (fun c => (c.range_min, c.range_max)) = some (3, 9) := by decide
  rw [hc, Option.map_some, hrange] at hanswer
  cases hanswer

end Haarp
