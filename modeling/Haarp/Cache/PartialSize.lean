import Haarp.Cache.Header

/-!
# The size that a partial response announces

`UpdateFileSizeinPartial` looks for the size of the file in the lines `Content-Range: bytes a-b/size`
of a header. It takes the pieces of such a line from a vector that it never clears, so that behind a
line without a size it finds the start of the next line in the place of the size.

`updateFileSizeinPartial_iff`: for which headers the size is the one that is announced.
-/

namespace Haarp

/-! ## What a header announces -/

/-- The lines behind the status line that begin with `Content-Range: bytes`. -/
def rangeLines (header : Str) : List Str :=
  (stringexplode header ['\r', '\n']).tail.filter fun line => contentRange.isPrefixOf line

/-- The text behind the first `/` of a line, up to the next one, if there is any. -/
def announcedText (line : Str) : Option Str :=
  (stringexplode (line.dropWhile (· ≠ '/')).tail ['/']).head?

/-- The size in the first line that has one. -/
def announcedSize (header : Str) : Option Int :=
  ((rangeLines header).findSome? announcedText).map atoll

/-! ## What the source finds -/

theorem exists_of_range {line : Str} (h : contentRange <+: line) :
    ∃ front, line.takeWhile (· ≠ '/') = 'C' :: front ∧
      stringexplode line ['/'] = ('C' :: front) :: stringexplode (line.dropWhile (· ≠ '/')).tail ['/'] := by
  obtain ⟨rest, rfl⟩ := h
  have hsplit := List.takeWhile_append_dropWhile (p := fun c : Char => decide (c ≠ '/'))
    (l := contentRange ++ rest)
  obtain ⟨front, hfront⟩ : ∃ front, (contentRange ++ rest).takeWhile (· ≠ '/') = 'C' :: front :=
    ⟨_, rfl⟩
  refine ⟨front, hfront, ?_⟩
  have hno : ∀ c ∈ ('C' :: front : Str), c ∉ ['/'] := by
    intro c hc
    rw [← hfront] at hc
    simpa using List.mem_takeWhile_imp hc
  cases hdrop : (contentRange ++ rest).dropWhile (· ≠ '/') with
  | nil =>
    rw [hdrop, List.append_nil, hfront] at hsplit
    rw [← hsplit, stringexplode_of_not_mem hno (List.cons_ne_nil _ _)]
    rfl
  | cons c behind =>
    have hslash : c = '/' := by
      have hhead := List.head?_dropWhile_not (fun c : Char => decide (c ≠ '/')) (contentRange ++ rest)
      rw [hdrop] at hhead
      simpa using hhead
    rw [hdrop, hfront, hslash] at hsplit
    rw [← hsplit, stringexplode_append hno (List.cons_ne_nil _ _) (List.mem_singleton.mpr rfl)]
    rfl

/-- With a piece in the vector already, the next line gives its own front. -/
theorem partialSize_one (v : Str) (lines : List Str) :
    partialSize [v] lines =
      ((lines.filter fun line => contentRange.isPrefixOf line).head?).map
        fun line => line.takeWhile (· ≠ '/') := by
  induction lines with
  | nil => rfl
  | cons line lines ih =>
    rw [partialSize, List.filter_cons]
    by_cases hrange : contentRange <+: line
    · obtain ⟨front, hfront, hparts⟩ := exists_of_range hrange
      rw [if_pos (find_eq_zero.mpr hrange), if_pos (List.isPrefixOf_iff_prefix.mpr hrange), hparts,
        List.head?_cons, Option.map_some, hfront]
      rfl
    · rw [if_neg fun h => hrange (find_eq_zero.mp h),
        if_neg fun h => hrange (List.isPrefixOf_iff_prefix.mp h), ih]

/-- What is taken for the size from the range lines of a header: the size of the first one, or the front
of the second one. -/
def takenText : List Str → Option Str
  | [] => none
  | first :: rest =>
    (announcedText first).or (rest.head?.map fun line => line.takeWhile (· ≠ '/'))

theorem partialSize_nil (lines : List Str) :
    partialSize [] lines = takenText (lines.filter fun line => contentRange.isPrefixOf line) := by
  induction lines with
  | nil => rfl
  | cons line lines ih =>
    rw [partialSize, List.filter_cons]
    by_cases hrange : contentRange <+: line
    · obtain ⟨front, hfront, hparts⟩ := exists_of_range hrange
      rw [if_pos (find_eq_zero.mpr hrange), if_pos (List.isPrefixOf_iff_prefix.mpr hrange), hparts,
        takenText, announcedText]
      cases stringexplode (line.dropWhile (· ≠ '/')).tail ['/'] with
      | nil => exact partialSize_one _ lines
      | cons size sizes => rfl
    · rw [if_neg fun h => hrange (find_eq_zero.mp h),
        if_neg fun h => hrange (List.isPrefixOf_iff_prefix.mp h), ih]

/-- The front of such a line is no number. -/
theorem atoll_range {line : Str} (h : contentRange.isPrefixOf line = true) :
    atoll (line.takeWhile (· ≠ '/')) = 0 := by
  obtain ⟨front, hfront, -⟩ := exists_of_range (List.isPrefixOf_iff_prefix.mp h)
  rw [hfront]
  rfl

/-- What is found for a header with lines. -/
theorem updateFileSizeinPartial_eq (db : Db) {header : Str} (c : Connection)
    (hlines : stringexplode header ['\r', '\n'] ≠ []) :
    ∃ c', c.updateFileSizeinPartial db header = some c' ∧
      c'.size_orig_file = ((takenText (rangeLines header)).map atoll).getD c.size_orig_file := by
  unfold Connection.updateFileSizeinPartial
  obtain ⟨status, lines, heq⟩ := List.exists_cons_of_ne_nil hlines
  rw [rangeLines, heq, List.tail_cons, ← partialSize_nil]
  cases hsize : partialSize [] lines with
  | none => exact ⟨c, by simp only [hsize], rfl⟩
  | some size =>
    let c₁ : Connection := { c with size_orig_file := atoll size }
    exact ⟨(c₁.set db (.setSize c₁.r.key c₁.size_orig_file)).2, by simp only [hsize]; rfl, rfl⟩

/-- When what is taken is what is announced, as a size. -/
theorem takenText_eq_iff (header : Str) (size : Int) :
    ((takenText (rangeLines header)).map atoll).getD size = (announcedSize header).getD size ↔
      ∀ first next rest, rangeLines header = first :: next :: rest → announcedText first = none →
        (announcedSize header).getD size = 0 := by
  have hrange : ∀ line ∈ rangeLines header, contentRange.isPrefixOf line = true :=
    fun line h => (List.mem_filter.mp h).2
  unfold announcedSize
  cases hlines : rangeLines header with
  | nil => exact iff_of_true rfl nofun
  | cons first rest =>
    rw [takenText, List.findSome?_cons]
    cases htext : announcedText first with
    | some text =>
      refine iff_of_true rfl fun first' next rest' heq hnone => ?_
      rw [← (List.cons.inj heq).1, htext] at hnone
      cases hnone
    | none =>
      cases rest with
      | nil => exact iff_of_true rfl nofun
      | cons next rest =>
        -- the front of the second line stands where the size is looked for
        have hzero : atoll (next.takeWhile (· ≠ '/')) = 0 :=
          atoll_range (hrange next (hlines ▸ List.mem_cons_of_mem first List.mem_cons_self))
        rw [Option.none_or, List.head?_cons, Option.map_some, Option.map_some, Option.getD_some, hzero]
        exact ⟨fun h _ _ _ _ _ => h.symm, fun h => (h first next rest rfl htext).symm⟩

/-- **The size in a partial response.** The header is read without an access behind its lines, and the
size is the one that it announces, or the one before, exactly when there is a line and the first range
line has a size, or is the last one, or the size is 0 anyway. -/
theorem updateFileSizeinPartial_iff (db : Db) (header : Str) (c : Connection) :
    (∃ c', c.updateFileSizeinPartial db header = some c' ∧
      c'.size_orig_file = (announcedSize header).getD c.size_orig_file) ↔
    (∃ d ∈ header, d ≠ '\r' ∧ d ≠ '\n') ∧
      ∀ first next rest, rangeLines header = first :: next :: rest → announcedText first = none →
        (announcedSize header).getD c.size_orig_file = 0 := by
  have hline : stringexplode header ['\r', '\n'] ≠ [] ↔ ∃ d ∈ header, d ≠ '\r' ∧ d ≠ '\n' := by
    rw [ne_eq, stringexplode_eq_nil_iff]
    simp
  rw [← hline, ← takenText_eq_iff]
  constructor
  · rintro ⟨c', hc', hsize⟩
    have hlines : stringexplode header ['\r', '\n'] ≠ [] := by
      intro hnil
      rw [Connection.updateFileSizeinPartial, hnil] at hc'
      cases hc'
    obtain ⟨c'', hc'', htaken⟩ := updateFileSizeinPartial_eq db c hlines
    cases hc'.symm.trans hc''
    exact ⟨hlines, htaken.symm.trans hsize⟩
  · rintro ⟨hlines, heq⟩
    obtain ⟨c', hc', htaken⟩ := updateFileSizeinPartial_eq db c hlines
    exact ⟨c', hc', htaken.trans heq⟩

/-- A partial response whose header cannot be read stops `ReadHeader`. -/
theorem readHeader_of_failed (db : Db) (again : Bool × Str) {c : Connection}
    (hunknown : c.size_orig_file = 0) (hmatch : c.r.isMatch = true) (hhit : c.hit = false)
    (hpart : c.isPartial = true) : c.readHeader db (false, []) again = none := by
  have hthrows : c.updateFileSizeinPartial db [] = none := rfl
  have hunread : c.readUnknown db (false, []) = none := by
    simp only [Connection.readUnknown, hpart, if_true, hthrows, Option.map_none, Option.bind_none]
  rw [Connection.readHeader, if_pos ⟨hunknown, hmatch, by simp [hhit]⟩, hunread, Option.bind_none]

/-- A header that could not be read, and one with a range line before that with the size. -/
theorem not_updateFileSizeinPartial_empty :
    Connection.new.updateFileSizeinPartial succeeds [] = none ∧
      ∃ header c', header = "s\r\nContent-Range: bytes\r\nContent-Range: bytes 0-1/5".toList ∧
        announcedSize header = some 5 ∧
        Connection.new.updateFileSizeinPartial succeeds header = some c' ∧
        c'.size_orig_file = 0 := by
  refine ⟨rfl, _, _, rfl, by decide, rfl, by decide⟩

end Haarp
