import Mathlib.Data.List.Infix
import Mathlib.Data.List.TakeWhile
import Mathlib.Tactic.Common

/-!
# Where a word is found

A word that has a separator in it is found in a text when the text splits at this separator into one that
ends with the front of the word and one that begins with the rest (`infix_iff_exists`). What decides the
two sides stands next to the separator: nothing before another separator counts for the end of the left
side (`suffix_append_cons_iff`), and nothing behind one for the beginning of the right side
(`prefix_append_iff`).
-/

namespace Haarp.Base

section Occurrence

variable {α : Type*} {a c : α} {u v w x y z s t : List α}

/-- A text splits at an `a` behind what has none. -/
theorem append_eq_append_cons_iff (h : a ∉ u) :
    u ++ t = x ++ a :: y ↔ ∃ x', x = u ++ x' ∧ t = x' ++ a :: y := by
  constructor
  · intro heq
    rcases List.append_eq_append_iff.mp heq with ⟨x', rfl, ht⟩ | ⟨bs, rfl, hcons⟩
    · exact ⟨x', rfl, ht⟩
    · cases bs with
      | nil => exact ⟨[], by rw [List.append_nil, List.append_nil], hcons.symm⟩
      | cons b bs =>
        obtain ⟨rfl, -⟩ := List.cons.inj hcons
        exact absurd (List.mem_append_right x List.mem_cons_self) h
  · rintro ⟨x', rfl, rfl⟩
    rw [List.append_assoc]

/-- A text splits at its first `a`, or behind it. -/
theorem append_cons_eq_iff (h : a ∉ u) :
    u ++ a :: t = x ++ a :: y ↔ (x = u ∧ y = t) ∨ ∃ x', x = u ++ a :: x' ∧ t = x' ++ a :: y := by
  rw [append_eq_append_cons_iff h]
  constructor
  · rintro ⟨x', rfl, hcons⟩
    cases x' with
    | nil => exact .inl ⟨List.append_nil u, (List.cons.inj hcons).2.symm⟩
    | cons b x' =>
      obtain ⟨rfl, ht⟩ := List.cons.inj hcons
      exact .inr ⟨x', rfl, ht⟩
  · rintro (⟨rfl, rfl⟩ | ⟨x', rfl, rfl⟩)
    · exact ⟨[], (List.append_nil x).symm, rfl⟩
    · exact ⟨a :: x', rfl, rfl⟩

/-- The front of a text, split at an element. -/
theorem takeWhile_eq_append_cons_iff {p : α → Bool} :
    s.takeWhile p = x ++ a :: y ↔
      (∀ b ∈ x, p b = true) ∧ p a = true ∧ ∃ y', s = x ++ a :: y' ∧ y = y'.takeWhile p := by
  constructor
  · intro heq
    have hall : ∀ b ∈ x ++ a :: y, p b = true := by
      intro b hb
      rw [← heq] at hb
      exact List.mem_takeWhile_imp hb
    have hx : ∀ b ∈ x, p b = true := fun b hb => hall b (List.mem_append_left _ hb)
    have ha : p a = true := hall a (List.mem_append_right x List.mem_cons_self)
    have hs : s = x ++ a :: (y ++ s.dropWhile p) := by
      have hboth := (@List.takeWhile_append_dropWhile α p s).symm
      rwa [heq, List.append_assoc, List.cons_append] at hboth
    refine ⟨hx, ha, y ++ s.dropWhile p, hs, ?_⟩
    have hfront := heq
    rw [hs, List.takeWhile_append_of_pos hx, List.takeWhile_cons_of_pos ha] at hfront
    have hcons := List.append_cancel_left hfront
    exact ((List.cons.inj hcons).2).symm
  · rintro ⟨hx, ha, y', rfl, rfl⟩
    rw [List.takeWhile_append_of_pos hx, List.takeWhile_cons_of_pos ha]

/-- A word ends a text behind `c`, or it begins with this one. -/
theorem suffix_append_cons_iff (h : c ∉ w) :
    a :: w <:+ z ++ c :: u ↔ a :: w <:+ u ∨ (a = c ∧ w = u) := by
  constructor
  · rintro ⟨front, heq⟩
    rcases List.append_eq_append_iff.mp heq with ⟨as, rfl, hcons⟩ | ⟨as, -, hcons⟩
    · cases as with
      | nil =>
        obtain ⟨rfl, hu⟩ := List.cons.inj hcons
        exact .inr ⟨rfl, hu⟩
      | cons b as =>
        obtain ⟨-, rfl⟩ := List.cons.inj hcons
        exact absurd (List.mem_append_right as List.mem_cons_self) h
    · cases as with
      | nil =>
        obtain ⟨rfl, hu⟩ := List.cons.inj hcons
        exact .inr ⟨rfl, hu.symm⟩
      | cons b as =>
        obtain ⟨-, rfl⟩ := List.cons.inj hcons
        exact .inl ⟨as, rfl⟩
  · rintro (hsuffix | ⟨rfl, rfl⟩)
    · exact hsuffix.trans ((List.suffix_cons c u).trans (List.suffix_append z _))
    · exact List.suffix_append z _

/-- A word begins a text in front of what it does not have. -/
theorem prefix_append_iff (h : ∀ b, t.head? = some b → b ∉ w) : w <+: v ++ t ↔ w <+: v := by
  constructor
  · intro hprefix
    rcases List.prefix_or_prefix_of_prefix hprefix (List.prefix_append v t) with hv | ⟨rest, rfl⟩
    · exact hv
    · rw [List.prefix_append_right_inj] at hprefix
      cases rest with
      | nil =>
        rw [List.append_nil]
      | cons b rest =>
        obtain ⟨tail, rfl⟩ := hprefix
        exact absurd (List.mem_append_right v List.mem_cons_self) (h b rfl)
  · exact fun hprefix => hprefix.trans (List.prefix_append v t)

/-- A word with `a` in it is found around an `a` of the text. -/
theorem infix_iff_exists : u ++ a :: v <:+: s ↔ ∃ x y, s = x ++ a :: y ∧ u <:+ x ∧ v <+: y := by
  constructor
  · rintro ⟨front, back, rfl⟩
    refine ⟨front ++ u, v ++ back, ?_, List.suffix_append front u, List.prefix_append v back⟩
    rw [List.append_assoc, List.append_assoc, List.append_assoc, List.cons_append]
  · rintro ⟨_, _, rfl, ⟨front, rfl⟩, ⟨back, rfl⟩⟩
    refine ⟨front, back, ?_⟩
    rw [List.append_assoc, List.append_assoc, List.append_assoc, List.cons_append]

end Occurrence

section Components

variable {α : Type*} {a : α} {front x y c : List α} {cs : List (List α)}

/-- Each `a` of a text of components stands before one of them. -/
theorem append_flatMap_cons_eq_iff (hfront : a ∉ front) (h : ∀ c ∈ cs, a ∉ c) :
    front ++ cs.flatMap (a :: ·) = x ++ a :: y ↔
      ∃ pre c post, cs = pre ++ c :: post ∧ x = front ++ pre.flatMap (a :: ·) ∧
        y = c ++ post.flatMap (a :: ·) := by
  induction cs generalizing front x with
  | nil =>
    constructor
    · intro heq
      rw [List.flatMap_nil, List.append_nil] at heq
      rw [heq] at hfront
      exact absurd (List.mem_append_right x List.mem_cons_self) hfront
    · rintro ⟨pre, c, post, heq, -⟩
      exact absurd heq.symm (List.append_ne_nil_of_right_ne_nil pre (List.cons_ne_nil c post))
  | cons d cs ih =>
    obtain ⟨hd, hcs⟩ := List.forall_mem_cons.mp h
    rw [List.flatMap_cons, List.cons_append, append_cons_eq_iff hfront]
    constructor
    · rintro (⟨rfl, rfl⟩ | ⟨x', rfl, heq⟩)
      · exact ⟨[], d, cs, rfl, (List.append_nil x).symm, rfl⟩
      · obtain ⟨pre, c, post, rfl, rfl, rfl⟩ := (ih hd hcs).mp heq
        refine ⟨d :: pre, c, post, rfl, ?_, rfl⟩
        rw [List.flatMap_cons, List.cons_append]
    · rintro ⟨pre, c, post, heq, rfl, rfl⟩
      cases pre with
      | nil =>
        obtain ⟨rfl, rfl⟩ := List.cons.inj heq
        exact .inl ⟨List.append_nil front, rfl⟩
      | cons e pre =>
        obtain ⟨rfl, hrest⟩ := List.cons.inj heq
        refine .inr ⟨d ++ pre.flatMap (a :: ·), ?_, (ih hd hcs).mpr ⟨pre, c, post, hrest, rfl, rfl⟩⟩
        rw [List.flatMap_cons, List.cons_append]

/-- A component and the next one are found where they stand. -/
theorem append_flatMap_cons_eq_pair (hfront : a ∉ front) (h : ∀ c ∈ cs, a ∉ c) (hc : a ∉ c)
    (heq : front ++ cs.flatMap (a :: ·) = x ++ a :: (c ++ a :: y)) :
    ∃ pre d post, cs = pre ++ c :: d :: post ∧ x = front ++ pre.flatMap (a :: ·) ∧
      y = d ++ post.flatMap (a :: ·) := by
  obtain ⟨pre, e, rest, rfl, rfl, hrest⟩ := (append_flatMap_cons_eq_iff hfront h).mp heq
  have he : a ∉ e := h e (List.mem_append_right pre List.mem_cons_self)
  have hall : ∀ d ∈ rest, a ∉ d := fun d hd => h d (List.mem_append_right pre (List.mem_cons_of_mem e hd))
  obtain ⟨between, d, post, rfl, rfl, rfl⟩ := (append_flatMap_cons_eq_iff he hall).mp hrest.symm
  cases between with
  | nil =>
    refine ⟨pre, d, post, ?_, rfl, rfl⟩
    rw [List.flatMap_nil, List.append_nil, List.nil_append]
  | cons f between => exact absurd (List.mem_append_right e List.mem_cons_self) hc

/-- What follows the only component of a name. -/
theorem eq_of_append_cons_cons_eq {name d e : α} {pre post pre' post' : List α}
    (hpre : name ∉ pre) (hpost : name ∉ d :: post)
    (h : pre ++ name :: d :: post = pre' ++ name :: e :: post') : pre' = pre ∧ e = d ∧ post' = post := by
  rcases (append_cons_eq_iff hpre).mp h with ⟨rfl, hcons⟩ | ⟨between, -, hcons⟩
  · obtain ⟨rfl, rfl⟩ := List.cons.inj hcons
    exact ⟨rfl, rfl, rfl⟩
  · rw [hcons] at hpost
    exact absurd (List.mem_append_right between List.mem_cons_self) hpost

end Components

end Haarp.Base
