import Mathlib.Computability.Language

/-!
# Regular expressions

Regular expressions whose characters are classes, with the language that one denotes and the search
for its leftmost match, of the longest ones there. The search goes by derivatives; `stop` is what has
to hold of the text behind a match, so that an expression can be bound to the end of a line.

`search_sound`: what is found is a part of the text that the expression denotes.
-/

namespace Haarp.Base

open Computability

variable {α : Type*}

/-- An expression; a character is any one of a class. -/
inductive Regex (α : Type*)
  | zero
  | epsilon
  | char (p : α → Bool)
  | alt (r s : Regex α)
  | seq (r s : Regex α)
  | star (r : Regex α)

namespace Regex

/-- The word itself. -/
def word [DecidableEq α] : List α → Regex α
  | [] => epsilon
  | a :: w => seq (char (· = a)) (word w)

/-- One or more times. -/
def plus (r : Regex α) : Regex α := seq r (star r)

/-- At most once. -/
def opt (r : Regex α) : Regex α := alt epsilon r

/-- The given number of times. -/
def pow (r : Regex α) : ℕ → Regex α
  | 0 => epsilon
  | n + 1 => seq r (pow r n)

def language : Regex α → Language α
  | zero => 0
  | epsilon => 1
  | char p => {w | ∃ a, p a = true ∧ w = [a]}
  | alt r s => r.language + s.language
  | seq r s => r.language * s.language
  | star r => r.language∗

theorem mem_char {p : α → Bool} {w : List α} :
    w ∈ (char p).language ↔ ∃ a, p a = true ∧ w = [a] := Iff.rfl

theorem mem_seq {r s : Regex α} {w : List α} :
    w ∈ (seq r s).language ↔ ∃ u ∈ r.language, ∃ v ∈ s.language, u ++ v = w :=
  Language.mem_mul

theorem append_mem_seq {r s : Regex α} {u v : List α} (hu : u ∈ r.language) (hv : v ∈ s.language) :
    u ++ v ∈ (seq r s).language :=
  Language.append_mem_mul hu hv

theorem mem_opt {r : Regex α} {w : List α} : w ∈ (opt r).language ↔ w = [] ∨ w ∈ r.language :=
  Iff.rfl

theorem mem_word [DecidableEq α] {v w : List α} : w ∈ (word v).language ↔ w = v := by
  induction v generalizing w with
  | nil => exact Iff.rfl
  | cons a v ih =>
    rw [word, mem_seq]
    constructor
    · rintro ⟨x, ⟨b, hb, rfl⟩, y, hy, rfl⟩
      rw [ih.mp hy, of_decide_eq_true hb]
      rfl
    · rintro rfl
      exact ⟨[a], ⟨a, decide_eq_true rfl, rfl⟩, v, ih.mpr rfl, rfl⟩

/-- A word in two parts. -/
theorem language_word_append [DecidableEq α] (u v : List α) (r : Regex α) :
    (seq (word (u ++ v)) r).language = (seq (word u) (seq (word v) r)).language := by
  have hword : (word (u ++ v)).language = (word u).language * (word v).language := by
    ext w
    rw [mem_word, Language.mem_mul]
    constructor
    · rintro rfl
      exact ⟨u, mem_word.mpr rfl, v, mem_word.mpr rfl, rfl⟩
    · rintro ⟨_, hu, _, hv, rfl⟩
      rw [mem_word.mp hu, mem_word.mp hv]
  rw [language, hword, mul_assoc]
  rfl

/-- The words of a class of characters. -/
theorem mem_star_char {p : α → Bool} {w : List α} :
    w ∈ (star (char p)).language ↔ ∀ a ∈ w, p a = true := by
  rw [language, Language.mem_kstar]
  constructor
  · rintro ⟨parts, rfl, hparts⟩ a ha
    obtain ⟨part, hpart, ha⟩ := List.mem_flatten.mp ha
    obtain ⟨b, hb, rfl⟩ := hparts part hpart
    rwa [List.mem_singleton.mp ha]
  · intro h
    refine ⟨w.map fun a => [a], by rw [← List.flatMap_def, List.flatMap_singleton'], fun part hpart => ?_⟩
    obtain ⟨a, ha, rfl⟩ := List.mem_map.mp hpart
    exact ⟨a, h a ha, rfl⟩

theorem mem_plus_char {p : α → Bool} {w : List α} :
    w ∈ (plus (char p)).language ↔ w ≠ [] ∧ ∀ a ∈ w, p a = true := by
  rw [plus, mem_seq]
  constructor
  · rintro ⟨x, ⟨a, ha, rfl⟩, y, hy, rfl⟩
    exact ⟨List.cons_ne_nil a y, List.forall_mem_cons.mpr ⟨ha, mem_star_char.mp hy⟩⟩
  · rintro ⟨hne, h⟩
    obtain ⟨a, w, rfl⟩ := List.exists_cons_of_ne_nil hne
    rw [List.forall_mem_cons] at h
    exact ⟨[a], ⟨a, h.1, rfl⟩, w, mem_star_char.mpr h.2, rfl⟩

/-- The words of a class of characters with the given length. -/
theorem mem_pow_char {p : α → Bool} {n : ℕ} {w : List α} :
    w ∈ (pow (char p) n).language ↔ w.length = n ∧ ∀ a ∈ w, p a = true := by
  induction n generalizing w with
  | zero =>
    constructor
    · rintro rfl
      exact ⟨rfl, fun a ha => absurd ha List.not_mem_nil⟩
    · exact fun h => List.length_eq_zero_iff.mp h.1
  | succ n ih =>
    rw [pow, mem_seq]
    constructor
    · rintro ⟨_, ⟨a, ha, rfl⟩, w, hw, rfl⟩
      obtain ⟨hlength, hall⟩ := ih.mp hw
      exact ⟨congrArg Nat.succ hlength, List.forall_mem_cons.mpr ⟨ha, hall⟩⟩
    · rintro ⟨hlength, hall⟩
      obtain ⟨a, w, rfl⟩ := List.exists_cons_of_length_eq_add_one hlength
      obtain ⟨ha, hall⟩ := List.forall_mem_cons.mp hall
      exact ⟨[a], ⟨a, ha, rfl⟩, w, ih.mpr ⟨Nat.succ.inj hlength, hall⟩, rfl⟩

/-! ## Derivatives -/

def nullable : Regex α → Bool
  | zero | char _ => false
  | epsilon | star _ => true
  | alt r s => r.nullable || s.nullable
  | seq r s => r.nullable && s.nullable

/-- What follows the character `a` in a word of the language. -/
def deriv : Regex α → α → Regex α
  | zero, _ | epsilon, _ => zero
  | char p, a => if p a then epsilon else zero
  | alt r s, a => alt (r.deriv a) (s.deriv a)
  | seq r s, a =>
    if r.nullable then alt (seq (r.deriv a) s) (s.deriv a) else seq (r.deriv a) s
  | star r, a => seq (r.deriv a) (star r)

theorem nullable_iff (r : Regex α) : r.nullable = true ↔ [] ∈ r.language := by
  induction r with
  | zero => simp [nullable, language]
  | epsilon => simp [nullable, language]
  | char p => simp [nullable, mem_char]
  | alt r s ihr ihs => rw [nullable, Bool.or_eq_true, ihr, ihs, language, Language.mem_add]
  | seq r s ihr ihs => simp [nullable, language, Language.mem_mul, ihr, ihs]
  | star r => simp [nullable, language, Language.nil_mem_kstar]

/-- A word of a product begins in the first language, or that one has the empty word. -/
theorem cons_mem_mul {l m : Language α} {a : α} {w : List α} :
    a :: w ∈ l * m ↔ (∃ u, a :: u ∈ l ∧ ∃ v ∈ m, u ++ v = w) ∨ ([] ∈ l ∧ a :: w ∈ m) := by
  rw [Language.mem_mul]
  constructor
  · rintro ⟨u, hu, v, hv, h⟩
    cases u with
    | nil => exact .inr ⟨hu, h ▸ hv⟩
    | cons b u =>
      obtain ⟨rfl, rfl⟩ := List.cons.inj h
      exact .inl ⟨u, hu, v, hv, rfl⟩
  · rintro (⟨u, hu, v, hv, rfl⟩ | ⟨hnil, hw⟩)
    · exact ⟨a :: u, hu, v, hv, rfl⟩
    · exact ⟨[], hnil, a :: w, hw, rfl⟩

theorem cons_mem_kstar {l : Language α} {a : α} {w : List α} :
    a :: w ∈ l∗ ↔ ∃ u, a :: u ∈ l ∧ ∃ v ∈ l∗, u ++ v = w := by
  constructor
  · intro h
    obtain ⟨parts, hparts, hl⟩ := Language.mem_kstar_iff_exists_nonempty.mp h
    cases parts with
    | nil => cases hparts
    | cons part parts =>
      obtain ⟨hpart, hne⟩ := hl part List.mem_cons_self
      cases part with
      | nil => exact absurd rfl hne
      | cons b u =>
        rw [List.flatten_cons, List.cons_append] at hparts
        obtain ⟨rfl, rfl⟩ := List.cons.inj hparts
        refine ⟨u, hpart, parts.flatten, Language.join_mem_kstar fun y hy => ?_, rfl⟩
        exact (hl y (List.mem_cons_of_mem _ hy)).1
  · rintro ⟨u, hu, v, hv, rfl⟩
    rw [← Language.one_add_self_mul_kstar_eq_kstar, Language.mem_add]
    exact .inr (Language.append_mem_mul hu hv)

theorem mem_deriv (r : Regex α) (a : α) (w : List α) :
    w ∈ (r.deriv a).language ↔ a :: w ∈ r.language := by
  induction r generalizing w with
  | zero => simp [deriv, language]
  | epsilon => simp [deriv, language]
  | char p =>
    rw [mem_char, deriv]
    by_cases hp : p a = true
    · simp [hp, language]
    · simp [hp, language]
  | alt r s ihr ihs => simp only [deriv, language, Language.mem_add, ihr, ihs]
  | seq r s ihr ihs =>
    have hseq : w ∈ (seq (r.deriv a) s).language ↔
        ∃ u, a :: u ∈ r.language ∧ ∃ v ∈ s.language, u ++ v = w := by
      simp only [language, Language.mem_mul, ihr]
    rw [deriv, language, cons_mem_mul, ← hseq, ← nullable_iff]
    split
    · next hnull => simp only [language, Language.mem_add, hnull, true_and, ihs]
    · next hnull => simp only [hnull, false_and, or_false, Bool.false_eq_true]
  | star r ih =>
    rw [language, cons_mem_kstar, deriv]
    simp only [language, Language.mem_mul, ih]

/-! ## Searching -/

section Search

variable (stop : List α → Bool)

/-- The length of the longest match at the front of a text. -/
def front : Regex α → List α → Option ℕ
  | r, [] => if r.nullable && stop [] then some 0 else none
  | r, a :: s =>
    match front (r.deriv a) s with
    | some n => some (n + 1)
    | none => if r.nullable && stop (a :: s) then some 0 else none

/-- The leftmost match in a text. -/
def search (r : Regex α) : List α → Option (List α)
  | [] => (front stop r []).map fun n => List.take n []
  | a :: s =>
    match front stop r (a :: s) with
    | some n => some ((a :: s).take n)
    | none => search r s

variable {stop}

theorem front_sound {r : Regex α} {s : List α} {n : ℕ} (h : front stop r s = some n) :
    s.take n ∈ r.language ∧ stop (s.drop n) = true := by
  induction s generalizing r n with
  | nil =>
    simp only [front, Bool.and_eq_true, Option.ite_none_right_eq_some] at h
    obtain ⟨⟨hnull, hstop⟩, -⟩ := h
    rw [List.take_nil, List.drop_nil]
    exact ⟨(nullable_iff r).mp hnull, hstop⟩
  | cons a s ih =>
    rw [front] at h
    split at h
    · next m hm =>
      cases h
      obtain ⟨hmem, hstop⟩ := ih hm
      exact ⟨(mem_deriv r a _).mp hmem, hstop⟩
    · simp only [Bool.and_eq_true, Option.ite_none_right_eq_some, Option.some.injEq] at h
      obtain ⟨⟨hnull, hstop⟩, rfl⟩ := h
      exact ⟨(nullable_iff r).mp hnull, hstop⟩

/-- What is found is a part of the text that the expression denotes. -/
theorem search_sound {r : Regex α} {s w : List α} (h : search stop r s = some w) :
    w ∈ r.language ∧ ∃ u v, s = u ++ w ++ v ∧ stop v = true := by
  induction s with
  | nil =>
    obtain ⟨n, hn, rfl⟩ := Option.map_eq_some_iff.mp h
    obtain ⟨hmem, hstop⟩ := front_sound hn
    exact ⟨hmem, [], List.drop n [], by simp, hstop⟩
  | cons a s ih =>
    rw [search] at h
    split at h
    · next n hn =>
      cases h
      obtain ⟨hmem, hstop⟩ := front_sound hn
      exact ⟨hmem, [], (a :: s).drop n, by rw [List.nil_append, List.take_append_drop], hstop⟩
    · obtain ⟨hmem, u, v, heq, hstop⟩ := ih h
      exact ⟨hmem, a :: u, v, by rw [heq]; rfl, hstop⟩

/-- A match at the front is found. -/
theorem front_isSome_iff {r : Regex α} {s : List α} :
    (front stop r s).isSome = true ↔ ∃ u v, s = u ++ v ∧ u ∈ r.language ∧ stop v = true := by
  constructor
  · intro h
    obtain ⟨n, hn⟩ := Option.isSome_iff_exists.mp h
    obtain ⟨hmem, hstop⟩ := front_sound hn
    exact ⟨s.take n, s.drop n, (List.take_append_drop n s).symm, hmem, hstop⟩
  · rintro ⟨u, v, rfl, hu, hv⟩
    have hempty : ∀ r : Regex α, ∀ s, [] ∈ r.language → stop s = true →
        (front stop r s).isSome = true := by
      intro r s hnil hstop
      have hnull := (nullable_iff r).mpr hnil
      cases s with
      | nil => simp [front, hnull, hstop]
      | cons a s =>
        rw [front]
        split
        · rfl
        · simp [hnull, hstop]
    induction u generalizing r with
    | nil => exact hempty r v hu hv
    | cons a u ih =>
      have hrest := ih ((mem_deriv r a u).mpr hu)
      rw [List.cons_append, front]
      split
      · rfl
      · next hnone =>
        rw [hnone] at hrest
        cases hrest

/-- **What is somewhere in a text is found.** -/
theorem search_isSome_iff {r : Regex α} {s : List α} :
    (search stop r s).isSome = true ↔
      ∃ u w v, s = u ++ (w ++ v) ∧ w ∈ r.language ∧ stop v = true := by
  induction s with
  | nil =>
    rw [search, Option.isSome_map, front_isSome_iff]
    constructor
    · rintro ⟨w, v, h, hw⟩
      exact ⟨[], w, v, h, hw⟩
    · rintro ⟨u, w, v, h, hw⟩
      exact ⟨w, v, (List.append_eq_nil_iff.mp h.symm).2.symm, hw⟩
  | cons a s ih =>
    have hfront : (front stop r (a :: s)).isSome = true ↔
        ∃ w v, a :: s = w ++ v ∧ w ∈ r.language ∧ stop v = true := front_isSome_iff
    rw [search]
    constructor
    · intro h
      split at h
      · next n hn =>
        obtain ⟨w, v, heq, hw⟩ := hfront.mp (by rw [hn]; rfl)
        exact ⟨[], w, v, heq, hw⟩
      · obtain ⟨u, w, v, heq, hw⟩ := ih.mp h
        exact ⟨a :: u, w, v, by rw [heq]; rfl, hw⟩
    · rintro ⟨u, w, v, heq, hw⟩
      cases u with
      | nil =>
        have hsome := hfront.mpr ⟨w, v, heq, hw⟩
        split
        · rfl
        · next hnone =>
          rw [hnone] at hsome
          cases hsome
      | cons b u =>
        have htail := ih.mpr ⟨u, w, v, (List.cons.inj heq).2, hw⟩
        split
        · rfl
        · exact htail

end Search

end Regex

end Haarp.Base
