import Mathlib.Data.List.Basic
import Mathlib.Data.Int.Basic
import Mathlib.Tactic.Common

/-!
# Files and layouts

A file is the list of its cells. `cell f p` reads the cell at an integer offset; `writeAt` writes at
an offset, filling a gap behind the end; `readAt` reads what is there, up to the end.

A layout relates items to the offsets where they lie. It is faithful to a content when every item
that lies somewhere is found there (`Faithful`). What keeps a layout faithful: to forget items
(`Faithful.mono`), to write elsewhere, or to write at an offset of the layout the item that lies
there (`faithful_writeAt`).
-/

namespace Haarp.Base

section Files

variable {β : Type*}

/-- The cell at offset `p`. -/
def cell (f : List β) (p : ℤ) : Option β := if 0 ≤ p then f[p.toNat]? else none

/-- Writes `d` at offset `pos`; cells between the end of the file and `pos` become `fill`. -/
def writeAt (fill : β) (f : List β) (pos : ℕ) (d : List β) : List β :=
  if d.isEmpty then f
  else (f ++ List.replicate (pos - f.length) fill).take pos ++ d ++ f.drop (pos + d.length)

/-- Reads at most `n` cells at offset `pos`. -/
def readAt (f : List β) (pos n : ℕ) : List β := (f.drop pos).take n

theorem cell_eq_some {f : List β} {p : ℤ} {c : β} :
    cell f p = some c ↔ 0 ≤ p ∧ f[p.toNat]? = some c := by
  unfold cell
  by_cases h : 0 ≤ p <;> simp [h]

theorem cell_of_nat (f : List β) (k : ℕ) : cell f k = f[k]? := by simp [cell]

/-- An offset with a cell lies inside the file. -/
theorem lt_length_of_cell {f : List β} {p : ℤ} {c : β} (h : cell f p = some c) :
    0 ≤ p ∧ p < f.length := by
  obtain ⟨h₀, h⟩ := cell_eq_some.mp h
  obtain ⟨hlt, -⟩ := List.getElem?_eq_some_iff.mp h
  omega

theorem getElem?_writeAt_of_lt {fill : β} {f d : List β} {pos k : ℕ} {c : β} (hk : k < pos)
    (h : f[k]? = some c) : (writeAt fill f pos d)[k]? = some c := by
  unfold writeAt
  split
  · exact h
  · obtain ⟨hlt, -⟩ := List.getElem?_eq_some_iff.mp h
    rw [List.append_assoc, List.getElem?_append_left (by simp; omega), List.getElem?_take,
      if_pos hk, List.getElem?_append_left hlt, h]

theorem getElem?_writeAt_of_ge {fill : β} {f d : List β} {pos k : ℕ} {c : β}
    (hk : pos + d.length ≤ k) (h : f[k]? = some c) : (writeAt fill f pos d)[k]? = some c := by
  unfold writeAt
  split
  · exact h
  · obtain ⟨hlt, -⟩ := List.getElem?_eq_some_iff.mp h
    have hlen : ((f ++ List.replicate (pos - f.length) fill).take pos).length = pos := by
      simp only [List.length_take, List.length_append, List.length_replicate]
      omega
    rw [List.append_assoc, List.getElem?_append_right (by omega), hlen,
      List.getElem?_append_right (by omega), List.getElem?_drop]
    rw [← h]
    congr 1
    omega

theorem getElem?_writeAt_in (fill : β) (f : List β) {d : List β} (pos : ℕ) {i : ℕ}
    (hi : i < d.length) : (writeAt fill f pos d)[pos + i]? = d[i]? := by
  unfold writeAt
  split
  · rename_i h
    rw [List.isEmpty_iff] at h
    subst h
    simp at hi
  · have hlen : ((f ++ List.replicate (pos - f.length) fill).take pos).length = pos := by
      simp only [List.length_take, List.length_append, List.length_replicate]
      omega
    rw [List.append_assoc, List.getElem?_append_right (by omega), hlen,
      Nat.add_sub_cancel_left, List.getElem?_append_left hi]

/-- Outside the written offsets a write keeps every cell. -/
theorem cell_writeAt_out {fill : β} {f d : List β} {pos : ℕ} {p : ℤ} {c : β}
    (hp : p < pos ∨ pos + d.length ≤ p) (h : cell f p = some c) :
    cell (writeAt fill f pos d) p = some c := by
  obtain ⟨h₀, h⟩ := cell_eq_some.mp h
  rw [cell_eq_some]
  rcases hp with hp | hp
  · exact ⟨h₀, getElem?_writeAt_of_lt (by omega) h⟩
  · exact ⟨h₀, getElem?_writeAt_of_ge (by omega) h⟩

theorem cell_writeAt_in {fill : β} {f d : List β} {pos : ℕ} {i : ℕ} (hi : i < d.length) :
    cell (writeAt fill f pos d) (pos + i : ℤ) = d[i]? := by
  rw [← getElem?_writeAt_in fill f pos hi, ← cell_of_nat]
  push_cast
  rfl

theorem map_writeAt {γ : Type*} (g : β → γ) (fill : β) (f d : List β) (pos : ℕ) :
    (writeAt fill f pos d).map g = writeAt (g fill) (f.map g) pos (d.map g) := by
  unfold writeAt
  split <;> simp_all

theorem cell_map {γ : Type*} (g : β → γ) (f : List β) (p : ℤ) :
    cell (f.map g) p = (cell f p).map g := by
  unfold cell
  split
  · rw [List.getElem?_map]
  · rfl

/-- A read inside the file returns as many cells as asked for. -/
theorem length_readAt {f : List β} {pos n : ℕ} (h : pos + n ≤ f.length) :
    (readAt f pos n).length = n := by
  simp only [readAt, List.length_take, List.length_drop]
  omega

theorem getElem?_readAt {f : List β} {pos n i : ℕ} (hi : i < n) :
    (readAt f pos n)[i]? = f[pos + i]? := by
  rw [readAt, List.getElem?_take, if_pos hi, List.getElem?_drop]

/-- Two reads, the second where the first one ends. -/
theorem readAt_append (f : List β) (pos n m : ℕ) :
    readAt f pos n ++ readAt f (pos + n) m = readAt f pos (n + m) := by
  rw [readAt, readAt, readAt, List.take_add, List.drop_drop]

end Files

section Layouts

variable {ι β : Type*}

/-- Every item that lies at some offset is found there. -/
def Faithful (L : ι → ℤ → Prop) (R : ι → β) (f : List β) : Prop :=
  ∀ n p, L n p → cell f p = some (R n)

variable {L L' : ι → ℤ → Prop} {R : ι → β} {f : List β}

theorem Faithful.mono (h : Faithful L R f) (hL : ∀ n p, L' n p → L n p) : Faithful L' R f :=
  fun n p hn => h n p (hL n p hn)

/-- A file shows what a view shows of its items. -/
theorem Faithful.map {γ : Type*} (g : β → γ) (h : Faithful L R f) :
    Faithful L (g ∘ R) (f.map g) := by
  intro n p hn
  rw [cell_map, h n p hn]
  rfl

/-- **Writing makes a layout faithful** when the file is right outside the written offsets, and the
write puts at each offset of the layout the item that lies there. -/
theorem faithful_writeAt {fill : β} {d : List β} {pos : ℕ}
    (hout : ∀ n p, L n p → p < pos ∨ (pos + d.length : ℤ) ≤ p → cell f p = some (R n))
    (hin : ∀ n, ∀ i < d.length, L n (pos + i : ℤ) → d[i]? = some (R n)) :
    Faithful L R (writeAt fill f pos d) := by
  intro n p hn
  by_cases hp : p < pos ∨ (pos + d.length : ℤ) ≤ p
  · exact cell_writeAt_out hp (hout n p hn hp)
  · have hi : (p - pos).toNat < d.length := by omega
    have hpe : p = (pos + (p - pos).toNat : ℤ) := by omega
    rw [hpe] at hn ⊢
    rw [cell_writeAt_in hi]
    exact hin n _ hi hn

/-- A layout that puts no two items at one offset has a file. -/
theorem exists_faithful (R : ι → β) (fill : β) {e : ℕ} (hinj : ∀ n m p, L n p → L m p → n = m)
    (hbound : ∀ n p, L n p → 0 ≤ p ∧ p < e) : ∃ f, Faithful L R f := by
  classical
  refine ⟨List.ofFn fun k : Fin e => if h : ∃ n, L n (k : ℕ) then R h.choose else fill, ?_⟩
  intro n p hn
  obtain ⟨hnonneg, hlt⟩ := hbound n p hn
  obtain ⟨k, rfl⟩ := Int.eq_ofNat_of_zero_le hnonneg
  have hk : k < e := Int.ofNat_lt.mp hlt
  have hexists : ∃ n, L n (k : ℕ) := ⟨n, hn⟩
  rw [cell_of_nat, List.getElem?_ofFn, dif_pos hk, dif_pos hexists, hinj _ _ _ hexists.choose_spec hn]

end Layouts

end Haarp.Base
