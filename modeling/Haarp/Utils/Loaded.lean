import Haarp.Utils.Append
import Haarp.Utils.Strings

/-!
# Loaded lists

A block list that is written to its row and loaded again has its blocks in reverse order
(`generateList_list2string`). `loaded_same` says that this is the only difference and that it does not
matter: loaded twice, the list is the one that was written, and the functions that read a list give
the same results.
-/

namespace Haarp

open Base

variable {l l' : LintervalPositionByteDisk}

/-- Two orders of one list are sorted alike when no two of its blocks start at one byte. -/
theorem sortIntervals_congr (hperm : l.Perm l') (hne : l.Pairwise fun x y => x.a ≠ y.a) :
    sortIntervals l = sortIntervals l' := by
  have hsorted : ∀ m, (sortIntervals m).Pairwise compareIntervals :=
    fun m => List.pairwise_insertionSort compareIntervals m
  have hall := (sortIntervals_perm l).trans (hperm.trans (sortIntervals_perm l').symm)
  refine hall.eq_of_pairwise ?_ (hsorted l) (hsorted l')
  intro x y hx hy hxy hyx
  have hx' := (sortIntervals_perm l).mem_iff.mp hx
  have hy' := (hperm.trans (sortIntervals_perm l').symm).mem_iff.mpr hy
  exact List.inj_on_of_nodup_map (List.pairwise_map.mpr hne) hx' hy' (Int.le_antisymm hxy hyx)

/-- The plan does not depend on the order of the list. -/
theorem getRangeWork_congr (hperm : l.Perm l') (hle : ∀ x ∈ l, x.a ≤ x.b) (hapart : ApartBytes l)
    (interval_a interval_b : Int) :
    getRangeWork l interval_a interval_b = getRangeWork l' interval_a interval_b := by
  have hne : l.Pairwise fun x y => x.a ≠ y.a := by
    refine hapart.imp_of_mem fun {x y} hx hy h => ?_
    have hxb := hle x hx
    have hyb := hle y hy
    rcases h with h | h <;> omega
  unfold getRangeWork
  rw [sortIntervals_congr hperm hne]

/-- The end of the file is that of the block of greatest position, wherever it is in the list. -/
theorem getPointEnd_congr (hperm : l.Perm l') (hne : l.Pairwise fun x y => x.position ≠ y.position) :
    getPointEnd l = getPointEnd l' := by
  unfold getPointEnd
  cases hlast : getlastnode l with
  | none =>
    have hnil : l' = [] := (getlastnode_eq_none.mp hlast ▸ hperm).nil_eq.symm
    rw [hnil]
    rfl
  | some r =>
    obtain ⟨last, ix⟩ := r
    obtain ⟨hget, hmax⟩ := getlastnode_spec hlast
    have hmem := List.mem_of_getElem? hget
    cases hlast' : getlastnode l' with
    | none =>
      rw [getlastnode_eq_none.mp hlast'] at hperm
      rw [hperm.eq_nil] at hmem
      cases hmem
    | some r' =>
      obtain ⟨last', ix'⟩ := r'
      obtain ⟨hget', hmax'⟩ := getlastnode_spec hlast'
      have hmem' := hperm.mem_iff.mpr (List.mem_of_getElem? hget')
      have hsame : last = last' := by
        refine List.inj_on_of_nodup_map (List.pairwise_map.mpr hne) hmem hmem'
          (Int.le_antisymm ?_ ?_)
        · exact hmax' last (hperm.mem_iff.mp hmem)
        · exact hmax last' hmem'
      rw [hsame]

theorem InRange.reverse (hl : InRange l) : InRange l.reverse :=
  ⟨fun x hx => hl.a x (List.mem_reverse.mp hx), fun x hx => hl.b x (List.mem_reverse.mp hx),
    fun x hx => hl.position x (List.mem_reverse.mp hx)⟩

/-- **The round trip of a row**: a list that is written is loaded in reverse order, written and loaded
twice it is the list itself, and what is read of a list is read of the loaded one. -/
theorem loaded_same (hl : InRange l) :
    generateList (list2string l).1 (list2string l).2 = (true, l.reverse) ∧
      generateList (list2string l.reverse).1 (list2string l.reverse).2 = (true, l) ∧
      (ApartBytes l → ∀ interval_a interval_b,
        getRangeWork l.reverse interval_a interval_b = getRangeWork l interval_a interval_b) ∧
      ((l.Pairwise fun x y => x.position ≠ y.position) → getPointEnd l.reverse = getPointEnd l) ∧
      getFileSize l.reverse = getFileSize l := by
  have hperm : l.Perm l.reverse := l.reverse_perm.symm
  refine ⟨generateList_list2string hl, ?_, fun hapart interval_a interval_b => ?_, fun hne => ?_, ?_⟩
  · have htwice := generateList_list2string hl.reverse
    rwa [List.reverse_reverse] at htwice
  · exact (getRangeWork_congr hperm (fun x hx => (hl.b x hx).1) hapart interval_a interval_b).symm
  · exact (getPointEnd_congr hperm hne).symm
  · exact (getFileSize_perm hperm).symm

theorem loaded_same_two :
    generateList (list2string [⟨5, 9, 0⟩, ⟨0, 2, 5⟩]).1 (list2string [⟨5, 9, 0⟩, ⟨0, 2, 5⟩]).2 =
      (true, [⟨0, 2, 5⟩, ⟨5, 9, 0⟩]) ∧
    getPointEnd [⟨0, 2, 5⟩, ⟨5, 9, 0⟩] = getPointEnd [⟨5, 9, 0⟩, ⟨0, 2, 5⟩] := by
  have h := loaded_same (l := [⟨5, 9, 0⟩, ⟨0, 2, 5⟩])
    ⟨by simp, by simp [llongMax], by simp [llongMax]⟩
  exact ⟨h.1, h.2.2.2.1 (by simp)⟩

end Haarp
