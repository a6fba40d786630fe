import Mathlib.Data.List.Nodup

/-!
# Sweeping a list

A collector takes items out of a list in turns, one kind of item after the other. `Swept` says which kinds
it has come to and which of them it has finished; sweeps follow one another (`Swept.trans`), and when all
kinds are finished, what is left is a filter of the list (`Swept.eq_filter`).
-/

namespace Haarp.Base

variable {α β : Type*} {takes : β → α → Prop} {done done' bs bs' : List β} {l l' l'' : List α}

/-- `l'` is left of `l`: only items of the kinds `bs` are gone, and of the kinds `done` there are none. -/
structure Swept (takes : β → α → Prop) (done bs : List β) (l l' : List α) : Prop where
  sublist : l'.Sublist l
  taken : ∀ a ∈ l, a ∉ l' → ∃ b ∈ bs, takes b a
  emptied : ∀ b ∈ done, ∀ a ∈ l', ¬ takes b a

namespace Swept

theorem refl (l : List α) : Swept takes [] [] l l :=
  ⟨List.Sublist.refl l, fun _ hl hl' => absurd hl hl', fun _ hb => absurd hb (List.not_mem_nil)⟩

theorem trans (h : Swept takes done bs l l') (h' : Swept takes done' bs' l' l'') :
    Swept takes (done ++ done') (bs ++ bs') l l'' := by
  refine ⟨h'.sublist.trans h.sublist, ?_, ?_⟩
  · intro a hl hl''
    by_cases hl' : a ∈ l'
    · obtain ⟨b, hb, htakes⟩ := h'.taken a hl' hl''
      exact ⟨b, List.mem_append_right _ hb, htakes⟩
    · obtain ⟨b, hb, htakes⟩ := h.taken a hl hl'
      exact ⟨b, List.mem_append_left _ hb, htakes⟩
  · intro b hb a ha
    rcases List.mem_append.mp hb with hb | hb
    · exact h.emptied b hb a (h'.sublist.subset ha)
    · exact h'.emptied b hb a ha

/-- A sweep over no more kinds. -/
theorem mono (h : Swept takes done bs l l') (hdone : done' ⊆ done) (hbs : bs ⊆ bs') :
    Swept takes done' bs' l l' := by
  refine ⟨h.sublist, fun a hl hl' => ?_, fun b hb => h.emptied b (hdone hb)⟩
  obtain ⟨b, hb, htakes⟩ := h.taken a hl hl'
  exact ⟨b, hbs hb, htakes⟩

theorem mem_iff (h : Swept takes bs bs l l') {a : α} : a ∈ l' ↔ a ∈ l ∧ ∀ b ∈ bs, ¬ takes b a := by
  constructor
  · exact fun ha => ⟨h.sublist.subset ha, fun b hb => h.emptied b hb a ha⟩
  · rintro ⟨hl, hnone⟩
    by_contra hl'
    obtain ⟨b, hb, htakes⟩ := h.taken a hl hl'
    exact hnone b hb htakes

/-- All kinds are finished. -/
theorem eq_filter (h : Swept takes bs bs l l') (hnodup : l.Nodup) (p : α → Bool)
    (hp : ∀ a ∈ l, p a = true ↔ ∀ b ∈ bs, ¬ takes b a) : l' = l.filter p := by
  have hsublist : l'.Sublist (l.filter p) := by
    have hself : l'.filter p = l' := by
      rw [List.filter_eq_self]
      intro a ha
      have hl := h.sublist.subset ha
      exact (hp a hl).mpr (h.mem_iff.mp ha).2
    rw [← hself]
    exact h.sublist.filter p
  refine hsublist.eq_of_length ?_
  refine List.Perm.length_eq ((List.perm_ext_iff_of_nodup (h.sublist.nodup hnodup)
    (hnodup.filter p)).mpr fun a => ?_)
  rw [h.mem_iff, List.mem_filter]
  exact ⟨fun ⟨hl, hnone⟩ => ⟨hl, (hp a hl).mpr hnone⟩, fun ⟨hl, hpa⟩ => ⟨hl, (hp a hl).mp hpa⟩⟩

end Swept

end Haarp.Base
