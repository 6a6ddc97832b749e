import Mathlib.Data.List.Forall2
import Mathlib.Data.List.Perm.Basic
import Mathlib.Order.Lattice

/-!
# Groups of rows

A grouping of a list puts the rows that are alike into one group, in any order of the groups and of the
rows. The groupings of the parts of a list are put together to one of the whole by joining the groups
that belong together.
-/

namespace Radon.Relational

open List

variable {α β : Type}

/-- The groups of the rows of `rows` under a relation of likeness. -/
structure IsGrouping (same : α → α → Prop) (rows : List α) (groups : List (List α)) : Prop where
  perm : groups.flatten.Perm rows
  ne_nil : ∀ g ∈ groups, g ≠ []
  alike : ∀ g ∈ groups, ∀ a ∈ g, ∀ b ∈ g, same a b
  apart : groups.Pairwise fun g h => ∀ a ∈ g, ∀ b ∈ h, ¬ same a b

section

variable {same : α → α → Prop} {rows : List α} {groups : List (List α)}

theorem IsGrouping.nil : IsGrouping same [] ([] : List (List α)) :=
  ⟨.refl _, by simp, by simp, .nil⟩

theorem IsGrouping.mem (h : IsGrouping same rows groups) {g : List α} (hg : g ∈ groups) {a : α}
    (ha : a ∈ g) : a ∈ rows :=
  h.perm.subset (mem_flatten.2 ⟨g, hg, ha⟩)

/-- Rows that are all alike make up one group. -/
theorem IsGrouping.length_eq_one (h : IsGrouping same rows groups) (hne : rows ≠ [])
    (halike : ∀ a ∈ rows, ∀ b ∈ rows, same a b) : groups.length = 1 := by
  match groups, h with
  | [], h => exact absurd h.perm.symm.eq_nil hne
  | [_], _ => rfl
  | g :: g' :: rest, h =>
    obtain ⟨a, ha⟩ := exists_mem_of_ne_nil g (h.ne_nil g mem_cons_self)
    have hg' : g' ∈ g :: g' :: rest := mem_cons_of_mem _ mem_cons_self
    obtain ⟨b, hb⟩ := exists_mem_of_ne_nil g' (h.ne_nil g' hg')
    have hab := (pairwise_cons.1 h.apart).1 g' mem_cons_self a ha b hb
    exact absurd (halike a (h.mem mem_cons_self ha) b (h.mem hg' hb)) hab

theorem isGrouping_singleton (hrefl : ∀ a, same a a) (a : α) : IsGrouping same [a] [[a]] := by
  refine ⟨.refl _, by simp, fun g hg b hb c hc => ?_, pairwise_singleton _ _⟩
  grind

end

/-! ## Lists side by side -/

variable {as : List α} {bs : List β}

theorem exists_left_of_mem {rel : α → β → Prop} (h : List.Forall₂ rel as bs) {b : β}
    (hb : b ∈ bs) : ∃ a ∈ as, rel a b := by
  induction h with
  | nil => cases hb
  | cons hab _ ih => grind

/-- What a list is permuted to, its preimages can be permuted to. -/
theorem exists_perm_of_perm_map {f : α → β} (h : bs.Perm (as.map f)) :
    ∃ as' : List α, as'.Perm as ∧ as'.map f = bs := by
  classical
  induction bs generalizing as with
  | nil => simp_all
  | cons b bs ih =>
    obtain ⟨a, ha, rfl⟩ := mem_map.1 (h.subset mem_cons_self)
    have hcons : as.Perm (a :: as.erase a) := perm_cons_erase ha
    obtain ⟨as', hperm, hmap⟩ := ih ((perm_cons _).1 (h.trans (hcons.map f)))
    exact ⟨a :: as', (hperm.cons a).trans hcons.symm, by rw [map_cons, hmap]⟩

end Radon.Relational
