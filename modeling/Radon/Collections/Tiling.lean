import Mathlib.Data.List.Basic
import Mathlib.Order.Lattice

/-!
# Intervals that follow one another

A list of intervals of natural numbers, each with its lower end and the number behind its upper end, tiles an
interval if every one starts where the one before it ends and none is empty.
-/

namespace Radon.Collections

open List

/-- The intervals tile the interval from `lo` up to `hi`. -/
def Tiles : ℕ → List (ℕ × ℕ) → ℕ → Prop
  | lo, [], hi => lo = hi
  | lo, t :: ts, hi => t.1 = lo ∧ lo < t.2 ∧ Tiles t.2 ts hi

variable {lo hi : ℕ} {ts : List (ℕ × ℕ)}

theorem Tiles.le (h : Tiles lo ts hi) : lo ≤ hi := by
  induction ts generalizing lo with
  | nil => exact h.le
  | cons t ts ih => exact h.2.1.le.trans (ih h.2.2)

theorem Tiles.append {mid : ℕ} {us : List (ℕ × ℕ)} (h : Tiles lo ts mid) (h' : Tiles mid us hi) :
    Tiles lo (ts ++ us) hi := by
  induction ts generalizing lo with
  | nil =>
    cases h
    exact h'
  | cons t ts ih => exact ⟨h.1, h.2.1, ih h.2.2⟩

/-- The intervals between the values of an increasing function. -/
theorem tiles_range {f : ℕ → ℕ} {n : ℕ} (hf : ∀ i < n, f i < f (i + 1)) :
    Tiles (f 0) ((List.range n).map fun i => (f i, f (i + 1))) (f n) := by
  induction n with
  | zero => rfl
  | succ n ih =>
    rw [range_succ, map_append]
    grind [Tiles.append, Tiles]

/-- Tilings between the values of a function, one behind the other. -/
theorem tiles_flatMap {α : Type} {g : ℕ → ℕ} {run : α × ℕ → List (ℕ × ℕ)} {xs : List α} {k : ℕ}
    (h : ∀ e ∈ xs.zipIdx k, Tiles (g e.2) (run e) (g (e.2 + 1))) :
    Tiles (g k) ((xs.zipIdx k).flatMap run) (g (k + xs.length)) := by
  induction xs generalizing k with
  | nil => rfl
  | cons x xs ih =>
    rw [zipIdx_cons, forall_mem_cons] at h
    rw [zipIdx_cons, flatMap_cons, length_cons, Nat.add_comm xs.length, ← Nat.add_assoc]
    exact h.1.append (ih h.2)

/-- Every number of the interval is in one of the tiles, and no other number is. -/
theorem Tiles.mem_iff (h : Tiles lo ts hi) (i : ℕ) : (∃ t ∈ ts, t.1 ≤ i ∧ i < t.2) ↔ lo ≤ i ∧ i < hi := by
  induction ts generalizing lo with
  | nil =>
    cases h
    simp
  | cons t ts ih =>
    obtain ⟨rfl, hlt, h⟩ := h
    have hle := h.le
    grind

theorem Tiles.lt (h : Tiles lo ts hi) {t : ℕ × ℕ} (ht : t ∈ ts) : t.1 < t.2 ∧ t.2 ≤ hi := by
  induction ts generalizing lo with
  | nil => cases ht
  | cons u ts ih => grind [le, Tiles]

theorem Tiles.lo_le (h : Tiles lo ts hi) {t : ℕ × ℕ} (ht : t ∈ ts) : lo ≤ t.1 := by
  have hmem := (h.mem_iff t.1).1 ⟨t, ht, le_rfl, (h.lt ht).1⟩
  exact hmem.1

theorem Tiles.pairwise (h : Tiles lo ts hi) : ts.Pairwise fun t u => t.2 ≤ u.1 := by
  induction ts generalizing lo with
  | nil => exact .nil
  | cons t ts ih => exact .cons (fun u hu => h.2.2.lo_le hu) (ih h.2.2)

end Radon.Collections
