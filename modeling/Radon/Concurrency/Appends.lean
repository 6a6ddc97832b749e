import Mathlib.Data.List.Perm.Basic
import Mathlib.Logic.Relation

/-!
# Workers that append to one list

Workers append their rows to a shared list, one row at a time and under a lock. The row that makes the list
longer than a limit is the last one: it raises a flag, and no worker appends after that. Whatever the order
of the steps, the list is a permutation of all rows if they fit, and the flag is raised if they do not.
-/

namespace Radon.Concurrency

open List

variable {γ : Type}

/-- The shared list, the flag, and what each worker still has to append. -/
structure Appending (γ : Type) where
  rows : List γ
  failed : Bool
  todo : List (List γ)

namespace Appending

/-- One worker takes its next row: it appends the row, or drops it after a failure. -/
inductive Step (limit : ℕ) : Appending γ → Appending γ → Prop
  | append (rows : List γ) (before : List (List γ)) (x : γ) (xs : List γ) (after : List (List γ)) :
    Step limit ⟨rows, false, before ++ (x :: xs) :: after⟩
      ⟨rows ++ [x], decide (limit < (rows ++ [x]).length), before ++ xs :: after⟩
  | skip (rows : List γ) (before : List (List γ)) (x : γ) (xs : List γ) (after : List (List γ)) :
    Step limit ⟨rows, true, before ++ (x :: xs) :: after⟩ ⟨rows, true, before ++ xs :: after⟩

/-- No worker has anything left. -/
def Finished (s : Appending γ) : Prop := ∀ xs ∈ s.todo, xs = []

/-- What holds in every state of workers that have `total` to append, what is in the list included. -/
structure Inv (limit : ℕ) (total : List γ) (s : Appending γ) : Prop where
  perm : s.failed = false → (s.rows ++ s.todo.flatten).Perm total
  fits : s.failed = false → s.rows.length ≤ limit
  exceeds : s.failed = true → limit < total.length

theorem flatten_perm (before : List (List γ)) (x : γ) (xs : List γ) (after : List (List γ)) :
    (before ++ (x :: xs) :: after).flatten.Perm (x :: (before ++ xs :: after).flatten) := by simp

theorem Step.inv {limit : ℕ} {total : List γ} {s t : Appending γ} (h : Step limit s t)
    (hs : Inv limit total s) : Inv limit total t := by
  cases h with
  | append rows before x xs after =>
    have hperm : (rows ++ [x] ++ (before ++ xs :: after).flatten).Perm total := by
      refine List.Perm.trans ?_ (hs.perm rfl)
      rw [append_assoc, singleton_append]
      exact (flatten_perm before x xs after).symm.append_left rows
    refine ⟨fun _ => hperm, fun hfailed => ?_, fun hfailed => ?_⟩
    · exact Nat.le_of_not_lt (of_decide_eq_false hfailed)
    · refine Nat.lt_of_lt_of_le (of_decide_eq_true hfailed) ?_
      rw [← hperm.length_eq]
      exact (prefix_append _ (before ++ xs :: after).flatten).length_le
  | skip rows before x xs after => exact ⟨fun h => (nomatch h), fun h => (nomatch h), fun _ => hs.exceeds rfl⟩

theorem inv_of_run {limit : ℕ} {total : List γ} {s t : Appending γ}
    (h : Relation.ReflTransGen (Step limit) s t) (hs : Inv limit total s) : Inv limit total t := by
  induction h with
  | refl => exact hs
  | tail _ hstep ih => exact hstep.inv ih

/-- Workers that are not finished can take a step. -/
theorem exists_step (limit : ℕ) {s : Appending γ} (h : ¬ s.Finished) :
    ∃ t, Step limit s t ∧ t.todo.flatten.length < s.todo.flatten.length := by
  obtain ⟨rows, failed, todo⟩ := s
  simp only [Finished, not_forall] at h
  obtain ⟨xs, hmem, hne⟩ := h
  obtain ⟨before, after, rfl⟩ := append_of_mem hmem
  obtain ⟨x, xs, rfl⟩ := exists_cons_of_ne_nil hne
  have hless : (before ++ xs :: after).flatten.length < (before ++ (x :: xs) :: after).flatten.length := by
    simp
  cases failed with
  | false => exact ⟨_, .append rows before x xs after, hless⟩
  | true => exact ⟨_, .skip rows before x xs after, hless⟩

/-- The workers can always be run to the end. -/
theorem exists_finished (limit : ℕ) (s : Appending γ) : ∃ t, Relation.ReflTransGen (Step limit) s t ∧ t.Finished := by
  induction hn : s.todo.flatten.length using Nat.strongRecOn generalizing s with
  | _ n ih =>
    by_cases hdone : s.Finished
    · exact ⟨s, .refl, hdone⟩
    · obtain ⟨t, hstep, hless⟩ := exists_step limit hdone
      obtain ⟨u, hrun, hu⟩ := ih _ (hn ▸ hless) t rfl
      exact ⟨u, .head hstep hrun, hu⟩

theorem Finished.flatten {s : Appending γ} (h : s.Finished) : s.todo.flatten = [] :=
  flatten_eq_nil_iff.2 h

end Appending

/-- Groups of workers that are started one after the other, each when the one before has finished; after a
failure the rest is not started. -/
inductive Batches (limit : ℕ) : List γ → List (List (List γ)) → List γ → Bool → Prop
  | nil (rows : List γ) : Batches limit rows [] rows false
  | fail (rows : List γ) (workers : List (List γ)) (rest : List (List (List γ))) (s : Appending γ)
    (run : Relation.ReflTransGen (Appending.Step limit) ⟨rows, false, workers⟩ s) (finished : s.Finished)
    (failed : s.failed = true) : Batches limit rows (workers :: rest) s.rows true
  | next (rows : List γ) (workers : List (List γ)) (rest : List (List (List γ))) (s : Appending γ)
    (out : List γ) (failed : Bool)
    (run : Relation.ReflTransGen (Appending.Step limit) ⟨rows, false, workers⟩ s) (finished : s.Finished)
    (ok : s.failed = false) (batches : Batches limit s.rows rest out failed) :
    Batches limit rows (workers :: rest) out failed

namespace Batches

/-- The batches can always be run to the end. -/
theorem exists_run (limit : ℕ) (rows : List γ) (batches : List (List (List γ))) :
    ∃ out failed, Batches limit rows batches out failed := by
  induction batches generalizing rows with
  | nil => exact ⟨rows, false, .nil rows⟩
  | cons workers rest ih =>
    obtain ⟨s, hrun, hs⟩ := Appending.exists_finished limit ⟨rows, false, workers⟩
    cases hfailed : s.failed with
    | true => exact ⟨s.rows, true, .fail rows workers rest s hrun hs hfailed⟩
    | false =>
      obtain ⟨out, failed, h⟩ := ih s.rows
      exact ⟨out, failed, .next rows workers rest s out failed hrun hs hfailed h⟩

theorem inv {limit : ℕ} {rows : List γ} {batches : List (List (List γ))} {out : List γ} {failed : Bool}
    (h : Batches limit rows batches out failed) (hrows : rows.length ≤ limit) :
    Appending.Inv limit (rows ++ batches.flatten.flatten) ⟨out, failed, []⟩ := by
  induction h with
  | nil rows => exact ⟨fun _ => .refl _, fun _ => hrows, fun h => nomatch h⟩
  | fail rows workers rest s hrun hs hfailed =>
    have hinv : Appending.Inv limit (rows ++ workers.flatten) s :=
      Appending.inv_of_run hrun ⟨fun _ => .refl _, fun _ => hrows, fun h => nomatch h⟩
    refine ⟨fun h => (nomatch h), fun h => (nomatch h), fun _ => Nat.lt_of_lt_of_le (hinv.exceeds hfailed) ?_⟩
    simp
  | next rows workers rest s out failed hrun hs hok _ ih =>
    have hinv : Appending.Inv limit (rows ++ workers.flatten) s :=
      Appending.inv_of_run hrun ⟨fun _ => .refl _, fun _ => hrows, fun h => nomatch h⟩
    have hperm : (s.rows ++ rest.flatten.flatten).Perm (rows ++ (workers :: rest).flatten.flatten) := by
      have := hinv.perm hok
      rw [hs.flatten, append_nil] at this
      rw [flatten_cons, flatten_append, ← append_assoc]
      exact this.append_right _
    have ih := ih (hinv.fits hok)
    exact ⟨fun h => (ih.perm h).trans hperm, ih.fits, fun h => hperm.length_eq ▸ ih.exceeds h⟩

/-- The batches fail exactly when their rows do not fit, and else append all of them. -/
theorem spec {limit : ℕ} {batches : List (List (List γ))} {out : List γ} {failed : Bool}
    (h : Batches limit [] batches out failed) : failed = decide (limit < batches.flatten.flatten.length) ∧
      (failed = false → out.Perm batches.flatten.flatten) := by
  have hinv := h.inv (Nat.zero_le limit)
  have hperm : failed = false → out.Perm batches.flatten.flatten := by
    intro hfailed
    simpa using hinv.perm hfailed
  refine ⟨?_, hperm⟩
  cases failed with
  | false =>
    have hfits := hinv.fits rfl
    rw [(hperm rfl).length_eq] at hfits
    exact (decide_eq_false (Nat.not_lt.2 hfits)).symm
  | true => exact (decide_eq_true (hinv.exceeds rfl)).symm

end Batches

end Radon.Concurrency
