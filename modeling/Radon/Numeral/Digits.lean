import Mathlib.Data.List.Induction
import Mathlib.Data.Nat.Digits.Defs
import Mathlib.Tactic.Ring

/-!
# Reading decimal digits in another base

A list of digits, most significant first, has a value in every base. Read in base `b`, the decimal
digits of a number have a value that depends on the number only, not on the leading zeros; in a
smaller base it is smaller as soon as there are two significant digits.
-/

namespace Radon.Numeral

open List

/-- The value of a list of digits, most significant first. -/
def horner (b : ℕ) (ds : List ℕ) : ℕ := ds.foldl (fun n d => n * b + d) 0

@[simp] theorem horner_nil (b : ℕ) : horner b [] = 0 := rfl

@[simp] theorem horner_append_singleton (b : ℕ) (ds : List ℕ) (d : ℕ) : horner b (ds ++ [d]) = horner b ds * b + d := by
  simp [horner]

theorem horner_zero_cons (b : ℕ) (ds : List ℕ) : horner b (0 :: ds) = horner b ds := by
  simp [horner]

theorem foldl_mono (b : ℕ) (hb : 0 < b) (ds : List ℕ) (n : ℕ) : n ≤ ds.foldl (fun n d => n * b + d) n := by
  induction ds generalizing n with
  | nil => exact le_rfl
  | cons d ds ih =>
    calc n ≤ n * b := Nat.le_mul_of_pos_right n hb
      _ ≤ n * b + d := Nat.le_add_right _ _
      _ ≤ _ := ih _

/-- No digit is larger than the value. -/
theorem le_horner {b : ℕ} (hb : 0 < b) {ds : List ℕ} {d : ℕ} (hd : d ∈ ds) : d ≤ horner b ds := by
  induction ds using List.reverseRecOn with
  | nil => cases hd
  | append_singleton ds x ih =>
    rw [horner_append_singleton]
    obtain hd | hd := mem_append.1 hd
    · calc d ≤ horner b ds := ih hd
        _ ≤ horner b ds * b := Nat.le_mul_of_pos_right _ hb
        _ ≤ _ := Nat.le_add_right _ _
    · rw [mem_singleton.1 hd]
      exact Nat.le_add_left _ _

/-- The decimal digits of a number, read in base `b`. -/
def reread (b n : ℕ) : ℕ := Nat.ofDigits b (Nat.digits 10 n)

@[simp] theorem reread_zero (b : ℕ) : reread b 0 = 0 := by simp [reread]

theorem reread_step (b n d : ℕ) (hd : d < 10) : reread b (n * 10 + d) = reread b n * b + d := by
  rcases Nat.eq_zero_or_pos (n * 10 + d) with h | h
  · obtain ⟨rfl, rfl⟩ : n = 0 ∧ d = 0 := by omega
    simp
  · have hmod : (n * 10 + d) % 10 = d := by omega
    have hdiv : (n * 10 + d) / 10 = n := by omega
    rw [reread, Nat.digits_def' (by norm_num) h, hmod, hdiv, Nat.ofDigits_cons, reread]
    ring

/-- The value in base `b` of decimal digits depends on their decimal value only. -/
theorem horner_eq_reread (b : ℕ) {ds : List ℕ} (h : ∀ d ∈ ds, d < 10) : horner b ds = reread b (horner 10 ds) := by
  induction ds using List.reverseRecOn with
  | nil => simp
  | append_singleton ds d ih =>
    have hds := ih fun x hx => h x (mem_append_left _ hx)
    rw [horner_append_singleton, horner_append_singleton,
      reread_step b _ _ (h d (mem_append_right _ mem_cons_self)), hds]

theorem reread_le {b : ℕ} (hb : b ≤ 10) (n : ℕ) : reread b n ≤ n := by
  induction n using Nat.strongRecOn with
  | ind n ih =>
    rcases Nat.eq_zero_or_pos n with rfl | h
    · simp
    · have hn : n = n / 10 * 10 + n % 10 := by omega
      have hle := ih (n / 10) (by omega)
      rw [hn, reread_step b _ _ (by omega)]
      gcongr

/-- In a base below ten a number of two or more digits gets smaller. -/
theorem reread_lt {b n : ℕ} (hb : b < 10) (hn : 10 ≤ n) : reread b n < n := by
  have hsplit : n = n / 10 * 10 + n % 10 := by omega
  have hpos : 0 < n / 10 := by omega
  rw [hsplit, reread_step b _ _ (by omega)]
  calc reread b (n / 10) * b + n % 10 ≤ n / 10 * b + n % 10 := by
        gcongr
        exact reread_le hb.le _
    _ < n / 10 * 10 + n % 10 := by gcongr

theorem reread_of_lt {b n : ℕ} (hn : n < 10) : reread b n = n := by
  have := reread_step b 0 n hn
  simpa using this

end Radon.Numeral
