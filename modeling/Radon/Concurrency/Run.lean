import Mathlib.Data.List.Infix

/-!
# Runs of steps that may be refused

A step function gives the next state or refuses the action. A property that each step keeps exactly when the
action meets a condition holds in all states of a run exactly when all actions of the run meet it.
-/

namespace Radon.Concurrency

open List

variable {σ α : Type} (step : σ → α → Option σ)

/-- The state after a sequence of actions, none of which is refused. -/
def runSteps (s : σ) : List α → Option σ
  | [] => some s
  | a :: as => (step s a).bind fun t => runSteps t as

/-- A property of all states of a run. -/
def Always (s : σ) (as : List α) (P : σ → Prop) : Prop :=
  ∀ pre t, pre <+: as → runSteps step s pre = some t → P t

/-- A property of all actions of a run, in the states in which they are taken. -/
def EachStep (s : σ) (as : List α) (C : σ → α → Prop) : Prop :=
  ∀ pre a t, pre ++ [a] <+: as → runSteps step s pre = some t → C t a

variable {step}

theorem runSteps_append (s : σ) (as bs : List α) :
    runSteps step s (as ++ bs) = (runSteps step s as).bind fun t => runSteps step t bs := by
  induction as generalizing s with
  | nil => rfl
  | cons a as ih =>
    rw [cons_append, runSteps, runSteps, Option.bind_assoc]
    exact congrArg _ (funext fun t => ih t)

variable {s t : σ} {as : List α}

theorem runSteps_append_singleton {a : α} :
    runSteps step s (as ++ [a]) = some t ↔ ∃ u, runSteps step s as = some u ∧ step u a = some t := by
  rw [runSteps_append, Option.bind_eq_some_iff]
  simp [runSteps]

/-- A prefix of a run is a run. -/
theorem runSteps_of_prefix {pre : List α} (hpre : pre <+: as)
    (h : runSteps step s as = some t) : ∃ u, runSteps step s pre = some u := by
  obtain ⟨rest, rfl⟩ := hpre
  rw [runSteps_append] at h
  obtain ⟨u, hu, -⟩ := Option.bind_eq_some_iff.1 h
  exact ⟨u, hu⟩

/-- What every step of a run keeps holds in all its states. -/
theorem always_of_step {P : σ → Prop} (hs : P s)
    (hstep : ∀ pre a t u, pre ++ [a] <+: as → runSteps step s pre = some t → P t → step t a = some u → P u) :
    Always step s as P := by
  intro pre t hpre ht
  induction pre using List.reverseRecOn generalizing t with
  | nil =>
    cases ht
    exact hs
  | append_singleton pre a ih =>
    obtain ⟨u, hu, hstepu⟩ := runSteps_append_singleton.1 ht
    exact hstep pre a u t hpre hu (ih u ((prefix_append _ _).trans hpre) hu) hstepu

/-- When a step keeps a property exactly under a condition on its action, the property holds in all states
of a run exactly when all its actions meet the condition. -/
theorem always_iff_eachStep {I P : σ → Prop} {C : σ → α → Prop} (hI : I s) (hP : P s)
    (hstep : ∀ a ∈ as, ∀ u v, I u → P u → step u a = some v → I v ∧ (P v ↔ C u a))
    (h : runSteps step s as = some t) : Always step s as P ↔ EachStep step s as C := by
  have hmem {pre : List α} {a : α} (hpre : pre ++ [a] <+: as) : a ∈ as := hpre.subset (by simp)
  constructor
  · intro hall pre a u hpre hu
    have hprefix : pre <+: as := (prefix_append _ _).trans hpre
    have hIu : I u := by
      refine always_of_step hI (fun pre a u v hpre hu hIu huv => ?_) pre u hprefix hu
      have hPu := hall pre u ((prefix_append _ _).trans hpre) hu
      exact (hstep a (hmem hpre) u v hIu hPu huv).1
    obtain ⟨v, hv⟩ := runSteps_of_prefix hpre h
    obtain ⟨u', hu', huv⟩ := runSteps_append_singleton.1 hv
    cases hu.symm.trans hu'
    exact (hstep a (hmem hpre) u v hIu (hall pre u hprefix hu) huv).2.1 (hall _ v hpre hv)
  · intro hC pre u hpre hu
    refine (always_of_step (P := fun u => I u ∧ P u) ⟨hI, hP⟩ (fun pre a u v hpre hu hIP huv => ?_)
      pre u hpre hu).2
    obtain ⟨hIv, hiff⟩ := hstep a (hmem hpre) u v hIP.1 hIP.2 huv
    exact ⟨hIv, hiff.2 (hC pre a u hpre hu)⟩

/-! ## Runs that are written out -/

theorem eachStep_nil (s : σ) (C : σ → α → Prop) : EachStep step s [] C := by
  intro pre a t hpre
  simp at hpre

theorem eachStep_cons {a : α} {C : σ → α → Prop} (hstep : step s a = some t)
    (ha : C s a) (has : EachStep step t as C) : EachStep step s (a :: as) C := by
  intro pre b u hpre hu
  cases pre with
  | nil => grind [runSteps]
  | cons a' pre =>
    obtain ⟨rfl, hrest⟩ := cons_prefix_cons.1 hpre
    rw [runSteps, hstep] at hu
    exact has pre b u hrest hu

end Radon.Concurrency
