import Mathlib.Logic.Relation

/-!
# Fork-join programs over atomic operations

A program is a tree of atomic operations of a signature. An operation suspends the
program until its reply arrives; a fork runs two subprograms in any interleaving and
joins on both results. A machine interprets each operation on a shared state under an
environment choice, and refuses it while the operation is blocked.

`Step` is the interleaving semantics. `runSchedule` executes one explicit schedule, and
every schedule it accepts is a run.
-/

namespace Radon.Concurrency

open Option

/-- A fork-join program over operations `Op` with replies `Res`. -/
inductive Prog (Op : Type) (Res : Op → Type) : Type → Type 1
  | ret {α : Type} (value : α) : Prog Op Res α
  | op {α : Type} (o : Op) (next : Res o → Prog Op Res α) : Prog Op Res α
  | par {α β γ : Type} (left : Prog Op Res β) (right : Prog Op Res γ)
      (next : β → γ → Prog Op Res α) : Prog Op Res α

/-- The effect of each operation under an environment choice; `none` means blocked. -/
abbrev Machine (Op : Type) (Res : Op → Type) (σ χ : Type) :=
  (o : Op) → χ → σ → Option (Res o × σ)

variable {Op : Type} {Res : Op → Type} {σ χ α β γ : Type}

namespace Prog

/-- Continue with `next` once the program has returned. -/
def bind {α : Type} : Prog Op Res α → (α → Prog Op Res β) → Prog Op Res β
  | ret a, next => next a
  | op o k, next => op o fun r => (k r).bind next
  | par p q k, next => par p q fun a b => (k a b).bind next

instance : Monad (Prog Op Res) where
  pure := ret
  bind := bind

@[simp] theorem op_bind (o : Op) (k : Res o → Prog Op Res α) (next : α → Prog Op Res β) :
    (op o k >>= next) = op o fun r => k r >>= next := rfl

/-- Run a program alone with the answers of an environment, the left branch of a fork first. -/
def eval (respond : (o : Op) → σ → Res o × σ) {α : Type} : Prog Op Res α → σ → α × σ
  | ret a, s => (a, s)
  | op o k, s => (k (respond o s).1).eval respond (respond o s).2
  | par p q k, s =>
    let left := p.eval respond s
    let right := q.eval respond left.2
    (k left.1 right.1).eval respond right.2

theorem eval_bind (respond : (o : Op) → σ → Res o × σ) (p : Prog Op Res α) (next : α → Prog Op Res β) (s : σ) :
    (p >>= next).eval respond s = (next (p.eval respond s).1).eval respond (p.eval respond s).2 := by
  induction p generalizing s with
  | ret a => rfl
  | op o k ih => exact ih _ next _
  | par p q k _ _ ih => exact ih _ _ next _

/-- Perform one operation and return its reply. -/
def perform (o : Op) : Prog Op Res (Res o) := op o ret

/-- One program per key, all forked at once; the replies come back in the order of the keys. -/
def forkAll {κ τ : Type} (child : κ → Prog Op Res τ) : List κ → Prog Op Res (List τ)
  | [] => ret []
  | k :: ks => par (child k) (forkAll child ks) fun a rest => ret (a :: rest)

/-- One scheduling decision: an enabled operation of some branch runs, or two finished branches
join. -/
inductive Step (machine : Machine Op Res σ χ) :
    {α : Type} → Prog Op Res α → σ → Prog Op Res α → σ → Prop
  | op {α : Type} {o : Op} {k : Res o → Prog Op Res α} {c : χ} {s s' : σ} {r : Res o}
      (h : machine o c s = some (r, s')) : Step machine (.op o k) s (k r) s'
  | left {α β γ : Type} {p p' : Prog Op Res β} {q : Prog Op Res γ}
      {k : β → γ → Prog Op Res α} {s s' : σ}
      (h : Step machine p s p' s') : Step machine (.par p q k) s (.par p' q k) s'
  | right {α β γ : Type} {p : Prog Op Res β} {q q' : Prog Op Res γ}
      {k : β → γ → Prog Op Res α} {s s' : σ}
      (h : Step machine q s q' s') : Step machine (.par p q k) s (.par p q' k) s'
  | join {α β γ : Type} {a : β} {b : γ} {k : β → γ → Prog Op Res α} {s : σ} :
      Step machine (.par (.ret a) (.ret b) k) s (k a b) s

/-- Any number of scheduling decisions. -/
inductive Steps (machine : Machine Op Res σ χ) {α : Type} (p : Prog Op Res α) (s : σ) :
    Prog Op Res α → σ → Prop
  | refl : Steps machine p s p s
  | tail {p' p'' : Prog Op Res α} {s' s'' : σ} (h : Steps machine p s p' s')
      (last : Step machine p' s' p'' s'') : Steps machine p s p'' s''

variable {machine : Machine Op Res σ χ} {p p' : Prog Op Res α} {s s' : σ}

/-- Runs compose. -/
theorem Steps.trans {p'' : Prog Op Res α} {s'' : σ} (h : Steps machine p s p' s')
    (h' : Steps machine p' s' p'' s'') : Steps machine p s p'' s'' := by
  induction h' with
  | refl => exact h
  | tail _ last ih => exact ih.tail last

/-- A step can be put in front of a run. -/
theorem Steps.head {p'' : Prog Op Res α} {s'' : σ} (h : Step machine p s p' s')
    (h' : Steps machine p' s' p'' s'') : Steps machine p s p'' s'' :=
  (Steps.refl.tail h).trans h'

/-- The value of a finished program. -/
def result? {α : Type} : Prog Op Res α → Option α
  | ret a => some a
  | op _ _ => none
  | par _ _ _ => none

theorem eq_ret_of_result? {a : α} (h : p.result? = some a) : p = ret a := by
  cases p with
  | ret b => rw [Option.some.inj h]
  | op o k => simp [result?] at h
  | par p q k => simp [result?] at h

/-- The scheduling decision taken on the branch named by `path` (`true` for the left one), or on the
leftmost branch below it that can move. -/
def stepAt (machine : Machine Op Res σ χ) {α : Type} :
    Prog Op Res α → List Bool → χ → σ → Option (Prog Op Res α × σ)
  | ret _, _, _, _ => none
  | op o k, _, c, s => (machine o c s).map fun out => (k out.1, out.2)
  | par p q k, [], c, s =>
    ((p.stepAt machine [] c s).map fun out => (par out.1 q k, out.2)).or <|
      ((q.stepAt machine [] c s).map fun out => (par p out.1 k, out.2)).or <|
        p.result?.bind fun a => q.result?.map fun b => (k a b, s)
  | par p q k, true :: path, c, s => (p.stepAt machine path c s).map fun out => (par out.1 q k, out.2)
  | par p q k, false :: path, c, s => (q.stepAt machine path c s).map fun out => (par p out.1 k, out.2)

/-- Execute an explicit schedule. -/
def runSchedule (machine : Machine Op Res σ χ) {α : Type} :
    List (List Bool × χ) → Prog Op Res α → σ → Option (Prog Op Res α × σ)
  | [], p, s => some (p, s)
  | d :: rest, p, s =>
    (p.stepAt machine d.1 d.2 s).bind fun out => runSchedule machine rest out.1 out.2

/-- An executed scheduling decision is a step. -/
theorem stepAt_sound {path : List Bool} {c : χ} (h : p.stepAt machine path c s = some (p', s')) :
    Step machine p s p' s' := by
  induction p generalizing path s s' with
  | ret a => simp [stepAt] at h
  | op o k _ =>
    simp only [stepAt, map_eq_some_iff, Prod.mk.injEq] at h
    obtain ⟨⟨r, t⟩, hrun, rfl, rfl⟩ := h
    exact .op hrun
  | par p q k ihp ihq _ =>
    cases path with
    | nil =>
      simp only [stepAt, or_eq_some_iff, bind_eq_some_iff,
        map_eq_some_iff, Prod.mk.injEq] at h
      rcases h with ⟨⟨r, t⟩, hrun, rfl, rfl⟩ | ⟨_, ⟨⟨r, t⟩, hrun, rfl, rfl⟩ | ⟨_, a, ha, b, hb, rfl, rfl⟩⟩
      · exact .left (ihp hrun)
      · exact .right (ihq hrun)
      · rw [eq_ret_of_result? ha, eq_ret_of_result? hb]
        exact .join
    | cons side path =>
      cases side with
      | true =>
        simp only [stepAt, map_eq_some_iff, Prod.mk.injEq] at h
        obtain ⟨⟨r, t⟩, hrun, rfl, rfl⟩ := h
        exact .left (ihp hrun)
      | false =>
        simp only [stepAt, map_eq_some_iff, Prod.mk.injEq] at h
        obtain ⟨⟨r, t⟩, hrun, rfl, rfl⟩ := h
        exact .right (ihq hrun)

/-- An executed schedule is a run. -/
theorem runSchedule_sound {schedule : List (List Bool × χ)}
    (h : runSchedule machine schedule p s = some (p', s')) : Steps machine p s p' s' := by
  induction schedule generalizing p s with
  | nil =>
    simp only [runSchedule, Option.some.injEq, Prod.mk.injEq] at h
    obtain ⟨rfl, rfl⟩ := h
    exact .refl
  | cons d rest ih =>
    simp only [runSchedule, bind_eq_some_iff] at h
    obtain ⟨⟨r, t⟩, hstep, hrest⟩ := h
    exact .head (stepAt_sound hstep) (ih hrest)

/-- A schedule whose outcome passes a check shows that such an outcome can be reached. -/
theorem exists_steps (machine : Machine Op Res σ χ) (schedule : List (List Bool × χ)) (check : Prog Op Res α → σ → Bool)
    (h : (runSchedule machine schedule p s).any (fun out => check out.1 out.2) = true) :
    ∃ p' s', Steps machine p s p' s' ∧ check p' s' = true := by
  obtain ⟨⟨p', s'⟩, hrun, hcheck⟩ := (any_eq_true _ _).mp h
  exact ⟨p', s', runSchedule_sound hrun, hcheck⟩

end Prog

end Radon.Concurrency
