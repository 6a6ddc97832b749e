import Radon.Concurrency.ForkJoin

/-!
# Monitored programs

A monitor watches the operations of a sequential program. It keeps a history, says which operations
are permitted after a history and which replies may come. `Obeys` is the weakest condition under which
every operation of a program is permitted and the program ends in a given set of results and
histories.
-/

namespace Radon.Concurrency

/-- The rules that the operations of a program are watched by. -/
structure Monitor (Op : Type) (Res : Op → Type) (η : Type) where
  permits : Op → η → Prop
  replies : (o : Op) → Res o → Prop
  record : (o : Op) → Res o → η → η

variable {Op : Type} {Res : Op → Type} {η α β : Type}

namespace Prog

/-- Every operation is permitted, and the result and the history at the end satisfy `Q`. A fork is
never permitted. -/
def Obeys (M : Monitor Op Res η) {α : Type} : Prog Op Res α → (α → η → Prop) → η → Prop
  | ret a, Q, h => Q a h
  | op o k, Q, h => M.permits o h ∧ ∀ r, M.replies o r → (k r).Obeys M Q (M.record o r h)
  | par _ _ _, _, _ => False

variable {M : Monitor Op Res η}

/-- A sequence obeys when its first part leads to results from which the second part obeys. -/
theorem obeys_bind (p : Prog Op Res α) (next : α → Prog Op Res β) (Q : β → η → Prop) (h : η) :
    (p >>= next).Obeys M Q h ↔ p.Obeys M (fun a h' => (next a).Obeys M Q h') h := by
  induction p generalizing h with
  | ret a => rfl
  | op o k ih => exact and_congr_right' (forall_congr' fun r => imp_congr_right fun _ => ih r next _)
  | par p q k => exact Iff.rfl

variable {p : Prog Op Res α} {h : η}

theorem Obeys.mono {Q Q' : α → η → Prop} (hp : p.Obeys M Q h) (hQ : ∀ a h', Q a h' → Q' a h') : p.Obeys M Q' h := by
  induction p generalizing h with
  | ret a => exact hQ _ _ hp
  | op o k ih => exact ⟨hp.1, fun r hr => ih r (hp.2 r hr) hQ⟩
  | par p q k => exact hp

/-- A program that obeys a monitor obeys one that permits more and allows fewer replies. -/
theorem Obeys.weaken {M' : Monitor Op Res η} {Q : α → η → Prop} (hp : p.Obeys M Q h)
    (hpermits : ∀ o h, M.permits o h → M'.permits o h) (hreplies : ∀ o r, M'.replies o r → M.replies o r)
    (hrecord : M'.record = M.record) : p.Obeys M' Q h := by
  induction p generalizing h with
  | ret a => exact hp
  | op o k ih => grind [Obeys]
  | par p q k => exact hp

/-- Some replies lead a sequential program to a result. -/
def Yields {α : Type} : Prog Op Res α → α → Prop
  | ret a, b => a = b
  | op _ k, b => ∃ r, (k r).Yields b
  | par _ _ _, _ => False

/-- What holds after all replies holds of every result. -/
theorem Obeys.of_yields {Q : α → Prop} {a : α}
    (hp : p.Obeys M (fun a _ => Q a) h) (hreplies : ∀ o r, M.replies o r) (ha : p.Yields a) : Q a := by
  induction p generalizing h with
  | ret b => exact ha ▸ hp
  | op o k ih =>
    obtain ⟨r, hr⟩ := ha
    exact ih r (hp.2 r (hreplies o r)) hr
  | par p q k => exact hp.elim

end Prog

end Radon.Concurrency
