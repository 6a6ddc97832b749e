import Mathlib.Data.List.Forall2
import Mathlib.Data.List.Nodup
import Radon.Concurrency.RelyGuarantee

/-!
# Operation sets and keyed forks

`All` bounds the operations a program may ever perform, whatever the replies are. It turns a
fact about single operations into safety of a whole program, without looking at its control
flow. `Safe.forkAll` is the rule for a fork with one branch per key, where the branch of a
key may only be disturbed by the environment and by the branches of the other keys.
-/

namespace Radon.Concurrency.Prog

open List

variable {Op : Type} {Res : Op → Type} {σ χ α β γ κ τ : Type}

variable {ks : List κ} {P : Op → Prop} {p : Prog Op Res α}

/-- Each key of a fork has its reply. -/
theorem forall₂_exists {R : κ → τ → Prop} {out : List τ} (h : List.Forall₂ R ks out)
    {k : κ} (hk : k ∈ ks) : ∃ a ∈ out, R k a := by
  induction h with
  | nil => cases hk
  | cons hR _ ih => grind

/-- Every operation the program can reach satisfies `P`. -/
def All (P : Op → Prop) {α : Type} : Prog Op Res α → Prop
  | ret _ => True
  | op o k => P o ∧ ∀ r, (k r).All P
  | par p q k => p.All P ∧ q.All P ∧ ∀ a b, (k a b).All P

@[simp] theorem all_perform (P : Op → Prop) (o : Op) : (perform o : Prog Op Res (Res o)).All P ↔ P o := by
  simp [perform, All]

/-- Sequencing performs the operations of both parts. -/
theorem All.bind {next : α → Prog Op Res β} (hp : p.All P) (hnext : ∀ a, (next a).All P) : (p >>= next).All P := by
  induction p with
  | ret a => exact hnext a
  | op o k ih => exact ⟨hp.1, fun r => ih r (hp.2 r) hnext⟩
  | par p q k _ _ ih => exact ⟨hp.1, hp.2.1, fun a b => ih a b (hp.2.2 a b) hnext⟩

/-- A larger set of operations. -/
theorem All.mono {P' : Op → Prop} (h : ∀ o, P o → P' o) (hp : p.All P) : p.All P' := by
  induction p with
  | ret a => trivial
  | op o k ih => exact ⟨h o hp.1, fun r => ih r (hp.2 r)⟩
  | par p q k ihp ihq ih => exact ⟨ihp hp.1, ihq hp.2.1, fun a b => ih a b (hp.2.2 a b)⟩

/-- A keyed fork performs the operations of its branches. -/
theorem All.forkAll {child : κ → Prog Op Res τ} (h : ∀ k ∈ ks, (child k).All P) : (forkAll child ks).All P := by
  induction ks with
  | nil => trivial
  | cons k ks ih => grind [All, forkAll]

variable {machine : Machine Op Res σ χ} {live : Prop} {R : Rely σ} {G : σ → σ → Prop}

/-- Every step of a safe program is one of its operations. -/
theorem All.safe_restrict {Q : α → σ → Prop} {s : σ} (hp : p.All P) (h : p.Safe machine live R G Q s) :
    p.Safe machine live R (fun s s' => G s s' ∧ ∃ o c r, P o ∧ machine o c s = some (r, s')) Q s := by
  induction p generalizing R G s with
  | ret a => exact h
  | op o k ih => grind [Safe, All]
  | par p q k ihp ihq ih =>
    obtain ⟨Rp, Rq, Gp, Gq, Qp, Qq, hsides, hsp, hsq, hk⟩ := h
    refine ⟨Rp, Rq, _, _, Qp, Qq, ⟨hsides.1, ?_, ?_⟩, ihp hp.1 hsp, ihq hp.2.1 hsq,
      fun a b s' ha hb => ih a b (hp.2.2 a b) (hk a b s' ha hb)⟩
    · grind
    · grind

/-- A fork with one branch per key. Each branch tolerates the environment and the guarantees of
the branches with other keys; the join sees every branch's postcondition at once. -/
theorem Safe.forkAll {child : κ → Prog Op Res τ} {s : σ} (Rk : κ → Rely σ) (Gk : κ → σ → σ → Prop)
    {Qk : κ → τ → σ → Prop} (hnodup : ks.Nodup) (hR : ∀ k ∈ ks, ∀ s s', R.rel s s' → (Rk k).rel s s')
    (hG : ∀ k ∈ ks, ∀ s s', Gk k s s' → G s s') (hcross : ∀ k k', k ≠ k' → ∀ s s', Gk k s s' → (Rk k').rel s s')
    (hstable : ∀ k a s s', (Rk k).rel s s' → Qk k a s → Qk k a s')
    (hchild : ∀ k ∈ ks, (child k).Safe machine live (Rk k) (Gk k) (Qk k) s) : (Prog.forkAll child ks).Safe
    machine live R G (fun out s => List.Forall₂ (fun k a => Qk k a s) ks out) s := by
  induction ks generalizing R G with
  | nil => exact fun _ _ => List.Forall₂.nil
  | cons k ks ih =>
    obtain ⟨hk, hnodup'⟩ := nodup_cons.mp hnodup
    have hne : ∀ k' ∈ ks, k' ≠ k := fun k' hk' heq => hk (heq ▸ hk')
    let Rrest : Rely σ := Rely.all Rk (· ∈ ks)
    let Grest : σ → σ → Prop := fun s s' => G s s' ∧ (Rk k).rel s s'
    refine ⟨Rk k, Rrest, Gk k, Grest, Qk k, fun out s => List.Forall₂ (fun k a => Qk k a s) ks out,
      ⟨fun s s' h => ⟨hR k mem_cons_self s s' h,
        fun k' hk' => hR k' (mem_cons_of_mem _ hk') s s' h⟩, ?_, fun s s' h => ⟨h.2, h.1⟩⟩,
      hchild k mem_cons_self, ?_, ?_⟩
    · exact fun s s' h => ⟨fun k' hk' => hcross k k' (hne k' hk').symm s s' h,
        hG k mem_cons_self s s' h⟩
    · refine ih hnodup' (fun k' hk' s s' h => h k' hk') (fun k' hk' s s' h => ?_)
        fun k' hk' => hchild k' (mem_cons_of_mem _ hk')
      grind
    · intro a out s' ha hout s'' h'
      refine List.Forall₂.cons (hstable k a s' s'' (hR k mem_cons_self s' s'' h') ha) ?_
      refine ((List.forall₂_and_left (p := (· ∈ ks)) _ _).mpr ⟨fun _ h => h, hout⟩).imp ?_
      grind

end Radon.Concurrency.Prog
