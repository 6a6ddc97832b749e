import Radon.Concurrency.Program

/-!
# Rely-guarantee reasoning for fork-join programs

`Safe` says what a program does when its environment moves the state only along a rely
relation: every operation it performs is a guarantee step, and whatever it returns satisfies
the postcondition. With `live` it also says that no operation is ever blocked, so the
program runs to its end. Two forked programs are safe together when each one's guarantee
is part of what the other one relies on.

The rules below compose these facts along sequencing and forking. `Safe.steps` turns them
into statements about every interleaving.
-/

namespace Radon.Concurrency

variable {Op : Type} {Res : Op → Type} {σ χ α β γ : Type}

/-- What a program tolerates from its environment. -/
structure Rely (σ : Type) where
  rel : σ → σ → Prop
  refl : ∀ s, rel s s
  trans : ∀ {a b c}, rel a b → rel b c → rel a c

namespace Rely

/-- The moves that keep an assertion true. -/
def keeps (I : σ → Prop) : Rely σ :=
  ⟨fun s s' => I s → I s', fun _ h => h, fun hab hbc h => hbc (hab h)⟩

/-- The moves of both relies. -/
def inter (R R' : Rely σ) : Rely σ :=
  ⟨fun s s' => R.rel s s' ∧ R'.rel s s', fun s => ⟨R.refl s, R'.refl s⟩,
    fun hab hbc => ⟨R.trans hab.1 hbc.1, R'.trans hab.2 hbc.2⟩⟩

/-- The moves that every rely of a family allows. -/
def all {ι : Type} (R : ι → Rely σ) (p : ι → Prop) : Rely σ :=
  ⟨fun s s' => ∀ i, p i → (R i).rel s s', fun s i _ => (R i).refl s,
    fun hab hbc i hi => (R i).trans (hab i hi) (hbc i hi)⟩

end Rely

namespace Prog

/-- From state `s`, under interference `R`, the program performs only `G` steps and returns only
results satisfying `Q`; if `live`, its operations are never blocked. -/
def Safe (machine : Machine Op Res σ χ) (live : Prop) {α : Type} :
    Prog Op Res α → Rely σ → (σ → σ → Prop) → (α → σ → Prop) → σ → Prop
  | ret a, R, _, Q, s => ∀ s', R.rel s s' → Q a s'
  | op o k, R, G, Q, s => ∀ s₁, R.rel s s₁ →
      (live → ∃ c r s₂, machine o c s₁ = some (r, s₂)) ∧
        ∀ c r s₂, machine o c s₁ = some (r, s₂) → G s₁ s₂ ∧ (k r).Safe machine live R G Q s₂
  | par p q k, R, G, Q, s =>
      ∃ (Rp Rq : Rely σ) (Gp Gq : σ → σ → Prop) (Qp : _ → σ → Prop) (Qq : _ → σ → Prop),
        ((∀ s s', R.rel s s' → Rp.rel s s' ∧ Rq.rel s s') ∧
          (∀ s s', Gp s s' → Rq.rel s s' ∧ G s s') ∧ (∀ s s', Gq s s' → Rp.rel s s' ∧ G s s')) ∧
        p.Safe machine live Rp Gp Qp s ∧ q.Safe machine live Rq Gq Qq s ∧
        ∀ a b s', Qp a s' → Qq b s' → (k a b).Safe machine live R G Q s'

variable {machine : Machine Op Res σ χ} {live : Prop} {R R' : Rely σ} {G G' : σ → σ → Prop}

variable {p : Prog Op Res α} {Q Q' : α → σ → Prop} {s s' : σ} {I : σ → Prop}

/-- Interference within the rely keeps a program safe. -/
theorem Safe.stable (h : p.Safe machine live R G Q s) (hR : R.rel s s') : p.Safe machine live R G Q s' := by
  induction p generalizing R G s s' with
  | ret a => exact fun s'' h' => h s'' (R.trans hR h')
  | op o k _ => exact fun s₁ h₁ => h s₁ (R.trans hR h₁)
  | par p q k ihp ihq _ => grind [Safe]

/-- A finished program satisfies its postcondition now. -/
theorem Safe.post {a : α} (h : (ret a : Prog Op Res α).Safe machine live R G Q s) : Q a s := h s (R.refl s)

/-- A scheduling decision is a guarantee step, or leaves the state alone, and safety persists. -/
theorem Safe.step {p' : Prog Op Res α} (hstep : Step machine p s p' s') (h : p.Safe machine live R G Q s) :
    (s' = s ∨ G s s') ∧ p'.Safe machine live R G Q s' := by
  induction hstep generalizing R G with
  | op hrun => grind [Rely.refl, Safe]
  | left _ ih =>
    obtain ⟨Rp, Rq, Gp, Gq, Qp, Qq, hsides, hp, hq, hk⟩ := h
    obtain ⟨hmove, hp'⟩ := ih hp
    rcases hmove with rfl | hGp
    · exact ⟨Or.inl rfl, Rp, Rq, Gp, Gq, Qp, Qq, hsides, hp', hq, hk⟩
    · obtain ⟨hRq, hG⟩ := hsides.2.1 _ _ hGp
      exact ⟨Or.inr hG, Rp, Rq, Gp, Gq, Qp, Qq, hsides, hp', hq.stable hRq, hk⟩
  | right _ ih =>
    obtain ⟨Rp, Rq, Gp, Gq, Qp, Qq, hsides, hp, hq, hk⟩ := h
    obtain ⟨hmove, hq'⟩ := ih hq
    rcases hmove with rfl | hGq
    · exact ⟨Or.inl rfl, Rp, Rq, Gp, Gq, Qp, Qq, hsides, hp, hq', hk⟩
    · obtain ⟨hRp, hG⟩ := hsides.2.2 _ _ hGq
      exact ⟨Or.inr hG, Rp, Rq, Gp, Gq, Qp, Qq, hsides, hp.stable hRp, hq', hk⟩
  | join => grind [post, Safe]

/-- Along every run safety persists, and an assertion kept by the guarantee stays true. -/
theorem Safe.steps {p' : Prog Op Res α} (hI : ∀ s s', I s → G s s' → I s') (h : p.Safe machine live R G Q s)
    (hs : I s) (hrun : Steps machine p s p' s') : p'.Safe machine live R G Q s' ∧ I s' := by
  induction hrun with
  | refl => exact ⟨h, hs⟩
  | tail _ last ih => grind [step]

/-- Weaken the guarantee and the postcondition, and tolerate less interference. -/
theorem Safe.mono (h : p.Safe machine live R G Q s) (hR : ∀ s s', R'.rel s s' → R.rel s s')
    (hG : ∀ s s', G s s' → G' s s') (hQ : ∀ a s, Q a s → Q' a s) : p.Safe machine live R' G' Q' s := by
  induction p generalizing R R' G G' s with
  | ret a => exact fun s' h' => hQ a s' (h s' (hR s s' h'))
  | op o k ih => grind [Safe]
  | par p q k _ _ ih => grind [Safe]

/-- Weaken the postcondition only. -/
theorem Safe.weaken (h : p.Safe machine live R G Q s) (hQ : ∀ a s, Q a s → Q' a s) : p.Safe machine live R G Q' s :=
  h.mono (fun _ _ h => h) (fun _ _ h => h) hQ

/-- Sequencing: the first program establishes what the rest needs. -/
theorem Safe.bind {next : α → Prog Op Res β} {Q : β → σ → Prop}
    (h : p.Safe machine live R G (fun a s => (next a).Safe machine live R G Q s) s) :
    (p >>= next).Safe machine live R G Q s := by
  induction p generalizing s with
  | ret a => exact h.post
  | op o k ih =>
    intro s₁ h₁
    obtain ⟨henabled, hrun⟩ := h s₁ h₁
    refine ⟨henabled, fun c r s₂ hexec => ?_⟩
    obtain ⟨hmove, hk⟩ := hrun c r s₂ hexec
    exact ⟨hmove, ih r hk⟩
  | par p q k _ _ ih =>
    obtain ⟨Rp, Rq, Gp, Gq, Qp, Qq, hsides, hp, hq, hk⟩ := h
    exact ⟨Rp, Rq, Gp, Gq, Qp, Qq, hsides, hp, hq, fun a b s' ha hb => ih a b (hk a b s' ha hb)⟩

/-- An assertion kept by both the environment and the program may be carried along. -/
theorem Safe.frame (h : p.Safe machine live R G Q s) (hR : ∀ s s', R.rel s s' → I s → I s')
    (hG : ∀ s s', G s s' → I s → I s') (hs : I s) : p.Safe machine live R G (fun a s => Q a s ∧ I s) s := by
  induction p generalizing R G s with
  | ret a => exact fun s' h' => ⟨h s' h', hR s s' h' hs⟩
  | op o k ih => grind [Safe]
  | par p q k ihp ihq ih =>
    obtain ⟨Rp, Rq, Gp, Gq, Qp, Qq, hsides, hp, hq, hk⟩ := h
    have hGp : ∀ s s', Gp s s' → I s → I s' := fun s s' h' => hG s s' (hsides.2.1 s s' h').2
    have hGq : ∀ s s', Gq s s' → I s → I s' := fun s s' h' => hG s s' (hsides.2.2 s s' h').2
    refine ⟨Rp.inter (.keeps I), Rq.inter (.keeps I), Gp, Gq, fun a s => Qp a s ∧ I s, fun b s => Qq b s ∧ I s,
      ⟨fun s s' h' => ⟨⟨(hsides.1 s s' h').1, hR s s' h'⟩, ⟨(hsides.1 s s' h').2, hR s s' h'⟩⟩,
        fun s s' h' => ⟨⟨(hsides.2.1 s s' h').1, hGp s s' h'⟩, (hsides.2.1 s s' h').2⟩,
        fun s s' h' => ⟨⟨(hsides.2.2 s s' h').1, hGq s s' h'⟩, (hsides.2.2 s s' h').2⟩⟩, ?_, ?_, ?_⟩
    · exact ihp (hp.mono (fun _ _ h => h.1) (fun _ _ h => h) (fun _ _ h => h)) (fun _ _ h => h.2) hGp hs
    · exact ihq (hq.mono (fun _ _ h => h.1) (fun _ _ h => h) (fun _ _ h => h)) (fun _ _ h => h.2) hGq hs
    · exact fun a b s' ha hb => ih a b (hk a b s' ha.1 hb.1) hR hG ha.2

/-- Carry an assertion along that the program keeps and the environment is asked to keep. -/
theorem Safe.framed (h : p.Safe machine live R G Q s) (hG : ∀ s s', G s s' → I s → I s') (hs : I s)
    (hQ : ∀ a s, Q a s → Q' a s) : p.Safe machine live (R.inter (.keeps I)) G (fun a s => Q' a s ∧ I s) s := by
  have h' : p.Safe machine live (R.inter (.keeps I)) G Q s :=
    h.mono (fun _ _ hR => hR.1) (fun _ _ hm => hm) fun _ _ hq => hq
  exact (h'.frame (fun s s' hR => hR.2) hG hs).weaken fun a s hq => ⟨hQ a s hq.1, hq.2⟩

end Prog

end Radon.Concurrency
