import Radon.Concurrency.ForkJoin

/-!
# Protocols for named goroutines

A goroutine is named by the list of forks that lead to it, so that one goroutine descends from
another when the name of the latter is a suffix of its own. A protocol says which operations a
goroutine may perform in a state, and what every goroutine may rely on: operations of goroutines
it is not related to leave its private part of the state alone.

Programs are shown to follow a protocol with triples over stable assertions. Every property that
the allowed operations preserve then holds in every state that such a program reaches, in any
interleaving.
-/

namespace Radon.Concurrency

open List

variable {Op : Type} {Res : Op → Type} {σ χ F α β γ κ τ : Type}

/-- What the goroutines with a given name may do, and what they rely on. -/
structure Protocol (machine : Machine Op Res σ χ) (F : Type) where
  wf : σ → Prop
  allowed : List F → Op → σ → Prop
  keeps : List F → Rely σ
  wf_step : ∀ {g : List F} {o : Op} {c : χ} {s : σ} {r : Res o} {s' : σ}, wf s → allowed g o s →
    machine o c s = some (r, s') → wf s'
  keeps_step : ∀ {g h : List F} {o : Op} {c : χ} {s : σ} {r : Res o} {s' : σ}, wf s → allowed h o s →
    machine o c s = some (r, s') → ¬ g <:+ h → ¬ h <:+ g → (keeps g).rel s s'
  keeps_mono : ∀ {g h : List F} {s s' : σ}, g <:+ h → (keeps g).rel s s' → (keeps h).rel s s'

namespace Protocol

open Prog

variable {machine : Machine Op Res σ χ} (P : Protocol machine F)

/-- An allowed operation of a goroutine or of one that descends from it. -/
def moves (g : List F) (s s' : σ) : Prop :=
  P.wf s ∧ ∃ h o c r, g <:+ h ∧ P.allowed h o s ∧ machine o c s = some (r, s')

/-- What a goroutine tolerates. -/
def rely (g : List F) : Rely σ := (P.keeps g).inter (.keeps P.wf)

/-- An assertion that only the goroutine and its descendants can make false. -/
def Stable (g : List F) (A : σ → Prop) : Prop :=
  ∀ s s', P.wf s → (P.keeps g).rel s s' → A s → A s'

/-- An assertion that the forks `fs` of a goroutine keep as well. -/
def Kept (g : List F) (fs : F → Prop) (A : σ → Prop) : Prop :=
  P.Stable g A ∧ ∀ f, fs f → ∀ s s', P.moves (f :: g) s s' → A s → A s'

/-- From a state that satisfies `A` the program follows the protocol and ends in `Q`. -/
def Triple (g : List F) (A : σ → Prop) (p : Prog Op Res α) (Q : α → σ → Prop) : Prop :=
  ∀ s, P.wf s → A s →
    p.Safe machine False (P.rely g) (P.moves g) (fun a s => P.wf s ∧ Q a s) s

variable {P} {g : List F} {A B : σ → Prop}

theorem Stable.and (hA : P.Stable g A) (hB : P.Stable g B) : P.Stable g fun s => A s ∧ B s :=
  fun s s' hwf hR h => ⟨hA s s' hwf hR h.1, hB s s' hwf hR h.2⟩

theorem Stable.of_pure (p : Prop) : P.Stable g fun _ => p := fun _ _ _ _ h => h

theorem Stable.imp {p : Prop} (hA : p → P.Stable g A) : P.Stable g fun s => p → A s :=
  fun s s' hwf hR h hp => hA hp s s' hwf hR (h hp)

theorem Stable.ex {ι : Sort*} {A : ι → σ → Prop} (hA : ∀ i, P.Stable g (A i)) : P.Stable g fun s => ∃ i, A i s := by
  rintro s s' hwf hR ⟨i, h⟩
  exact ⟨i, hA i s s' hwf hR h⟩

theorem Stable.all {ι : Sort*} {A : ι → σ → Prop} (hA : ∀ i, P.Stable g (A i)) : P.Stable g fun s => ∀ i, A i s :=
  fun s s' hwf hR h i => hA i s s' hwf hR (h i)

/-- The moves of a descendant are moves of the goroutine. -/
theorem moves_mono {h : List F} (hgh : g <:+ h) {s s' : σ} (hm : P.moves h s s') : P.moves g s s' := by
  grind [moves]

/-- A move keeps the state well formed. -/
theorem moves_wf {s s' : σ} (hm : P.moves g s s') : P.wf s' := by
  obtain ⟨hwf, h, o, c, r, _, hallowed, hrun⟩ := hm
  exact P.wf_step hwf hallowed hrun

/-- Descendants of two different forks are unrelated. -/
theorem not_suffix_of_forks {f f' : F} (hne : f ≠ f') {h : List F} (hh : f :: g <:+ h) :
    ¬ f' :: g <:+ h ∧ ¬ h <:+ f' :: g := by
  constructor
  · intro hh'
    rcases suffix_or_suffix_of_suffix hh hh' with heq | heq
    · exact hne (List.cons.inj (heq.eq_of_length rfl)).1
    · exact hne (List.cons.inj (heq.eq_of_length rfl)).1.symm
  · intro hh'
    exact hne (List.cons.inj ((hh.trans hh').eq_of_length rfl)).1

/-- The moves of one fork are tolerated by another. -/
theorem moves_rely {f f' : F} (hne : f ≠ f') {s s' : σ} (hm : P.moves (f :: g) s s') : (P.rely (f' :: g)).rel s s' := by
  obtain ⟨hwf, h, o, c, r, hsuffix, hallowed, hrun⟩ := hm
  obtain ⟨h₁, h₂⟩ := not_suffix_of_forks hne hsuffix
  exact ⟨P.keeps_step hwf hallowed hrun h₁ h₂, fun _ => P.wf_step hwf hallowed hrun⟩

variable {Q : α → σ → Prop} {p : Prog Op Res α} {I : σ → Prop}

/-- Returning. -/
theorem Triple.ret {a : α} (hA : P.Stable g A) (h : ∀ s, P.wf s → A s → Q a s) : P.Triple g A (.ret a) Q := by
  intro s hwf hs s' hR
  have hwf' : P.wf s' := hR.2 hwf
  exact ⟨hwf', h s' hwf' (hA s s' hwf hR.1 hs)⟩

/-- One operation: it is allowed, and establishes a stable assertion. -/
theorem Triple.perform {o : Op} {Q : Res o → σ → Prop} (hA : P.Stable g A) (hQ : ∀ r, P.Stable g (Q r))
    (h : ∀ s, P.wf s → A s → P.allowed g o s ∧ ∀ c r s', machine o c s = some (r, s') → P.wf s' → Q r s') :
    P.Triple g A (Prog.perform o) Q := by
  intro s hwf hs s₁ hR
  have hwf₁ : P.wf s₁ := hR.2 hwf
  obtain ⟨hallowed, hpost⟩ := h s₁ hwf₁ (hA s s₁ hwf hR.1 hs)
  refine ⟨False.elim, fun c r s₂ hrun => ?_⟩
  have hwf₂ : P.wf s₂ := P.wf_step hwf₁ hallowed hrun
  refine ⟨⟨hwf₁, g, o, c, r, suffix_rfl, hallowed, hrun⟩, fun s₃ hR' => ?_⟩
  exact ⟨hR'.2 hwf₂, hQ r s₂ s₃ hwf₂ hR'.1 (hpost c r s₂ hrun hwf₂)⟩

/-- Sequencing. -/
theorem Triple.bind {next : α → Prog Op Res β} {B : α → σ → Prop} {Q : β → σ → Prop} (hp : P.Triple g A p B)
    (hnext : ∀ a, P.Triple g (B a) (next a) Q) : P.Triple g A (p >>= next) Q := by
  intro s hwf hs
  exact Safe.bind ((hp s hwf hs).weaken fun a s' h => hnext a s' h.1 h.2)

/-- A stronger precondition and a weaker postcondition. -/
theorem Triple.conseq {A' : σ → Prop} {Q' : α → σ → Prop} (h : P.Triple g A p Q)
    (hA : ∀ s, P.wf s → A' s → A s) (hQ : ∀ a s, P.wf s → Q a s → Q' a s) : P.Triple g A' p Q' := by
  intro s hwf hs
  exact (h s hwf (hA s hwf hs)).weaken fun a s' h' => ⟨h'.1, hQ a s' h'.1 h'.2⟩

/-- A weaker postcondition. -/
theorem Triple.post {Q' : α → σ → Prop} (h : P.Triple g A p Q)
    (hQ : ∀ a s, P.wf s → Q a s → Q' a s) : P.Triple g A p Q' :=
  h.conseq (fun _ _ h => h) hQ

/-- A stronger precondition. -/
theorem Triple.pre {A' : σ → Prop} (h : P.Triple g A p Q) (hA : ∀ s, P.wf s → A' s → A s) : P.Triple g A' p Q :=
  h.conseq hA fun _ _ _ h => h

/-- A pure fact of the precondition may be assumed. -/
theorem Triple.assume {fact : Prop} (h : fact → P.Triple g A p Q) : P.Triple g (fun s => fact ∧ A s) p Q :=
  fun s hwf hs => h hs.1 s hwf hs.2

/-- Sequencing, with a fact about the reply. -/
theorem Triple.bind_pure {next : α → Prog Op Res β} {fact : α → Prop}
    {B : α → σ → Prop} {Q : β → σ → Prop} (hp : P.Triple g A p fun a s => fact a ∧ B a s)
    (hnext : ∀ a, fact a → P.Triple g (B a) (next a) Q) : P.Triple g A (p >>= next) Q :=
  hp.bind fun a => Triple.assume (hnext a)

theorem Stable.rely_wf (hI : P.Stable g I) {s s' : σ} (hR : (P.rely g).rel s s') (h : P.wf s ∧ I s) : P.wf s' ∧ I s' :=
  ⟨hR.2 h.1, hI s s' h.1 hR.1 h.2⟩

/-- An assertion that the environment and the operations of the program keep is carried along. -/
theorem Triple.frame {O : Op → Prop} (h : P.Triple g A p Q) (hO : p.All O) (hI : P.Stable g I)
    (hop : ∀ o c s r s', O o → machine o c s = some (r, s') → I s → I s') :
    P.Triple g (fun s => A s ∧ I s) p fun a s => Q a s ∧ I s := by
  intro s hwf hs
  refine (((hO.safe_restrict (h s hwf hs.1)).frame (fun _ _ => hI.rely_wf) ?_ ⟨hwf, hs.2⟩).mono (fun _ _ h => h)
    (fun _ _ h => h.1) ?_)
  · grind [moves_wf]
  · exact fun a s h => ⟨h.1.1, h.1.2, h.2.2⟩

/-- An assertion that the environment and all moves of the goroutine keep is carried along. -/
theorem Triple.frame_moves (h : P.Triple g A p Q) (hI : P.Stable g I) (hmove : ∀ s s', P.moves g s s' → I s → I s') :
    P.Triple g (fun s => A s ∧ I s) p fun a s => Q a s ∧ I s := by
  intro s hwf hs
  refine ((h s hwf hs.1).frame (fun _ _ => hI.rely_wf) (fun s s' hm hJ => ?_) ⟨hwf, hs.2⟩).weaken fun a s h => ?_
  · exact ⟨moves_wf hm, hmove s s' hm hJ.2⟩
  · exact ⟨h.1.1, h.1.2, h.2.2⟩

/-- A witness of the precondition may be named. -/
theorem Triple.exists {ι : Sort*} {A : ι → σ → Prop}
    (h : ∀ i, P.Triple g (A i) p Q) : P.Triple g (fun s => ∃ i, A i s) p Q := by
  rintro s hwf ⟨i, hs⟩
  exact h i s hwf hs

/-- A fork with one goroutine per key. `I` is kept by the environment and by the goroutines. -/
theorem Triple.forkAll {child : κ → Prog Op Res τ} {ks : List κ} (name : κ → F) {A : κ → σ → Prop}
    {Q : κ → τ → σ → Prop} (hnodup : ks.Nodup) (hname : ∀ k k', k ≠ k' → name k ≠ name k')
    (hI : P.Kept g (fun f => ∃ k ∈ ks, f = name k) I) (hQ : ∀ k a, P.Stable (name k :: g) (Q k a))
    (hchild : ∀ k ∈ ks, P.Triple (name k :: g) (A k) (child k) (Q k)) :
    P.Triple g (fun s => (∀ k ∈ ks, A k s) ∧ I s) (Prog.forkAll child ks)
      (fun out s => List.Forall₂ (fun k a => Q k a s) ks out ∧ I s) := by
  intro s hwf hs
  let J : σ → Prop := fun s => P.wf s ∧ I s
  have hmoveJ : ∀ k ∈ ks, ∀ s s', P.moves (name k :: g) s s' → J s → J s' := fun k hk s s' hm hJ =>
    ⟨moves_wf hm, hI.2 (name k) ⟨k, hk, rfl⟩ s s' hm hJ.2⟩
  have hrelyJ : ∀ s s', (P.rely g).rel s s' → J s → J s' := fun s s' hR hJ =>
    ⟨hR.2 hJ.1, hI.1 s s' hJ.1 hR.1 hJ.2⟩
  let G : σ → σ → Prop := fun s s' => P.moves g s s' ∧ (J s → J s')
  have hfork : (Prog.forkAll child ks).Safe machine False (P.rely g) G
      (fun out s => List.Forall₂ (fun k a => P.wf s ∧ Q k a s) ks out) s := by
    refine Safe.forkAll (fun k => P.rely (name k :: g)) (fun k => P.moves (name k :: g))
      hnodup ?_ ?_ ?_ ?_ fun k hk => hchild k hk s hwf (hs.1 k hk)
    · exact fun k _ s s' hR => ⟨P.keeps_mono (suffix_cons _ _) hR.1, hR.2⟩
    · exact fun k hk s s' hm => ⟨moves_mono (suffix_cons _ _) hm, hmoveJ k hk s s' hm⟩
    · exact fun k k' hne s s' hm => moves_rely (hname k k' hne) hm
    · exact fun k a s s' hR h => ⟨hR.2 h.1, hQ k a s s' h.1 hR.1 h.2⟩
  refine ((hfork.frame hrelyJ (fun s s' hG => hG.2) ⟨hwf, hs.2⟩).mono (fun _ _ h => h)
    (fun _ _ h => h.1) ?_)
  exact fun out s h => ⟨h.2.1, h.1.imp fun _ _ h => h.2, h.2.2⟩

/-- A fork into two goroutines. -/
theorem Triple.par {f f' : F} {p : Prog Op Res β} {q : Prog Op Res γ} {k : β → γ → Prog Op Res α} {Qp : β → σ → Prop}
    {Qq : γ → σ → Prop} (hne : f ≠ f') (hI : P.Kept g (fun k => k = f ∨ k = f') I) (hp : P.Triple (f :: g) A p Qp)
    (hq : P.Triple (f' :: g) B q Qq) (hk : ∀ b c, P.Triple g (fun s => Qp b s ∧ Qq c s ∧ I s) (k b c) Q) :
    P.Triple g (fun s => A s ∧ B s ∧ I s) (.par p q k) Q := by
  intro s hwf hs
  let J : σ → Prop := fun s => P.wf s ∧ I s
  have hmoveJ : ∀ k, k = f ∨ k = f' → ∀ s s', P.moves (k :: g) s s' → J s → J s' :=
    fun k hk s s' hm hJ => ⟨moves_wf hm, hI.2 k hk s s' hm hJ.2⟩
  have hrelyJ : ∀ s s', (P.rely g).rel s s' → J s → J s' := fun s s' hR hJ =>
    ⟨hR.2 hJ.1, hI.1 s s' hJ.1 hR.1 hJ.2⟩
  have hside : ∀ f s s', (P.rely g).rel s s' → ((P.rely (f :: g)).inter (.keeps J)).rel s s' :=
    fun f s s' hR => ⟨⟨P.keeps_mono (suffix_cons _ _) hR.1, hR.2⟩, hrelyJ s s' hR⟩
  refine ⟨(P.rely (f :: g)).inter (.keeps J), (P.rely (f' :: g)).inter (.keeps J),
    P.moves (f :: g), P.moves (f' :: g), fun b s => Qp b s ∧ J s, fun c s => Qq c s ∧ J s,
    ⟨fun s s' hR => ⟨hside f s s' hR, hside f' s s' hR⟩, ?_, ?_⟩, ?_, ?_, ?_⟩
  · exact fun s s' hm => ⟨⟨moves_rely hne hm, hmoveJ f (.inl rfl) s s' hm⟩, moves_mono (suffix_cons _ _) hm⟩
  · exact fun s s' hm => ⟨⟨moves_rely hne.symm hm, hmoveJ f' (.inr rfl) s s' hm⟩,
      moves_mono (suffix_cons _ _) hm⟩
  · exact (hp s hwf hs.1).framed (hmoveJ f (.inl rfl)) ⟨hwf, hs.2.2⟩ fun b s h => h.2
  · exact (hq s hwf hs.2.1).framed (hmoveJ f' (.inr rfl)) ⟨hwf, hs.2.2⟩ fun c s h => h.2
  · exact fun b c s' hb hc => hk b c s' hb.2.1 ⟨hb.1, hc.1, hb.2.2⟩

/-- What every allowed operation preserves holds in every state that the program reaches. -/
theorem Triple.invariant {p' : Prog Op Res α} {s s' : σ} (h : P.Triple g A p Q)
    (hI : ∀ h o c s r s', P.wf s → P.allowed h o s → machine o c s = some (r, s') → I s → I s') (hwf : P.wf s)
    (hA : A s) (hs : I s) (hrun : Steps machine p s p' s') : I s' := by
  refine ((h s hwf hA).steps (I := I) (fun s s' hs hm => ?_) hs hrun).2
  grind [moves]

end Protocol

end Radon.Concurrency
