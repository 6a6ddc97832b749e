import Mathlib.Data.List.Perm.Subperm
import Radon.Backend.TxnSpec

/-!
# `Finish` and `Abort` follow the discipline

Whoever has marked the transaction as over releases its connections: those of the two-phase map,
then the normal ones, then the replica ones. Unless the owner and an abort got in each other's way,
each connection of the transaction is released once when the transaction leaves the manager.
-/

namespace Radon

open Concurrency Protocol List

variable {g : Goroutine} {t : TxnId} {bs : Backends}

/-- The goroutine is in the section of `Finish`, or of an `Abort` that goes through. -/
def InSection (g : Goroutine) (t : TxnId) (w : World) : Prop :=
  (w.txns t).mu = some (.finish g) ∨ (w.txns t).mu = some (.abort g) ∧ 0 < (w.txns t).aborts

variable {w : World} {Φ Φ' : Snap → Prop} {start visited : List Backend} {release : Conn → Go Unit}

theorem InSection.holding (h : InSection g t w) :
    (w.txns t).mu = some (.finish g) ∨ (w.txns t).mu = some (.abort g) := h.imp id And.left

/-- What the goroutine in the section can count on. -/
structure Claims (g : Goroutine) (t : TxnId) (bs : Backends) (p : Section) (w : World) : Prop where
  inSection : InSection g t w
  progress : (w.txns t).progress = p
  added : (w.txns t).added = true
  backends : (w.txns t).backends = bs

theorem Claims.stable {p : Section} : discipline.Stable g (Claims g t bs p) := by
  intro w w' hw hK h
  obtain ⟨hmu, hprogress, haborts, _⟩ := (hK.txns t).holding g h.inSection.holding suffix_rfl
  obtain ⟨o, ho⟩ := Option.ne_none_iff_exists'.mp ((hw.txn t).owned h.added)
  refine ⟨?_, hprogress.trans h.progress, (hK.txns t).added h.added,
    ((hK.txns t).born o ho).2.trans h.backends⟩
  unfold InSection
  rw [hmu, haborts]
  exact h.inSection

theorem Claims.of_txns {p : Section} {w' : World} (h : Claims g t bs p w) (htxns : w'.txns = w.txns) :
    Claims g t bs p w' := by
  obtain ⟨h₁, h₂, h₃, h₄⟩ := h
  refine ⟨?_, ?_, ?_, ?_⟩
  · unfold InSection
    rw [htxns]
    exact h₁
  · rw [htxns]; exact h₂
  · rw [htxns]; exact h₃
  · rw [htxns]; exact h₄

/-- The connections of a transaction at some point of the release, and those still to be released. -/
structure Snap where
  twopc : Backend → Option Conn
  normal : List Conn
  replica : List Conn
  todo : Conn → Prop

/-- The snapshot is right. -/
structure Snap.Matches (s : Snap) (t : TxnId) (w : World) : Prop where
  twopc : (w.txns t).twopcConnections = s.twopc
  normal : (w.txns t).normalConnections = s.normal
  replica : (w.txns t).replicaConnections = s.replica
  hand : (w.txns t).inHand = []
  released : ∀ c, Holds t c w → (s.todo c → w.released c = 0) ∧ (¬ s.todo c → w.released c = 1)

/-- Some snapshot with the property is right, unless the connections were disturbed. -/
def Matched (t : TxnId) (Φ : Snap → Prop) (w : World) : Prop :=
  Disturbed t w.log ∨ ∃ s, Φ s ∧ s.Matches t w

theorem Matched.keeps {w' : World} (h : Matched t Φ w) (hsec : InSection g t w)
    (hK : Keeps g w w') : Matched t Φ w' := by
  rcases h with h | ⟨s, hs, hm⟩
  · exact .inl (h.mono hK.log)
  · rcases (hK.txns t).still g hsec suffix_rfl with hd | ⟨h₁, h₂, h₃, h₄⟩
    · exact .inl hd
    · rcases hK.conns t g hsec suffix_rfl with hd | hconns
      · exact .inl hd
      · refine .inr ⟨s, hs, h₁.trans hm.twopc, h₂.trans hm.normal, h₃.trans hm.replica, h₄.trans hm.hand, ?_⟩
        grind [Snap.Matches.released, Holds]

theorem Matched.mono (h : Matched t Φ w) (hΦ : ∀ s, Φ s → Φ' s) : Matched t Φ' w :=
  Or.imp id (fun ⟨s, hs, hm⟩ => ⟨s, hΦ s hs, hm⟩) h

/-- The state of a release. -/
def Sweep (g : Goroutine) (t : TxnId) (bs : Backends) (Φ : Snap → Prop) (w : World) : Prop :=
  Claims g t bs .claimed w ∧ Matched t Φ w

theorem Sweep.stable : discipline.Stable g (Sweep g t bs Φ) :=
  fun w w' hw hK h => ⟨Claims.stable w w' hw hK h.1, h.2.keeps h.1.inSection hK⟩

theorem Sweep.mono (h : Sweep g t bs Φ w) (hΦ : ∀ s, Φ s → Φ' s) : Sweep g t bs Φ' w :=
  ⟨h.1, h.2.mono hΦ⟩

theorem Claims.releasing (h : Claims g t bs .claimed w) : Releasing g (w.txns t) :=
  ⟨h.inSection, h.progress⟩

/-- The connections were handed to the transaction. -/
def HoldsAll (t : TxnId) (conns : List Conn) (w : World) : Prop := ∀ c ∈ conns, Holds t c w

theorem HoldsAll.stable {conns : List Conn} : discipline.Stable g (HoldsAll t conns) :=
  .all fun _ => .imp fun _ => Holds.stable

/-- One connection is released. -/
theorem release_spec {o : Op} {c : Conn} {conns : List Conn}
    (hΦ : ∀ s, Φ s → s.todo c ∧ Φ' { s with todo := fun c' => s.todo c' ∧ c' ≠ c })
    (hallow : ∀ w, Claims g t bs .claimed w → Holds t c w → (Disturbed t w.log ∨ w.released c = 0) → Allowed g o w)
    (heffect : ∀ choice w r w', exec o choice w = some (r, w') → w'.txns = w.txns ∧ w.log <:+ w'.log ∧
      (w.Touches 1 c w' ∨ Disturbed t w'.log)) : Spec g (fun w => Sweep g t bs Φ w ∧ HoldsAll t (c :: conns) w) (act o)
      fun _ w => Sweep g t bs Φ' w ∧ HoldsAll t conns w := by
  refine Triple.perform (Sweep.stable.and HoldsAll.stable) (fun _ => Sweep.stable.and HoldsAll.stable) ?_
  rintro w hw ⟨⟨hclaims, hmatched⟩, hall⟩
  have hc := hall c mem_cons_self
  have hfree : Disturbed t w.log ∨ w.released c = 0 :=
    Or.imp id (fun ⟨s, hs, hm⟩ => (hm.released c hc).1 (hΦ s hs).1) hmatched
  refine ⟨hallow w hclaims hc hfree, fun choice r w' hrun _ => ?_⟩
  obtain ⟨htxns, hlog, htouch⟩ := heffect choice w r w' hrun
  have hG := guar_step hw (hallow w hclaims hc hfree) hrun
  refine ⟨⟨hclaims.of_txns htxns, ?_⟩, fun c' hc' => hG.holder c' t (hall c' (mem_cons_of_mem _ hc'))⟩
  rcases hmatched with hd | ⟨s, hs, hm⟩
  · exact .inl (hd.mono hlog)
  · rcases htouch with htouch | hd
    · refine .inr ⟨_, (hΦ s hs).2, ?_, ?_, ?_, ?_, fun c' hc' => ?_⟩
      · rw [htxns]; exact hm.twopc
      · rw [htxns]; exact hm.normal
      · rw [htxns]; exact hm.replica
      · rw [htxns]; exact hm.hand
      · unfold Holds at hc'
        rw [htouch.holder_iff] at hc'
        by_cases hne : c' = c
        · grind [World.Touches.released, Snap.Matches.released]
        · have hsame : w'.released c' = w.released c' := by
            rw [World.released, World.released, htouch.other c' hne]
          rw [hsame]
          exact ⟨fun h => (hm.released c' hc').1 h.1, fun h => (hm.released c' hc').2 fun h' => h ⟨h', hne⟩⟩
    · exact .inl hd

/-- How a section releases one connection. -/
def Releases (g : Goroutine) (t : TxnId) (bs : Backends) (release : Conn → Go Unit) : Prop :=
  ∀ c conns Φ Φ', (∀ s : Snap, Φ s → s.todo c ∧ Φ' { s with todo := fun c' => s.todo c' ∧ c' ≠ c }) →
    Spec g (fun w => Sweep g t bs Φ w ∧ HoldsAll t (c :: conns) w) (release c)
      fun _ w => Sweep g t bs Φ' w ∧ HoldsAll t conns w

/-- `Abort` kills. -/
theorem kill_releases : Releases g t bs fun c => act (.kill t c) := by
  intro c conns Φ Φ' hΦ
  refine release_spec hΦ (fun w hclaims hc hfree => ⟨hc, hclaims.releasing, hfree⟩) ?_
  intro choice w r w' hrun
  simp only [exec] at hrun
  split at hrun
  · cases hrun
    exact ⟨rfl, suffix_rfl, .inl (w.touches_released c).2⟩
  · grind [Disturbed, World.emit]

/-- Reading the record in the middle of a release. -/
theorem readTxn_sweep {B : World → Prop} (hB : discipline.Stable g B) :
    Spec g (fun w => Sweep g t bs Φ w ∧ B w) (act (.readTxn t)) fun txn w =>
      txn.backends = bs ∧ HoldsAll t (txn.normalConnections ++ txn.replicaConnections) w ∧
        Sweep g t bs (fun s => Φ s ∧ txn.twopcConnections = s.twopc ∧ txn.normalConnections = s.normal ∧
          txn.replicaConnections = s.replica) w ∧ B w := by
  refine Triple.perform (Sweep.stable.and hB) (fun txn => ?_) ?_
  · exact (Stable.of_pure _).and (HoldsAll.stable.and (Sweep.stable.and hB))
  · rintro w hw ⟨⟨hclaims, hmatched⟩, hb⟩
    refine ⟨trivial, fun choice r w' hrun _ => ?_⟩
    cases hrun
    refine ⟨hclaims.backends, fun c hc => hw.placed t c ?_, ⟨hclaims, ?_⟩, hb⟩
    · exact .inr (.inr (mem_append.mp hc))
    · exact Or.imp id (fun ⟨s, hs, hm⟩ => ⟨s, ⟨hs, hm.twopc, hm.normal, hm.replica⟩, hm⟩) hmatched

/-- `Finish` closes or recycles. -/
theorem finishConn_releases : Releases g t bs (finishConn t) := by
  intro c conns Φ Φ' hΦ
  refine (readTxn_sweep HoldsAll.stable).bind fun txn => ?_
  refine Triple.pre (A := fun w => Sweep g t bs Φ w ∧ HoldsAll t (c :: conns) w) ?_
    fun w _ h => ⟨h.2.2.1.mono fun s hs => hs.1, h.2.2.2⟩
  split
  · refine release_spec hΦ (fun w hclaims hc hfree => ⟨t, hc, hclaims.releasing, hfree⟩) ?_
    intro choice w r w' hrun
    cases hrun
    exact ⟨rfl, suffix_rfl, .inl (w.touches_released c).1⟩
  · refine release_spec hΦ (fun w hclaims hc hfree => ⟨t, hc, hclaims.releasing, hfree⟩) ?_
    intro choice w r w' hrun
    cases hrun
    exact ⟨rfl, suffix_rfl, .inl (w.touches_recycleConn c)⟩

theorem twopcDelete_sweep {b : Backend} (hΦ : ∀ s, Φ s → (∀ c, s.twopc b = some c → ¬ s.todo c) ∧
      Φ' { s with twopc := Function.update s.twopc b none }) :
    Spec g (Sweep g t bs Φ) (act (.twopcDelete t b)) fun _ => Sweep g t bs Φ' := by
  refine Triple.perform Sweep.stable (fun _ => Sweep.stable) ?_
  rintro w hw ⟨hclaims, hmatched⟩
  refine ⟨⟨hclaims.releasing, ?_⟩, fun choice r w' hrun _ => ?_⟩
  · refine Or.imp id (fun ⟨s, hs, hm⟩ c hc => ?_) hmatched
    rw [hm.twopc] at hc
    exact (hm.released c (hw.placed t c (.inr (.inl ⟨b, by rw [hm.twopc]; exact hc⟩)))).2
      ((hΦ s hs).1 c hc)
  · cases hrun
    have hself := World.updTxn_self w t fun txn => txn.deleteTwopc b
    refine ⟨⟨?_, ?_, ?_, ?_⟩, ?_⟩
    · unfold InSection
      rw [hself]
      exact hclaims.inSection
    · rw [hself]; exact hclaims.progress
    · rw [hself]; exact hclaims.added
    · rw [hself]; exact hclaims.backends
    · refine Or.imp id (fun ⟨s, hs, hm⟩ => ⟨_, (hΦ s hs).2, ?_, ?_, ?_, ?_, hm.released⟩) hmatched
      · rw [hself, ← hm.twopc]; rfl
      · rw [hself]; exact hm.normal
      · rw [hself]; exact hm.replica
      · rw [hself]; exact hm.hand

/-- The next entry of the two-phase map, or the end of the iteration. -/
theorem twopcNext_sweep :
    Spec g (Sweep g t bs Φ) (act (.twopcNext t start visited)) fun r w =>
      match r with
      | none => Sweep g t bs (fun s => Φ s ∧
          ∀ b ∈ bs.names, b ∉ visited → (s.twopc b).isSome → b ∉ start) w
      | some (b, c) => (b ∈ bs.names ∧ b ∉ visited) ∧
          Sweep g t bs (fun s => Φ s ∧ s.twopc b = some c) w ∧ HoldsAll t [c] w := by
  refine Triple.perform Sweep.stable (fun r => ?_) ?_
  · cases r with
    | none => exact Sweep.stable
    | some bc => exact (Stable.of_pure _).and (Sweep.stable.and HoldsAll.stable)
  · rintro w hw ⟨hclaims, hmatched⟩
    refine ⟨trivial, fun choice r w' hrun _ => ?_⟩
    simp only [exec, World.nextTwopc, hclaims.backends] at hrun
    split at hrun
    · rename_i b hb
      obtain ⟨hmem, hcond⟩ := mem_filter.mp (mem_of_getElem? hb)
      obtain ⟨hvisited, hsome⟩ := of_decide_eq_true hcond
      obtain ⟨c, hc⟩ := Option.isSome_iff_exists.mp hsome
      rw [hc] at hrun
      cases hrun
      have hholds : Holds t c w := hw.placed t c (.inr (.inl ⟨b, hc⟩))
      grind [Snap.Matches.twopc, Sweep, HoldsAll, Matched]
    · split at hrun
      · cases hrun
      · rename_i hnone
        cases hrun
        grind [Snap.Matches.twopc, Matched, Sweep]

/-- The three collections have no connection in common. -/
structure Snap.Sep (s : Snap) : Prop where
  inj : ∀ b b' c, s.twopc b = some c → s.twopc b' = some c → b = b'
  normal : ∀ b c, s.twopc b = some c → c ∉ s.normal
  replica : ∀ b c, s.twopc b = some c → c ∉ s.replica
  disjoint : ∀ c ∈ s.normal, c ∉ s.replica
  normal_nodup : s.normal.Nodup
  replica_nodup : s.replica.Nodup

/-- The two-phase connections that are left are to be released, and all others. -/
structure SweepTwopc (bs : Backends) (start visited : List Backend) (s : Snap) : Prop where
  sep : s.Sep
  todo : ∀ c, s.todo c ↔ (∃ b, s.twopc b = some c) ∨ c ∈ s.normal ∨ c ∈ s.replica
  left : ∀ b, (s.twopc b).isSome → b ∈ start ∧ b ∈ bs.names ∧ b ∉ visited

/-- The connections of the two lists are to be released. -/
structure SweepLists (s : Snap) : Prop where
  sep : s.Sep
  todo : ∀ c, s.todo c ↔ c ∈ s.normal ∨ c ∈ s.replica

theorem SweepTwopc.lists {s : Snap} (h : SweepTwopc bs start visited s)
    (hnone : ∀ b, ¬ (s.twopc b).isSome) : SweepLists s := by
  refine ⟨h.sep, fun c => (h.todo c).trans (or_iff_right ?_)⟩
  rintro ⟨b, hb⟩
  exact hnone b (by rw [hb]; rfl)

/-- Releasing a two-phase connection and deleting its entry. -/
theorem SweepTwopc.step {s : Snap} {b : Backend} {c : Conn} (h : SweepTwopc bs start visited s)
    (hb : s.twopc b = some c) : SweepTwopc bs start (b :: visited)
      ⟨Function.update s.twopc b none, s.normal, s.replica, fun c' => s.todo c' ∧ c' ≠ c⟩ := by
  have hold : ∀ {b' c'}, Function.update s.twopc b none b' = some c' → b' ≠ b ∧ s.twopc b' = some c' := by
    grind
  refine ⟨⟨fun b₁ b₂ c' h₁ h₂ => h.sep.inj b₁ b₂ c' (hold h₁).2 (hold h₂).2,
    fun b' c' h' => h.sep.normal b' c' (hold h').2, fun b' c' h' => h.sep.replica b' c' (hold h').2,
    h.sep.disjoint, h.sep.normal_nodup, h.sep.replica_nodup⟩, fun c' => ?_, fun b' hsome => ?_⟩
  · constructor
    · rintro ⟨htodo, hne⟩
      grind [todo]
    · rintro (⟨b', hb'⟩ | hn | hr)
      · obtain ⟨hne, hin⟩ := hold hb'
        refine ⟨(h.todo c').mpr (.inl ⟨b', hin⟩), ?_⟩
        rintro rfl
        exact hne (h.sep.inj b' b c' hin hb)
      · refine ⟨(h.todo c').mpr (.inr (.inl hn)), ?_⟩
        rintro rfl
        exact h.sep.normal b c' hb hn
      · refine ⟨(h.todo c').mpr (.inr (.inr hr)), ?_⟩
        rintro rfl
        exact h.sep.replica b c' hb hr
  · grind [left]

theorem rangeTwopc_spec (hrelease : Releases g t bs release) (n : ℕ) (visited : List Backend)
    (hnodup : visited.Nodup) (hsub : visited ⊆ bs.names) (hlen : visited.length + n = bs.names.length) :
    Spec g (Sweep g t bs (SweepTwopc bs start visited)) (rangeTwopc t release start n visited)
      fun _ => Sweep g t bs SweepLists := by
  induction n generalizing visited with
  | zero =>
    refine .ret Sweep.stable fun w _ h => h.mono fun s hs => hs.lists fun b hb => ?_
    have hall : bs.names ⊆ visited :=
      ((subperm_of_subset hnodup hsub).perm_of_length_le (Nat.le_of_eq hlen.symm)).symm.subset
    exact (hs.left b hb).2.2 (hall (hs.left b hb).2.1)
  | succ n ih =>
    refine twopcNext_sweep.bind fun r => ?_
    cases r with
    | none =>
      refine .ret Sweep.stable fun w _ h => h.mono fun s hs => hs.1.lists fun b hb => ?_
      grind [SweepTwopc.left]
    | some bc =>
      obtain ⟨b, c⟩ := bc
      refine Triple.assume fun hb => ?_
      refine (hrelease c [] _ (fun s => (∀ c', s.twopc b = some c' → ¬ s.todo c') ∧ SweepTwopc bs start (b :: visited)
        { s with twopc := Function.update s.twopc b none }) fun s hs => ⟨?_, ?_, hs.1.step hs.2⟩).bind fun _ => ?_
      · exact (hs.1.todo c).mpr (.inl ⟨b, hs.2⟩)
      · grind
      · refine ((twopcDelete_sweep fun s hs => hs).pre fun w _ h => h.1).bind fun _ => ?_
        grind

/-- Releasing a list of connections; `Rest` is what stays to be released after it. -/
theorem rangeConns_spec (hrelease : Releases g t bs release) {Ψ : Snap → Prop} (Rest : Snap → Conn → Prop)
    (hindep : ∀ s todo, (Ψ s → Ψ { s with todo := todo }) ∧ ∀ c, Rest { s with todo := todo } c ↔ Rest s c)
    (conns : List Conn) : Spec g (fun w => Sweep g t bs (fun s => Ψ s ∧ conns.Nodup ∧ (∀ c ∈ conns, ¬ Rest s c) ∧
        ∀ c, s.todo c ↔ c ∈ conns ∨ Rest s c) w ∧ HoldsAll t conns w)
      (rangeConns release conns) fun _ => Sweep g t bs fun s => Ψ s ∧ ∀ c, s.todo c ↔ Rest s c := by
  induction conns with
  | nil =>
    refine .ret (Sweep.stable.and HoldsAll.stable) fun w _ h => h.1.mono fun s hs => ?_
    exact ⟨hs.1, fun c => (hs.2.2.2 c).trans (or_iff_right not_mem_nil)⟩
  | cons c conns ih =>
    refine (hrelease c conns _ _ ?_).bind fun _ => ih
    rintro s ⟨hψ, hnodup, hrest, htodo⟩
    obtain ⟨hc, hnodup⟩ := nodup_cons.mp hnodup
    obtain ⟨hψ', hrest'⟩ := hindep s fun c' => s.todo c' ∧ c' ≠ c
    refine ⟨(htodo c).mpr (.inl mem_cons_self), hψ' hψ, hnodup, fun c' hc' => ?_, fun c' => ?_⟩
    · rw [hrest']
      exact hrest c' (mem_cons_of_mem _ hc')
    · rw [hrest']
      refine (and_congr_left' (htodo c')).trans ?_
      rw [mem_cons]
      constructor
      · rintro ⟨(rfl | hmem) | hr, hne⟩
        · exact absurd rfl hne
        · exact .inl hmem
        · exact .inr hr
      · rintro (hmem | hr)
        · exact ⟨.inl (.inr hmem), fun heq => hc (heq ▸ hmem)⟩
        · exact ⟨.inr hr, fun heq => hrest c mem_cons_self (heq ▸ hr)⟩

/-- Every connection with a place in the transaction is to be released. -/
structure SweepAll (bs : Backends) (s : Snap) : Prop where
  sep : s.Sep
  todo : ∀ c, s.todo c ↔ (∃ b, s.twopc b = some c) ∨ c ∈ s.normal ∨ c ∈ s.replica
  names : ∀ b, (s.twopc b).isSome → b ∈ bs.names

/-- Reading the record without further ado. -/
theorem readTxn_sweep' : Spec g (Sweep g t bs Φ) (act (.readTxn t)) fun txn w =>
      txn.backends = bs ∧ Sweep g t bs (fun s => Φ s ∧ txn.twopcConnections = s.twopc ∧
        txn.normalConnections = s.normal ∧ txn.replicaConnections = s.replica) w ∧
        HoldsAll t (txn.normalConnections ++ txn.replicaConnections) w :=
  (readTxn_sweep (.of_pure True)).conseq (fun _ _ h => ⟨h, trivial⟩) fun _ _ _ h => ⟨h.1, h.2.2.1, h.2.1⟩

theorem releaseAll_spec (hrelease : Releases g t bs release) :
    Spec g (Sweep g t bs (SweepAll bs)) (releaseAll t release) fun _ => Sweep g t bs fun s => ∀ c, ¬ s.todo c := by
  refine readTxn_sweep'.bind_pure fun txn hbs => ?_
  rw [hbs]
  have htwopc : ∀ s, (SweepAll bs s ∧ txn.twopcConnections = s.twopc ∧ txn.normalConnections = s.normal ∧
      txn.replicaConnections = s.replica) →
      SweepTwopc bs (bs.names.filter fun b => (txn.twopcConnections b).isSome) [] s := by
    rintro s ⟨hs, heq, _, _⟩
    refine ⟨hs.sep, hs.todo, fun b hb => ⟨mem_filter.mpr ⟨hs.names b hb, ?_⟩, hs.names b hb, not_mem_nil⟩⟩
    rw [heq]
    exact hb
  refine ((rangeTwopc_spec hrelease bs.names.length [] nodup_nil (nil_subset _)
    (Nat.zero_add _)).pre fun w _ h => h.1.mono htwopc).bind fun _ => ?_
  refine readTxn_sweep'.bind_pure fun txn _ => ?_
  have hnormal : ∀ s, (SweepLists s ∧ txn.twopcConnections = s.twopc ∧ txn.normalConnections = s.normal ∧
      txn.replicaConnections = s.replica) → s.Sep ∧ txn.normalConnections.Nodup ∧
      (∀ c ∈ txn.normalConnections, c ∉ s.replica) ∧
      ∀ c, s.todo c ↔ c ∈ txn.normalConnections ∨ c ∈ s.replica := by
    rintro s ⟨hs, _, heq, _⟩
    rw [heq]
    exact ⟨hs.sep, hs.sep.normal_nodup, hs.sep.disjoint, hs.todo⟩
  refine ((rangeConns_spec hrelease (Ψ := Snap.Sep) (fun s c => c ∈ s.replica)
    (fun s todo => ⟨fun h => ⟨h.inj, h.normal, h.replica, h.disjoint, h.normal_nodup, h.replica_nodup⟩,
      fun c => Iff.rfl⟩) txn.normalConnections).pre
    fun w _ h => ⟨h.1.mono hnormal, fun c hc => h.2 c (mem_append_left _ hc)⟩).bind fun _ => ?_
  refine readTxn_sweep'.bind_pure fun txn _ => ?_
  have hreplica : ∀ s : Snap, ((s.Sep ∧ ∀ c, s.todo c ↔ c ∈ s.replica) ∧ txn.twopcConnections = s.twopc ∧
      txn.normalConnections = s.normal ∧ txn.replicaConnections = s.replica) → True ∧
      txn.replicaConnections.Nodup ∧ (∀ c ∈ txn.replicaConnections, ¬ False) ∧
      ∀ c, s.todo c ↔ c ∈ txn.replicaConnections ∨ False := by
    rintro s ⟨⟨hsep, htodo⟩, _, _, heq⟩
    rw [heq]
    exact ⟨trivial, hsep.replica_nodup, fun _ _ => id, fun c => by rw [htodo, or_false]⟩
  exact (rangeConns_spec hrelease (Ψ := fun _ => True) (fun _ _ => False)
    (fun s todo => ⟨id, fun c => Iff.rfl⟩) txn.replicaConnections).conseq
    (fun w _ h => ⟨h.1.mono hreplica, fun c hc => h.2 c (mem_append_right _ hc)⟩)
    fun _ w _ h => h.mono fun s hs c hc => (hs.2 c).mp hc

/-- `Finish` or `Abort` is done, or has found that the other one came first. -/
def Leaving (g : Goroutine) (t : TxnId) (w : World) : Prop :=
  ((w.txns t).mu = some (.finish g) ∧ ((w.txns t).progress = .removed ∨
    (w.txns t).progress = .entered ∧ (w.txns t).state = .aborting)) ∨
  ((w.txns t).mu = some (.abort g) ∧ ((w.txns t).progress = .removed ∨
    (w.txns t).progress = .entered ∧ (w.txns t).state = .finshing))

theorem Leaving.stable : discipline.Stable g (Leaving g t) := by
  rintro w w' hw hK (⟨hmu, h⟩ | ⟨hmu, h⟩)
  · obtain ⟨hmu', hprogress, _⟩ := (hK.txns t).holding g (.inl hmu) suffix_rfl
    refine .inl ⟨hmu'.trans hmu, ?_⟩
    rw [hprogress, (hK.txns t).finishing g hmu suffix_rfl]
    exact h
  · obtain ⟨hmu', hprogress, _, hstate, _⟩ := (hK.txns t).holding g (.inr hmu) suffix_rfl
    refine .inr ⟨hmu'.trans hmu, ?_⟩
    rw [hprogress, hstate]
    exact h

/-- One of the deferred assignments. -/
theorem leaveWrite_spec {u : TxnWrite} (hu : ∀ txn : Txn, ∀ h, (txn.ServedBy h ∨ txn.mu = some (.abort h)) →
      WriteAllowed h t txn u) (hsame : ∀ txn : Txn, (u.apply txn).mu = txn.mu ∧ (u.apply txn).progress = txn.progress ∧
      (u.apply txn).state = txn.state) : Spec g (Leaving g t) (act (.writeTxn t u)) fun _ => Leaving g t := by
  refine Triple.perform Leaving.stable (fun _ => Leaving.stable) fun w hw h => ⟨hu _ g ?_, ?_⟩
  · rcases h with ⟨hmu, _⟩ | ⟨hmu, _⟩
    · exact .inl ⟨g, ((hw.txn t).mu_finish g hmu).1, suffix_rfl⟩
    · exact .inr hmu
  · grind [World.updTxn_self, exec, Leaving]

theorem leave_spec : Spec g (Leaving g t) (leave t) fun _ _ => True := by
  refine (leaveWrite_spec (u := .twopc false) (fun _ _ h => h) fun _ => ⟨rfl, rfl, rfl⟩).bind fun _ => ?_
  refine (leaveWrite_spec (u := .isMultiStmtTxn false) (fun _ _ h => h) fun _ => ⟨rfl, rfl, rfl⟩).bind
    fun _ => ?_
  refine Triple.perform Leaving.stable (fun _ => .of_pure True) fun w hw h => ⟨?_, fun _ _ _ _ _ => trivial⟩
  exact .inr h

theorem mgrRemove_spec : Spec g (Sweep g t bs fun s => ∀ c, ¬ s.todo c) (act (.mgrRemove t)) fun _ => Leaving g t := by
  refine Triple.perform Sweep.stable (fun _ => Leaving.stable) ?_
  rintro w hw ⟨hclaims, hmatched⟩
  refine ⟨⟨hclaims.releasing, hclaims.added, ?_⟩, fun choice r w' hrun _ => ?_⟩
  · exact Or.imp id (fun ⟨s, hs, hm⟩ c hc => (hm.released c hc).2 (hs c)) hmatched
  · cases hrun
    have hself := World.updTxn_self w t Txn.remove
    rcases hclaims.inSection with hmu | ⟨hmu, _⟩
    · refine .inl ⟨?_, .inl ?_⟩
      · exact (congrArg Txn.mu hself).trans hmu
      · exact congrArg Txn.progress hself
    · refine .inr ⟨?_, .inl ?_⟩
      · exact (congrArg Txn.mu hself).trans hmu
      · exact congrArg Txn.progress hself

/-- At the end of a section that goes through. -/
theorem releaseLeave_spec (hrelease : Releases g t bs release) : Spec g (Sweep g t bs (SweepAll bs))
      (do releaseAll t release; act (.mgrRemove t); leave t) fun _ _ => True :=
  (releaseAll_spec hrelease).bind fun _ => mgrRemove_spec.bind fun _ => leave_spec

/-- The connections of a transaction that is not over are where its record says. -/
theorem Wf.matched (hw : Wf w) (hbs : (w.txns t).backends = bs) (hhand : Disturbed t w.log ∨ (w.txns t).inHand = [])
    (hend : Txn.ending (w.txns t).state = false) : Matched t (SweepAll bs) w := by
  by_cases hd : Disturbed t w.log
  · exact .inl hd
  · have hnil := hhand.resolve_left hd
    have hwf := hw.txn t
    refine .inr ⟨⟨_, _, _, (w.txns t).Places⟩, ⟨⟨?_, ?_, ?_, ?_, hwf.normal_nodup, hwf.replica_nodup⟩, ?_, ?_⟩,
      rfl, rfl, rfl, hnil, hw.unreleased t hd hend⟩
    · intro b b' c hb hb'
      have hpool := (hwf.twopc_pool b c hb).1
      rw [(hwf.twopc_pool b' c hb').1] at hpool
      exact (congrArg PoolRef.backend hpool).symm
    · exact hwf.twopc_normal
    · intro b c hb hmem
      have hpool := hwf.replica_pool c hmem
      rw [(hwf.twopc_pool b c hb).1] at hpool
      cases hpool
    · intro c hn hr
      have hpool := hwf.replica_pool c hr
      rw [hwf.normal_pool c hn] at hpool
      cases hpool
    · intro c
      refine or_iff_right ?_
      rintro ⟨h, hmem⟩
      rw [hnil] at hmem
      cases hmem
    · intro b hb
      obtain ⟨c, hc⟩ := Option.isSome_iff_exists.mp hb
      have hmem := (hwf.twopc_pool b c hc).2
      rw [hbs] at hmem
      exact hmem

/-- Marking the transaction as over. -/
theorem setEnding_spec {s : TxnState} {B : World → Prop} (hs : Txn.ending s = true) (hB : discipline.Stable g B)
    (hallow : ∀ w, Claims g t bs .entered w → B w → StateAllowed g t (w.txns t) w.log s) :
    Spec g (fun w => (Claims g t bs .entered w ∧ Matched t (SweepAll bs) w) ∧ B w) (act (.setState t s))
      fun _ => Sweep g t bs (SweepAll bs) := by
  have hstable : discipline.Stable g fun w => Claims g t bs .entered w ∧ Matched t (SweepAll bs) w :=
    fun w w' hw hK h => ⟨Claims.stable w w' hw hK h.1, h.2.keeps h.1.inSection hK⟩
  refine Triple.perform (hstable.and hB) (fun _ => Sweep.stable) ?_
  rintro w hw ⟨⟨hclaims, hmatched⟩, hb⟩
  refine ⟨hallow w hclaims hb, fun choice r w' hrun _ => ?_⟩
  cases hrun
  have hself := World.updTxn_self w t fun txn => txn.setState s
  refine ⟨⟨?_, ?_, ?_, ?_⟩, ?_⟩
  · have hmu := congrArg Txn.mu hself
    have haborts := congrArg Txn.aborts hself
    exact hclaims.inSection.imp (fun h => hmu.trans h) fun h => ⟨hmu.trans h.1, haborts ▸ h.2⟩
  · exact (congrArg Txn.progress hself).trans (if_pos hs)
  · exact (congrArg Txn.added hself).trans hclaims.added
  · exact (congrArg Txn.backends hself).trans hclaims.backends
  · rcases hmatched with hd | ⟨snap, hsnap, hm⟩
    · exact .inl (hd.mono (suffix_cons _ _))
    · refine .inr ⟨snap, hsnap, ?_, ?_, ?_, ?_, hm.released⟩
      · exact (congrArg Txn.twopcConnections hself).trans hm.twopc
      · exact (congrArg Txn.normalConnections hself).trans hm.normal
      · exact (congrArg Txn.replicaConnections hself).trans hm.replica
      · exact (congrArg Txn.inHand hself).trans hm.hand

/-- `Finish` has taken the mutex and looks at the state. -/
structure Finishing (g : Goroutine) (t : TxnId) (w : World) : Prop where
  mu : (w.txns t).mu = some (.finish g)
  progress : (w.txns t).progress = .entered
  state : (w.txns t).state ≠ .finshing
  added : (w.txns t).added = true
  hand : Disturbed t w.log ∨ (w.txns t).inHand = []

theorem Finishing.stable : discipline.Stable g (Finishing g t) := by
  intro w w' hw hK h
  have ht := hK.txns t
  obtain ⟨hmu, hprogress, _⟩ := ht.holding g (.inl h.mu) suffix_rfl
  refine ⟨hmu.trans h.mu, hprogress.trans h.progress, ?_, ht.added h.added, ?_⟩
  · rw [ht.finishing g h.mu suffix_rfl]
    exact h.state
  · rcases ht.still g (.inl h.mu) suffix_rfl with hd | ⟨_, _, _, hhand⟩
    · exact .inl hd
    · rw [hhand]
      exact h.hand.imp (fun hd => hd.mono hK.log) id

/-- The state stays what `Finish` has seen. -/
theorem Finishing.state_stable {s : TxnState} :
    discipline.Stable g fun w => Finishing g t w ∧ (w.txns t).state = s := by
  intro w w' hw hK h
  exact ⟨Finishing.stable w w' hw hK h.1, ((hK.txns t).finishing g h.1.mu suffix_rfl).trans h.2⟩

theorem lockMu_finish_spec : Spec g (InUse g t) (act (.lockMu t (.finish g))) fun _ => Finishing g t := by
  refine Triple.perform InUse.stable (fun _ => Finishing.stable) ?_
  rintro w hw ⟨v, howner, hstage, hhand, hresolved, hk⟩
  have hown : (w.txns t).owner = some g := hk.owner.trans (congrArg some howner)
  have hne : (w.txns t).stage ≠ .ended := by rw [hk.stage]; exact hstage
  refine ⟨⟨rfl, hown, hne, hresolved trivial⟩, fun choice r w' hrun _ => ?_⟩
  simp only [exec] at hrun
  split at hrun
  · cases hrun
    have hself := World.updTxn_self w t fun txn => txn.lock (.finish g)
    refine ⟨congrArg Txn.mu hself, congrArg Txn.progress hself, ?_, ?_, .inr ?_⟩
    · rw [hself]
      exact ((hw.txn t).not_finish hne).2
    · exact (congrArg Txn.added hself).trans hk.added
    · refine (congrArg Txn.inHand hself).trans (eq_nil_iff_forall_not_mem.mpr ?_)
      rintro ⟨c, k⟩ hmem
      obtain ⟨o, ho, hsuffix⟩ := (hw.txn t).hand_served c k hmem
      grind [Knows.empty_hand, Txn.lock]
  · cases hrun

theorem finish_spec : Spec g (InUse g t) (finish g t) fun _ _ => True := by
  refine lockMu_finish_spec.bind fun _ => ?_
  have hread : Spec g (Finishing g t) (act (.readTxn t))
      fun txn w => Finishing g t w ∧ (w.txns t).state = txn.state := by
    refine Triple.perform Finishing.stable (fun _ => Finishing.state_stable) fun w _ h => ⟨trivial, ?_⟩
    intro choice r w' hrun _
    cases hrun
    exact ⟨h, rfl⟩
  refine hread.bind fun txn => ?_
  split
  · rename_i hstate
    refine leave_spec.pre fun w _ h => .inl ⟨h.1.mu, .inr ⟨h.1.progress, h.2.trans hstate⟩⟩
  · rename_i hstate
    have hxa : Spec g (fun w => Finishing g t w ∧ (w.txns t).state = txn.state)
        (act (.writeTxn t (.xaState .none))) fun _ w => Finishing g t w ∧ (w.txns t).state = txn.state := by
      refine Triple.perform Finishing.state_stable (fun _ => Finishing.state_stable) fun w hw h => ⟨?_, ?_⟩
      · exact ⟨⟨g, ((hw.txn t).mu_finish g h.1.mu).1, suffix_rfl⟩, nofun⟩
      · intro choice r w' hrun _
        cases hrun
        have hself := World.updTxn_self w t (TxnWrite.xaState .none).apply
        refine ⟨⟨?_, ?_, ?_, ?_, ?_⟩, (congrArg Txn.state hself).trans h.2⟩
        · exact (congrArg Txn.mu hself).trans h.1.mu
        · exact (congrArg Txn.progress hself).trans h.1.progress
        · rw [hself]; exact h.1.state
        · exact (congrArg Txn.added hself).trans h.1.added
        · exact h.1.hand.imp id fun hhand => (congrArg Txn.inHand hself).trans hhand
    refine hxa.bind fun _ => ?_
    refine Triple.pre (A := fun w => ∃ bs, (Claims g t bs .entered w ∧ Matched t (SweepAll bs) w) ∧
      Finishing g t w ∧ (w.txns t).state = txn.state) (Triple.exists fun bs => ?_) fun w hw h => ?_
    · refine (setEnding_spec rfl Finishing.state_stable fun w _ h => .inr (.inl ?_)).bind
        fun _ => releaseLeave_spec finishConn_releases
      exact ⟨h.1.mu, h.1.progress, rfl, by rw [h.2]; exact hstate⟩
    · refine ⟨(w.txns t).backends, ⟨⟨.inl h.1.mu, h.1.progress, h.1.added, rfl⟩, ?_⟩, h⟩
      refine hw.matched rfl h.1.hand ?_
      grind [Txn.ending_iff, Finishing.state]

/-- `Abort` has taken the mutex. -/
structure Aborting (g : Goroutine) (t : TxnId) (w : World) : Prop where
  mu : (w.txns t).mu = some (.abort g)
  progress : (w.txns t).progress = .entered
  added : (w.txns t).added = true

theorem Aborting.stable : discipline.Stable g (Aborting g t) := by
  intro w w' hw hK h
  obtain ⟨hmu, hprogress, _⟩ := (hK.txns t).holding g (.inr h.mu) suffix_rfl
  exact ⟨hmu.trans h.mu, hprogress.trans h.progress, (hK.txns t).added h.added⟩

/-- `Abort` goes through: the transaction is not finished, and an earlier abort is on record. -/
structure AbortGoes (g : Goroutine) (t : TxnId) (w : World) : Prop where
  mu : (w.txns t).mu = some (.abort g)
  aborts : 0 < (w.txns t).aborts
  state : (w.txns t).state ≠ .finshing
  again : (w.txns t).state = .aborting → Event.abortSees t .aborting false ∈ w.log

theorem AbortGoes.stable : discipline.Stable g (AbortGoes g t) := by
  intro w w' hw hK h
  obtain ⟨hmu, _, haborts, hfin, habort⟩ := (hK.txns t).holding g (.inr h.mu) suffix_rfl
  refine ⟨hmu.trans h.mu, by rw [haborts]; exact h.aborts, fun hs => h.state (hfin.mp hs), fun hs => ?_⟩
  exact hK.log.mem (h.again (habort hs))

/-- A transaction that is registered. -/
def Added (t : TxnId) (w : World) : Prop := (w.txns t).added = true

theorem Added.stable : discipline.Stable g (Added t) := fun _ _ _ hK h => (hK.txns t).added h

theorem lockMu_abort_spec : Spec g (Added t) (act (.lockMu t (.abort g))) fun _ => Aborting g t := by
  refine Triple.perform Added.stable (fun _ => Aborting.stable) fun w hw h => ⟨⟨rfl, h⟩, ?_⟩
  intro choice r w' hrun _
  simp only [exec] at hrun
  split at hrun
  · cases hrun
    have hself := World.updTxn_self w t fun txn => txn.lock (.abort g)
    exact ⟨congrArg Txn.mu hself, congrArg Txn.progress hself, (congrArg Txn.added hself).trans h⟩
  · cases hrun

/-- What `Abort` finds when it looks at the state. -/
def AbortSees (g : Goroutine) (t : TxnId) (seen : TxnState) (w : World) : Prop :=
  (seen = .finshing ∧ Leaving g t w) ∨ (seen ≠ .finshing ∧ ∃ bs,
    (Claims g t bs .entered w ∧ Matched t (SweepAll bs) w) ∧ AbortGoes g t w)

theorem AbortSees.stable {seen : TxnState} : discipline.Stable g (AbortSees g t seen) := by
  rintro w w' hw hK (⟨hs, h⟩ | ⟨hs, bs, ⟨hc, hm⟩, h⟩)
  · exact .inl ⟨hs, Leaving.stable w w' hw hK h⟩
  · exact .inr ⟨hs, bs, ⟨Claims.stable w w' hw hK hc, hm.keeps hc.inSection hK⟩,
      AbortGoes.stable w w' hw hK h⟩

theorem abortCheck_spec : Spec g (Aborting g t) (act (.abortCheck t)) (AbortSees g t) := by
  refine Triple.perform Aborting.stable (fun _ => AbortSees.stable) fun w hw h => ⟨⟨h.mu, h.progress⟩, ?_⟩
  intro choice r w' hrun hw'
  cases hrun
  have hself := World.updTxn_self w t Txn.abortCheck
  have hmu := (congrArg Txn.mu hself).trans h.mu
  have hprogress := (congrArg Txn.progress hself).trans h.progress
  have hstate := congrArg Txn.state hself
  have hback : ((w.updTxn t Txn.abortCheck).txns t).backends = (w.txns t).backends := by rw [hself]; rfl
  by_cases hs : (w.txns t).state = .finshing
  · exact .inl ⟨hs, .inr ⟨hmu, .inr ⟨hprogress, hstate.trans hs⟩⟩⟩
  · have haborts : (w.txns t).abortCheck.aborts = (w.txns t).aborts + 1 := if_neg hs
    have haborts' := (congrArg Txn.aborts hself).trans haborts
    have hpos : 0 < ((w.updTxn t Txn.abortCheck).txns t).aborts := by rw [haborts']; exact Nat.succ_pos _
    have hevent : Event.abortSees t (w.txns t).state (w.txns t).clean ∈
        Event.abortSees t (w.txns t).state (w.txns t).clean :: w.log := mem_cons_self
    have hclean : (w.txns t).clean = true ∨ Disturbed t (Event.abortSees t (w.txns t).state
        (w.txns t).clean :: w.log) := by
      cases hc : (w.txns t).clean with
      | true => exact .inl rfl
      | false => exact .inr (.inr (.inl ⟨_, hs, mem_cons_self⟩))
    refine .inr ⟨hs, (w.txns t).backends, ⟨⟨.inr ⟨hmu, hpos⟩, hprogress, ?_, ?_⟩, ?_⟩, hmu, hpos, ?_, ?_⟩
    · exact (congrArg Txn.added hself).trans h.added
    · exact hback
    · rcases hclean with hclean | hd
      · unfold Txn.clean at hclean
        obtain ⟨hnil, hzero⟩ := Bool.and_eq_true_iff.mp hclean
        refine hw'.matched hback
          (.inr ((congrArg Txn.inHand hself).trans (isEmpty_iff.mp hnil))) ?_
        refine Bool.eq_false_iff.mpr fun hend => ?_
        rcases Txn.ending_iff.mp hend with hs' | hs'
        · exact hs (hstate.symm.trans hs')
        · have := (hw.txn t).aborting (hstate.symm.trans hs')
          rw [eq_of_beq hzero] at this
          exact Nat.lt_irrefl _ this
      · exact .inl hd
    · exact fun hs' => hs (hstate.symm.trans hs')
    · intro hs'
      have hab : (w.txns t).state = .aborting := hstate.symm.trans hs'
      have hdirty : (w.txns t).clean = false := by
        unfold Txn.clean
        refine Bool.and_eq_false_iff.mpr (.inr (beq_eq_false_iff_ne.mpr ?_))
        exact Nat.ne_of_gt ((hw.txn t).aborting hab)
      grind [World.emit]

theorem abort_spec : Spec g (Added t) (abort g t) fun _ _ => True := by
  refine lockMu_abort_spec.bind fun _ => abortCheck_spec.bind fun seen => ?_
  split
  · rename_i hs
    refine leave_spec.pre fun w _ h => ?_
    rcases h with h | h
    · exact h.2
    · exact absurd hs h.1
  · rename_i hs
    refine Triple.pre (A := fun w => ∃ bs, (Claims g t bs .entered w ∧ Matched t (SweepAll bs) w) ∧
      AbortGoes g t w) (Triple.exists fun bs => ?_) fun w _ h => ?_
    · refine (setEnding_spec rfl AbortGoes.stable fun w hc h => .inr (.inr ?_)).bind
        fun _ => releaseLeave_spec kill_releases
      exact ⟨h.mu, hc.progress, rfl, h.state, h.aborts, h.again⟩
    · rcases h with h | h
      · exact absurd h.1 hs
      · exact h.2

end Radon
