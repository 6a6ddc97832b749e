import Radon.Backend.Footprint
import Radon.Backend.ReleaseSpec
import Radon.Backend.XaCheck

/-!
# The retry loop follows the discipline

The loop sends a decision only for an entry of the retry log, so that the decision has been taken
before. Every transaction it creates is used by the loop alone and finished.
-/

namespace Radon

open Concurrency Protocol List

variable {g : Goroutine} {t : TxnId} {v : View}

/-- A transaction that its owner has just created. -/
def Created (g : Goroutine) (t : TxnId) (w : World) : Prop :=
  ∃ bs, Knows g t { owner := g, backends := bs } w

theorem Created.stable : discipline.Stable g (Created g t) := .ex fun _ => Knows.stable

/-- A transaction that the manager does not count yet. -/
structure Newborn (g : Goroutine) (t : TxnId) (w : World) : Prop where
  owner : (w.txns t).owner = some g
  stage : (w.txns t).stage = .opened
  xid : (w.txns t).xid = none
  parts : (w.txns t).parts = []
  voted : (w.txns t).voted = []
  req : (w.txns t).req = none
  added : (w.txns t).added = false
  hand : ∀ c k, g <:+ k → (c, k) ∉ (w.txns t).inHand

theorem Newborn.stable : discipline.Stable g (Newborn g t) := by
  intro w w' _ hK h
  have ht := hK.txns t
  obtain ⟨hstage, hxid, hparts⟩ := ht.owned g h.owner (.inl suffix_rfl)
  refine ⟨(ht.born g h.owner).1, hstage.trans h.stage, hxid.trans h.xid, hparts.trans h.parts,
    (ht.voted g h.owner (.inl suffix_rfl)).trans h.voted, (ht.req g h.owner suffix_rfl).trans h.req,
    (ht.registered g h.owner (.inl suffix_rfl)).trans h.added, fun c k hk hmem => ?_⟩
  exact h.hand c k hk ((ht.hand c k hk).mp hmem)

/-- The new transaction differs from all others. `J` is what else the goroutine knows; it holds with
the new transaction set apart. -/
theorem createTransaction_spec {A : World → Prop} {J : TxnId → World → Prop}
    (hA : discipline.Stable g A) (hJ : ∀ t, discipline.Stable g (J t))
    (hnew : ∀ w w', Wf w → A w → w'.sessions = w.sessions →
      (∀ t, t ≤ w.txnid → (w'.txns t).core = (w.txns t).core) → J (w.txnid + 1) w')
    (hon : ∀ t w w', w'.sessions = w.sessions → (∀ t', t' ≠ t → (w'.txns t').core = (w.txns t').core) →
      J t w → J t w') :
    Spec g A (createTransaction g) fun r w =>
      match r with
      | .error _ => A w
      | .ok t => J t w ∧ Created g t w := by
  have hback : Spec g A (act .scatterBackends) fun _ => A := by
    refine Triple.perform hA (fun _ => hA) fun w _ hw => ⟨trivial, fun choice r w' hrun _ => ?_⟩
    cases hrun
    exact hw
  refine hback.bind fun bs => ?_
  split
  · exact .ret hA fun _ _ h => h
  have hcreate : Spec g A (act (.newTxn g bs)) fun t w => J t w ∧ Newborn g t w := by
    refine Triple.perform hA (fun t => (hJ t).and Newborn.stable) fun w hw hAw => ⟨rfl, ?_⟩
    intro choice r w' hrun _
    cases hrun
    refine ⟨hnew w _ hw hAw rfl fun t ht => ?_, ?_⟩
    · exact core_other rfl (Nat.ne_of_lt (Nat.lt_succ_of_le ht))
    · have hself := World.updTxn_self w (w.txnid + 1) fun _ => { backends := bs, owner := some g }
      constructor
      · exact congrArg Txn.owner hself
      · exact congrArg Txn.stage hself
      · exact congrArg Txn.xid hself
      · exact congrArg Txn.parts hself
      · exact congrArg Txn.voted hself
      · exact congrArg Txn.req hself
      · exact congrArg Txn.added hself
      · simp
  refine hcreate.bind fun t => ?_
  have hadd : Spec g (fun w => J t w ∧ Newborn g t w) (act (.mgrAdd t)) fun _ w => J t w ∧ Created g t w := by
    refine Triple.perform ((hJ t).and Newborn.stable) (fun _ => (hJ t).and Created.stable) fun w _ h => ?_
    refine ⟨⟨h.2.owner, h.2.added⟩, fun choice r w' hrun _ => ?_⟩
    obtain ⟨hsessions, hcore⟩ := on_step (t := t) (o := .mgrAdd t) rfl hrun
    refine ⟨hon t w w' hsessions hcore h.1, ?_⟩
    cases hrun
    have hself := World.updTxn_self w t fun txn => { txn with added := true }
    refine ⟨(w.txns t).backends, ⟨?_, suffix_rfl, ?_, ?_, ?_, ?_, ?_, ?_, fun _ => ?_,
      nil_suffix, nofun, nofun⟩, fun c k hk => ⟨fun hmem => ?_, fun h => nomatch h.2⟩⟩
    · exact (congrArg Txn.owner hself).trans h.2.owner
    · exact (congrArg Txn.backends hself :)
    · exact (congrArg Txn.stage hself).trans h.2.stage
    · exact (congrArg Txn.xid hself).trans h.2.xid
    · exact (congrArg Txn.parts hself).trans h.2.parts
    · exact (congrArg Txn.voted hself).trans h.2.voted
    · exact congrArg Txn.added hself
    · exact (congrArg Txn.req hself).trans h.2.req
    · grind [Newborn.hand]
  exact hadd.bind fun _ => .ret ((hJ t).and Created.stable) fun _ _ h => h

/-- A request that is no write, after others of its kind. -/
theorem reads_spec {req : RequestContext} (hplan : v.PlannedBy g) (hstage : v.stage ≠ .ended)
    (hhand : v.hand = none) (hcall : v.call = none) (hq : Sendable v req) (hmode : req.txnMode ≠ .txnWrite) :
    Spec g (KnowsRead g t v) (txnExecute g t req) fun _ => KnowsRead g t v := by
  refine Triple.exists fun r => Triple.assume fun hr => ?_
  refine (txnExecute_read_spec (v := { v with req := r }) hstage hhand hcall hplan
    (hq.of_eq rfl rfl rfl rfl rfl) hmode).post fun _ w _ h => h.bind hr

/-- A decision of the retry log may be sent again. -/
theorem maySend_logged {d : Decision} {x : Xid} (hlogged : Event.logged x d ∈ v.past) (b : Backend) :
    MaySend v b (d.query x) := by
  cases d with
  | commit => exact .inr hlogged
  | rollback => exact .inr hlogged

/-- An operation on the retry log, which is no part of what a goroutine knows of a transaction. -/
theorem retryLog_spec {o : Op} (hq : o.Quiet) (hallow : ∀ w, Allowed g o w) :
    Spec g (KnowsRead g t v) (act o) fun _ => KnowsRead g t v := by
  refine Triple.exists fun r => Triple.assume fun hr => ?_
  grind [Triple.post, quiet_unit, KnowsRead]

variable {retry : XaCommitErr} {retrys : List XaCommitErr}

section Entry

variable (howner : v.owner = g) (hstage : v.stage ≠ .ended) (hhand : v.hand = none) (hcall : v.call = none)

include howner hstage hhand hcall

theorem onThisBackend_spec {b : Backend} {q : Query} (hq : MaySend v b q) :
    Spec g (KnowsRead g t v) (txnExecuteOnThisBackend g t b q) fun _ => KnowsRead g t v := by
  refine reads_spec (howner ▸ v.plannedBy_self) hstage hhand hcall ⟨fun _ => trivial, fun qt hqt => ?_⟩ nofun
  rw [mem_singleton.mp hqt]
  exact hq

theorem recoverBackends_spec (x : Xid) (bs : List Backend) :
    Spec g (KnowsRead g t v) (recoverBackends g t x bs) fun _ => KnowsRead g t v := by
  induction bs with
  | nil => exact .ret KnowsRead.stable fun _ _ h => h
  | cons b bs ih =>
    refine (onThisBackend_spec (q := .xaRecover) howner hstage hhand hcall trivial).bind fun r => ?_
    cases r with
    | error e => exact .ret KnowsRead.stable fun _ _ h => h
    | ok result =>
      refine ih.bind fun r => ?_
      cases r with
      | error e => exact .ret KnowsRead.stable fun _ _ h => h
      | ok need => exact .ret KnowsRead.stable fun _ _ h => h

theorem resendDecision_spec {d : Decision} {x : Xid} (hlogged : Event.logged x d ∈ v.past) (bs : List Backend)
    : Spec g (KnowsRead g t v) (resendDecision g t (d.query x) bs) fun _ => KnowsRead g t v := by
  induction bs with
  | nil => exact .ret KnowsRead.stable fun _ _ h => h
  | cons b bs ih =>
    refine (onThisBackend_spec howner hstage hhand hcall (maySend_logged hlogged b)).bind fun r => ?_
    exact ih.bind fun count => .ret KnowsRead.stable fun _ _ h => h

theorem retryEntry_spec (hlogged : Event.logged retry.xaid retry.state ∈ v.past) (bs : List Backend) :
    Spec g (KnowsRead g t v) (retryEntry g t retry bs) fun _ => KnowsRead g t v := by
  refine (recoverBackends_spec howner hstage hhand hcall _ _).bind fun r => ?_
  cases r with
  | error e => exact .ret KnowsRead.stable fun _ _ h => h
  | ok need =>
    refine (resendDecision_spec howner hstage hhand hcall hlogged need).bind fun count => ?_
    split
    · exact .ret KnowsRead.stable fun _ _ h => h
    · split
      · refine (retryLog_spec (o := .xcTimedOut _) trivial fun _ => trivial).bind fun _ => ?_
        exact .ret KnowsRead.stable fun _ _ h => h
      · refine (retryLog_spec (o := .xcDecTimes _) trivial fun _ => trivial).bind fun _ => ?_
        exact .ret KnowsRead.stable fun _ _ h => h

end Entry

/-- The entries are on record in the log. -/
def OnRecord (retrys : List XaCommitErr) (w : World) : Prop :=
  ∀ e ∈ retrys, Event.logged e.xaid e.state ∈ w.log

theorem OnRecord.stable : discipline.Stable g (OnRecord retrys) :=
  fun _ _ _ hK h e he => hK.log.mem (h e he)

/-- The log never loses an entry. -/
theorem frame_onRecord {α : Type} {p : Go α} {A : World → Prop} {Q : α → World → Prop} (retrys : List XaCommitErr)
    (h : Spec g A p Q) : Spec g (fun w => A w ∧ OnRecord retrys w) p fun r w => Q r w ∧ OnRecord retrys w := by
  refine h.frame_moves OnRecord.stable fun w w' hm hrec e he => ?_
  obtain ⟨hw, k, o, c, r, _, hallow, hrun⟩ := hm
  exact (guar_step hw hallow hrun).log.mem (hrec e he)

/-- An operation that is always allowed. -/
theorem record_spec {o : Op} (hallow : ∀ w, Allowed g o w) :
    Spec g (OnRecord retrys) (act o) fun _ => OnRecord retrys := by
  refine (frame_onRecord (A := fun _ => True) (Q := fun _ _ => True) retrys ?_).conseq
    (fun w _ h => ⟨trivial, h⟩) fun _ w _ h => h.2
  exact Triple.perform (.of_pure True) (fun _ => .of_pure True) fun w _ _ =>
    ⟨hallow w, fun _ _ _ _ _ => trivial⟩

/-- An entry is retried in a transaction of its own. -/
theorem retryTransaction_spec (hmem : retry ∈ retrys)
    (bs : List Backend) : Spec g (fun w => Created g t w ∧ OnRecord retrys w)
      (do let r ← retryEntry g t retry bs; finish g t; return r) fun _ _ => True := by
  refine Triple.pre (A := fun w => ∃ backends, OnRecord retrys w ∧
    Knows g t { owner := g, backends := backends } w) (Triple.exists fun backends => ?_) ?_
  · refine spec_of_log (P := fun log => ∀ e ∈ retrys, Event.logged e.xaid e.state ∈ log)
      fun past _ hlogged => ?_
    refine ((retryEntry_spec (v := { owner := g, backends := backends, past := past }) rfl nofun rfl rfl
      (hlogged retry hmem) bs).pre fun w _ hk => hk.read).bind fun r => ?_
    refine (finish_spec.pre fun w _ h => ?_).bind fun _ => .ret (.of_pure True) fun _ _ _ => trivial
    obtain ⟨req, _, hk⟩ := h
    exact hk.inUse rfl nofun rfl rfl
  · grind [Created]

theorem commitRetryBackends_spec (hmem : retry ∈ retrys) :
    Spec g (OnRecord retrys) (commitRetryBackends g retry) fun _ => OnRecord retrys := by
  refine (record_spec (o := .scatterBackends) fun _ => trivial).bind fun bs => ?_
  split
  · exact .ret OnRecord.stable fun _ _ h => h
  have hcreate := createTransaction_spec (g := g) (A := fun _ => True) (J := fun _ _ => True)
    (.of_pure True) (fun _ => .of_pure True) (fun _ _ _ _ _ _ => trivial) fun _ _ _ _ _ _ => trivial
  refine ((frame_onRecord retrys hcreate).pre fun w _ h => ⟨trivial, h⟩).bind fun r => ?_
  cases r with
  | error e => exact .ret ((Stable.of_pure _).and OnRecord.stable) fun _ _ h => h.2
  | ok t =>
    exact (frame_onRecord retrys (retryTransaction_spec hmem bs.names)).conseq
      (fun w _ h => ⟨⟨h.1.2, h.2⟩, h.2⟩) fun _ w _ h => h.2

theorem xaCommitsRetryMain_spec {all : List XaCommitErr} (n : ℕ) (hsub : ∀ e ∈ retrys, e ∈ all) :
    Spec g (OnRecord all) (xaCommitsRetryMain g n retrys) fun _ => OnRecord all := by
  induction n generalizing retrys with
  | zero => exact .ret OnRecord.stable fun _ _ h => h
  | succ n ih =>
    refine (record_spec (o := .choose) fun _ => trivial).bind fun pick => ?_
    have hrest : ∀ e ∈ retrys.eraseIdx (pick % retrys.length), e ∈ all := fun e he =>
      hsub e (mem_of_mem_eraseIdx he)
    split
    · exact .ret OnRecord.stable fun _ _ h => h
    · rename_i retry hretry
      refine (commitRetryBackends_spec (hsub retry (mem_of_getElem? hretry))).bind fun r => ?_
      match r with
      | .error e => exact .ret OnRecord.stable fun _ _ h => h
      | .ok false => exact ih hrest
      | .ok true => exact (record_spec (o := .xcDelete _) fun _ => trivial).bind fun _ => ih hrest

theorem xaCommitsRetry_spec : Spec g (fun _ => True) (xaCommitsRetry g) fun _ _ => True := by
  have hfree : ∀ {o : Op}, (∀ w, Allowed g o w) → Spec g (fun _ => True) (act o) fun _ _ => True :=
    fun hallow => Triple.perform (.of_pure True) (fun _ => .of_pure True) fun w _ _ =>
      ⟨hallow w, fun _ _ _ _ _ => trivial⟩
  refine (hfree (o := .xcLock) fun _ => trivial).bind fun _ => ?_
  have hread : Spec g (fun _ => True) (act .xcRetrys) fun retrys => OnRecord retrys := by
    refine Triple.perform (.of_pure True) (fun _ => OnRecord.stable) fun w _ _ => ⟨trivial, ?_⟩
    intro choice r w' hrun hw'
    cases hrun
    exact hw'.retrys
  refine hread.bind fun retrys => ?_
  refine ((xaCommitsRetryMain_spec _ fun _ h => h).post fun _ _ _ _ => trivial).bind fun err => ?_
  exact (hfree (o := .xcUnlock) fun _ => trivial).bind fun _ => .ret (.of_pure True) fun _ _ _ => trivial

theorem xaCommitCheck_spec (ticks : ℕ) : Spec g (fun _ => True) (xaCommitCheck g ticks) fun _ _ => True := by
  induction ticks with
  | zero => exact .ret (.of_pure True) fun _ _ _ => trivial
  | succ n ih => exact xaCommitsRetry_spec.bind fun _ => ih

end Radon
