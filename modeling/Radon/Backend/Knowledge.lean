import Radon.Backend.Interference
import Radon.Backend.Txn

/-!
# What a goroutine knows about the transaction it works on

A `View` is a goroutine's picture of a transaction: the fields that only the owner's goroutines
change, a part of the log, the locks taken and the connection in hand. The picture stays true while
unrelated goroutines run, so the calls of a transaction are specified by how they change it.
-/

namespace Radon

open Concurrency Protocol List

/-- The fields of a transaction that only its owner's goroutines change. -/
structure Core where
  owner : Option Goroutine
  stage : Stage
  xid : Option Xid
  parts : List Backend
  voted : List Backend
  backends : Backends
  added : Bool
  req : Option RequestContext
  inHand : List (Conn × Goroutine)

/-- The core of a record. -/
def Txn.core (txn : Txn) : Core :=
  ⟨txn.owner, txn.stage, txn.xid, txn.parts, txn.voted, txn.backends, txn.added, txn.req, txn.inHand⟩

/-- The assignments that leave the core alone. -/
def TxnWrite.Quiet : TxnWrite → Prop
  | .xid _ _ => False
  | .req _ => False
  | .xaState s => s ≠ .prepare
  | _ => True

/-- The operations that leave every core, the sessions and the commit lock alone. -/
def Op.Quiet : Op → Prop
  | .newTxn _ _ => False
  | .mgrAdd _ => False
  | .commitLock _ _ => False
  | .commitUnlock _ => False
  | .commitRLock _ => False
  | .commitRUnlock _ => False
  | .writeTxn _ u => u.Quiet
  | .lockMu _ (.finish _) => False
  | .twopcPut _ _ _ _ => False
  | .appendNormal _ _ _ => False
  | .appendReplica _ _ _ => False
  | .poolGet _ _ _ => False
  | .writeSession _ _ => False
  | .addSession _ => False
  | .removeSession _ => False
  | _ => True

variable {w : World} {o : Op} {c : Conn} {α : Type} {Q : α → World → Prop}

theorem core_update {w' : World} {t : TxnId} {txn' : Txn} (htxns : w'.txns = Function.update w.txns t txn')
    (hcore : txn'.core = (w.txns t).core) (t' : TxnId) : (w'.txns t').core = (w.txns t').core := by
  rw [htxns]
  grind

/-- A quiet operation leaves the cores, the sessions and the commit lock alone. -/
theorem quiet_step {choice : Choice} {w' : World} {r : o.Res} (hq : o.Quiet) (hrun : exec o choice w = some (r, w'))
    : (∀ t, (w'.txns t).core = (w.txns t).core) ∧ w'.sessions = w.sessions ∧ w'.commitLock = w.commitLock := by
  cases exec_outcome hrun with
  | mgrRemove | setState | abortCheck | twopcDrop | twopcDelete => exact ⟨core_update rfl rfl, rfl, rfl⟩
  | writeTxn t u =>
    refine ⟨core_update rfl ?_, rfl, rfl⟩
    cases u with
    | xid x parts => exact hq.elim
    | req r => exact hq.elim
    | xaState s =>
      have hvoted : (TxnWrite.apply (.xaState s) (w.txns t)).voted = (w.txns t).voted := if_neg hq
      rw [Txn.core, hvoted]
      rfl
    | _ => rfl
  | lockMu t who =>
    refine ⟨core_update rfl ?_, rfl, rfl⟩
    cases who with
    | finish k => exact hq.elim
    | _ => rfl
  | unlockMu t =>
    refine ⟨core_update rfl ?_, rfl, rfl⟩
    unfold Txn.unlock
    split <;> rfl
  | query call c q h => grind [World.runQuery_spec]
  | newTxn | mgrAdd | commitLock | commitUnlock | commitRLock | commitRUnlock | twopcPut | appendNormal
  | appendReplica | poolGet | writeSession | addSession | removeSession => exact hq.elim
  | _ => exact ⟨fun _ => rfl, rfl, rfl⟩

/-- A goroutine's picture of a transaction. The request is only part of it for the owner. -/
structure View where
  owner : Goroutine
  backends : Backends
  stage : Stage := .opened
  xid : Option Xid := none
  parts : List Backend := []
  voted : List Backend := []
  req : Option RequestContext := none
  past : List Event := []
  locked : Bool := false
  call : Option Call := none
  hand : Option Conn := none

/-- The picture is right, apart from the connections in hand. -/
structure KnowsCore (g : Goroutine) (t : TxnId) (v : View) (w : World) : Prop where
  owner : (w.txns t).owner = some v.owner
  below : v.owner <:+ g
  backends : (w.txns t).backends = v.backends
  stage : (w.txns t).stage = v.stage
  xid : (w.txns t).xid = v.xid
  parts : (w.txns t).parts = v.parts
  voted : (w.txns t).voted = v.voted
  added : (w.txns t).added = true
  req : v.owner = g → (w.txns t).req = v.req
  past : v.past <:+ w.log
  locked : v.locked = true → w.commitLock.writer = some t
  call : ∀ r, v.call = some r → r ∈ w.commitLock.readers ∧ r.go <:+ g

/-- The picture is right. -/
structure Knows (g : Goroutine) (t : TxnId) (v : View) (w : World) : Prop extends KnowsCore g t v w where
  hand : ∀ c k, g <:+ k → ((c, k) ∈ (w.txns t).inHand ↔ k = g ∧ v.hand = some c)

/-- The connection was handed to the transaction. -/
def Holds (t : TxnId) (c : Conn) (w : World) : Prop := (w.conn c).holder = some t

section Knowing

variable {g : Goroutine} {t : TxnId} {v : View} {w w' : World}

theorem KnowsCore.stable : discipline.Stable g (KnowsCore g t v) := by
  intro w w' _ hK h
  have ht := hK.txns t
  obtain ⟨howner, hback⟩ := ht.born _ h.owner
  obtain ⟨hstage, hxid, hparts⟩ := ht.owned _ h.owner (.inl h.below)
  refine ⟨howner, h.below, hback.trans h.backends, hstage.trans h.stage, hxid.trans h.xid,
    hparts.trans h.parts, (ht.voted _ h.owner (.inl h.below)).trans h.voted, ht.added h.added,
    fun ho => ?_, h.past.trans hK.log, fun hl => ?_, fun r hr => ?_⟩
  · exact (ht.req _ h.owner (ho ▸ suffix_rfl)).trans (h.req ho)
  · exact hK.writer t _ (h.locked hl) h.owner (.inl h.below)
  · obtain ⟨hmem, hgo⟩ := h.call r hr
    exact ⟨hK.readers r hmem (.inl hgo), hgo⟩

theorem Knows.stable : discipline.Stable g (Knows g t v) := by
  intro w w' hwf hK h
  refine ⟨KnowsCore.stable w w' hwf hK h.toKnowsCore, fun c k hk => ?_⟩
  exact ((hK.txns t).hand c k hk).trans (h.hand c k hk)

theorem Holds.stable : discipline.Stable g (Holds t c) :=
  fun _ _ _ hK h => hK.holder c t h

/-- A fact about the log that stays true when the log grows. -/
def Grows (P : List Event → Prop) : Prop := ∀ log log', log <:+ log' → P log → P log'

theorem Grows.stable {P : List Event → Prop} (hP : Grows P) : discipline.Stable g fun w => P w.log :=
  fun _ _ _ hK h => hP _ _ hK.log h

theorem grows_acked (q : Query) (b : Backend) : Grows (Acked q b) := by
  rintro log log' hlog ⟨call, rep, i, applied, hmem⟩
  exact ⟨call, rep, i, applied, hlog.mem hmem⟩

theorem grows_ackedBy (q : Query) (p : PoolRef) : Grows (AckedBy q p) := by
  rintro log log' hlog ⟨call, i, applied, hmem⟩
  exact ⟨call, i, applied, hlog.mem hmem⟩

/-- The picture does not depend on more than the core, the log and the commit lock. -/
theorem KnowsCore.of_core {hand : List (Conn × Goroutine)} (h : KnowsCore g t v w)
    (hcore : (w'.txns t).core = { (w.txns t).core with inHand := hand })
    (hlog : w.log <:+ w'.log) (hlock : w'.commitLock = w.commitLock) : KnowsCore g t v w' where
  owner := (congrArg Core.owner hcore).trans h.owner
  below := h.below
  backends := (congrArg Core.backends hcore).trans h.backends
  stage := (congrArg Core.stage hcore).trans h.stage
  xid := (congrArg Core.xid hcore).trans h.xid
  parts := (congrArg Core.parts hcore).trans h.parts
  voted := (congrArg Core.voted hcore).trans h.voted
  added := (congrArg Core.added hcore).trans h.added
  req ho := (congrArg Core.req hcore).trans (h.req ho)
  past := h.past.trans hlog
  locked := by rw [hlock]; exact h.locked
  call := by rw [hlock]; exact h.call

/-- A change of the connections in hand. -/
theorem Knows.of_hand (hand : List (Conn × Goroutine)) {o : Option Conn} (h : Knows g t v w)
    (hcore : (w'.txns t).core = { (w.txns t).core with inHand := hand }) (hlog : w.log <:+ w'.log)
    (hlock : w'.commitLock = w.commitLock) (hhand : ∀ c k, g <:+ k → ((c, k) ∈ hand ↔ k = g ∧ o = some c)) :
    Knows g t { v with hand := o } w' := by
  have hcore' := h.toKnowsCore.of_core hcore hlog hlock
  refine ⟨{ hcore' with }, fun c k hk => ?_⟩
  grind [Txn.core]

theorem Knows.of_core (h : Knows g t v w) (hcore : (w'.txns t).core = (w.txns t).core)
    (hlog : w.log <:+ w'.log) (hlock : w'.commitLock = w.commitLock) : Knows g t v w' :=
  h.of_hand (w.txns t).inHand hcore hlog hlock h.hand

/-- An assignment to the transaction. -/
theorem Knows.write (h : Knows g t v w) (u : TxnWrite) {xid : Option Xid} {parts voted : List Backend}
    {req : Option RequestContext} (hxid : (u.apply (w.txns t)).xid = xid) (hparts : (u.apply (w.txns t)).parts = parts)
    (hvoted : (u.apply (w.txns t)).voted = voted) (hreq : v.owner = g → (u.apply (w.txns t)).req = req) :
    Knows g t { v with xid := xid, parts := parts, voted := voted, req := req } (w.updTxn t u.apply) := by
  have hself := World.updTxn_self w t u.apply
  refine ⟨⟨?_, h.below, ?_, ?_, ?_, ?_, ?_, ?_, ?_, h.past, h.locked, h.call⟩, ?_⟩
  all_goals rw [hself]
  · cases u <;> exact h.owner
  · cases u <;> exact h.backends
  · cases u <;> exact h.stage
  · exact hxid
  · exact hparts
  · exact hvoted
  · cases u <;> exact h.added
  · exact hreq
  · cases u <;> exact h.hand

theorem KnowsCore.served (h : KnowsCore g t v w) : (w.txns t).ServedBy g := ⟨v.owner, h.owner, h.below⟩

/-- Everything logged so far may be added to the picture. -/
theorem Knows.refresh (h : Knows g t v w) : Knows g t { v with past := w.log } w :=
  { h with past := suffix_rfl }

/-- A picture of an earlier log. -/
theorem Knows.forget {past : List Event} (h : Knows g t { v with past := past } w)
    (hpast : v.past <:+ past) : Knows g t v w :=
  { h with past := hpast.trans h.past }

/-- A goroutine that is forked knows what its parent knows. -/
theorem Knows.child (h : Knows g t v w) (hhand : v.hand = none) (f : Fork) : Knows (f :: g) t v w := by
  have hsuffix : g <:+ f :: g := suffix_cons f g
  refine ⟨{ h.toKnowsCore with
    below := h.below.trans hsuffix
    req := fun ho => ?_
    call := fun r hr => ⟨(h.call r hr).1, (h.call r hr).2.trans hsuffix⟩ }, fun c k hk => ?_⟩
  · have hle := h.below.length_le
    rw [ho] at hle
    exact absurd hle (Nat.not_succ_le_self _)
  · rw [h.hand c k (hsuffix.trans hk), hhand]
    simp

end Knowing

/-- The program follows the discipline, from the precondition to the postcondition. -/
abbrev Spec {α : Type} (g : Goroutine) (A : World → Prop) (p : Go α) (Q : α → World → Prop) : Prop :=
  discipline.Triple g A p Q

section Operations

variable {g : Goroutine} {t : TxnId} {v : View}

/-- A quiet operation: it is allowed, and what its reply says. -/
theorem quiet_spec {B : World → Prop} {Φ : o.Res → World → Prop} (hq : o.Quiet) (hB : discipline.Stable g B)
    (hΦ : ∀ r, discipline.Stable g (Φ r)) (h : ∀ w, Wf w → Knows g t v w → B w → Allowed g o w ∧
      ∀ c r w', exec o c w = some (r, w') → Wf w' → Knows g t v w' → Φ r w') :
    Spec g (fun w => Knows g t v w ∧ B w) (act o) fun r w => Φ r w ∧ Knows g t v w := by
  refine Triple.perform (Knows.stable.and hB) (fun r => (hΦ r).and Knows.stable) fun w hw hA => ?_
  obtain ⟨hallow, hpost⟩ := h w hw hA.1 hA.2
  refine ⟨hallow, fun c r w' hrun hw' => ?_⟩
  obtain ⟨hcore, _, hlock⟩ := quiet_step hq hrun
  have hknow := hA.1.of_core (hcore t) (guar_step hw hallow hrun).log hlock
  exact ⟨hpost c r w' hrun hw' hknow, hknow⟩

/-- A quiet operation of which only the reply is looked at. -/
theorem quiet_spec' (fact : o.Res → Prop) (hq : o.Quiet) (h : ∀ w, Wf w → Knows g t v w → Allowed g o w ∧
      ∀ c r w', exec o c w = some (r, w') → fact r) :
    Spec g (Knows g t v) (act o) fun r w => fact r ∧ Knows g t v w := by
  refine (quiet_spec (B := fun _ => True) (Φ := fun r _ => fact r) hq (.of_pure True)
    (fun r => .of_pure (fact r)) fun w hw hk _ => ?_).pre fun w _ hk => ⟨hk, trivial⟩
  grind

/-- A quiet operation without a reply. -/
theorem quiet_unit (hq : o.Quiet) (h : ∀ w, Wf w → Knows g t v w → Allowed g o w) :
    Spec g (Knows g t v) (act o) fun _ => Knows g t v :=
  (quiet_spec' (fun _ => True) hq fun w hw hk => ⟨h w hw hk, fun _ _ _ _ => trivial⟩).post
    fun _ _ _ h => h.2

/-- What the owner's goroutines see of a record. -/
def Sees (g : Goroutine) (v : View) (txn : Txn) : Prop :=
  txn.backends = v.backends ∧ txn.xid = v.xid ∧ (v.owner = g → txn.req = v.req)

theorem readTxn_spec : Spec g (Knows g t v) (act (.readTxn t)) fun txn w => Sees g v txn ∧ Knows g t v w := by
  refine quiet_spec' _ trivial fun w _ hk => ⟨trivial, fun c r w' hrun => ?_⟩
  cases hrun
  exact ⟨hk.backends, hk.xid, hk.req⟩

theorem writeTxn_spec {u : TxnWrite} (hu : u.Quiet) :
    Spec g (Knows g t v) (act (.writeTxn t u)) fun _ => Knows g t v := by
  refine quiet_unit (o := .writeTxn t u) hu fun w _ hk => ?_
  cases u with
  | xid x parts => exact hu.elim
  | req r => exact hu.elim
  | twopc b => exact .inl hk.served
  | isMultiStmtTxn b => exact .inl hk.served
  | xaState s => exact ⟨hk.served, fun hs => absurd hs hu⟩
  | _ => exact hk.served

theorem xaState_spec {s : TxnXAState} (hs : s ≠ .prepare) :
    Spec g (Knows g t v) (act (.writeTxn t (.xaState s))) fun _ => Knows g t v :=
  writeTxn_spec hs

theorem incErrors_spec : Spec g (Knows g t v) (incErrors t) fun _ => Knows g t v :=
  writeTxn_spec trivial

theorem countErr_spec (err : Option Err) : Spec g (Knows g t v) (countErr t err) fun _ => Knows g t v := by
  cases err with
  | none => exact .ret Knows.stable fun _ _ h => h
  | some e => exact incErrors_spec

theorem setState_spec (hstage : v.stage ≠ .ended) {s : TxnState} (hs : Txn.ending s = false) :
    Spec g (Knows g t v) (act (.setState t s)) fun _ => Knows g t v := by
  refine quiet_unit (o := .setState t s) trivial fun w _ hk => .inl ⟨hk.served, ?_, hs⟩
  rw [hk.stage]
  exact hstage

/-- What the log shows may be made part of the picture. -/
theorem spec_of_log {p : Go α} {P : List Event → Prop}
    (h : ∀ past, v.past <:+ past → P past → Spec g (Knows g t { v with past := past }) p Q) :
    Spec g (fun w => P w.log ∧ Knows g t v w) p Q :=
  fun w hw hk => h w.log hk.2.past hk.1 w hw hk.2.refresh

/-- An operation of the environment: a clock, a choice, a part of the configuration. -/
theorem choose_spec : Spec g (Knows g t v) (act .choose) fun _ => Knows g t v :=
  quiet_unit (o := .choose) trivial fun _ _ _ => trivial

theorem now_spec : Spec g (Knows g t v) (act .now) fun _ => Knows g t v :=
  quiet_unit (o := .now) trivial fun _ _ _ => trivial

theorem panic_spec {A : World → Prop} (hA : discipline.Stable g A) : Spec g A (panic : Go α) Q := by
  refine Triple.bind (B := fun _ _ => False) (.perform hA (fun r => r.elim) fun w _ _ => ?_) fun r => r.elim
  exact ⟨trivial, fun c r => r.elim⟩

/-- A query that the picture allows on a connection to this backend; `XA PREPARE` is treated apart. -/
def MaySend (v : View) (b : Backend) : Query → Prop
  | .xaStart x => v.xid = some x ∧ v.stage = .opened ∧ b ∈ v.parts
  | .xaEnd _ => v.stage = .opened
  | .xaPrepare _ => False
  | .xaCommit x => (v.xid = some x ∧ v.stage = .decided .commit ∧ v.locked = true) ∨
      Event.logged x .commit ∈ v.past
  | .xaRollback x => (v.xid = some x ∧ v.stage = .decided .rollback ∧ v.locked = true) ∨
      Event.logged x .rollback ∈ v.past
  | .xaRecover => True
  | .sql _ => True

theorem MaySend.allowed {q : Query} (h : MaySend v c.pool.backend q) (hk : Knows g t v w) : QueryAllowed g w t c q := by
  cases q with
  | xaStart x =>
    refine ⟨hk.xid.trans h.1, hk.stage.trans h.2.1, ?_⟩
    rw [hk.parts]
    exact h.2.2
  | xaEnd x => exact hk.stage.trans h
  | xaPrepare x => exact h.elim
  | xaCommit x =>
    exact h.imp (fun h => ⟨hk.xid.trans h.1, hk.stage.trans h.2.1, hk.locked h.2.2⟩) hk.past.mem
  | xaRollback x =>
    exact h.imp (fun h => ⟨hk.xid.trans h.1, hk.stage.trans h.2.1, hk.locked h.2.2⟩) hk.past.mem
  | xaRecover => trivial
  | sql text => trivial

/-- A command on a connection of the transaction. -/
theorem query_spec (hstage : v.stage ≠ .ended) {q : Query} {call : Option Call}
    (hq : MaySend v c.pool.backend q) (hcall : call = none ∨ call = v.call) :
    Spec g (fun w => Knows g t v w ∧ Holds t c w) (act (.query call c q)) fun r w =>
      ((∀ qr, r = .ok qr → AckedBy q c.pool w.log) ∧ Holds t c w) ∧ Knows g t v w := by
  refine quiet_spec (o := .query call c q) trivial Holds.stable (fun r => ?_) fun w hw hk hc => ?_
  · exact (Stable.all fun qr => .imp fun _ => (grows_ackedBy q c.pool).stable).and Holds.stable
  · have hallow : Allowed g (.query call c q) w := by
      refine ⟨⟨t, hc, hk.served, ?_, hq.allowed hk⟩, fun r hr => ?_⟩
      · rw [hk.stage]
        exact hstage
      · rcases hcall with hcall | hcall
        · rw [hcall] at hr
          cases hr
        · exact hk.call r (hcall ▸ hr)
    refine ⟨hallow, fun choice r w' hrun _ _ => ⟨fun qr hr => ?_, (guar_step hw hallow hrun).holder c t hc⟩⟩
    obtain ⟨s', acked, applied, _, rfl, hacked⟩ := World.runQuery_spec hrun
    obtain rfl : acked = true := hacked.mpr ⟨qr, hr⟩
    exact ⟨call, c.index, applied, mem_cons_self⟩

/-- The deadline of a command may kill the connection. -/
theorem deadline_spec : Spec g (fun w => Knows g t v w ∧ Holds t c w) (act (.deadline t c)) fun _ w =>
    Holds t c w ∧ Knows g t v w := by
  refine quiet_spec (o := .deadline t c) trivial Holds.stable (fun _ => Holds.stable) fun w hw hk hc => ?_
  have hallow : Allowed g (.deadline t c) w := hc
  exact ⟨hallow, fun choice r w' hrun _ _ => (guar_step hw hallow hrun).holder c t hc⟩

/-- The transaction is still in use by its owner's goroutines. -/
theorem Knows.connAllowed (h : Knows g t v w) (hstage : v.stage ≠ .ended) : ConnAllowed g g (w.txns t) := by
  refine ⟨rfl, h.served, ?_⟩
  rw [h.stage]
  exact hstage

theorem conn_holds_issue (p : PoolRef) (f : Txn → Txn) :
    Holds t ⟨p, (w.servers p).issued⟩ (((w.updServer p fun s => s.issue t).updTxn t f).connMoved t) :=
  congrArg ConnState.holder ((conn_issue p _).trans (if_pos rfl))

/-- A pool hands out a connection, which is then in hand. -/
theorem poolGet_spec (hstage : v.stage ≠ .ended) (hhand : v.hand = none) (p : PoolRef) :
    Spec g (Knows g t v) (act (.poolGet t p g)) fun r w =>
      match r with
      | .error _ => Knows g t v w
      | .ok c => c.pool = p ∧ Knows g t { v with hand := some c } w ∧ Holds t c w := by
  refine Triple.perform Knows.stable (fun r => ?_) fun w hw hk => ⟨hk.connAllowed hstage, ?_⟩
  · cases r with
    | error e => exact Knows.stable
    | ok c => exact (Stable.of_pure _).and (Knows.stable.and Holds.stable)
  · intro choice r w' hrun _
    simp only [exec] at hrun
    split at hrun
    · cases hrun
      refine ⟨rfl, hk.of_hand ((⟨p, (w.servers p).issued⟩, g) :: (w.txns t).inHand) ?_
        (suffix_cons _ _) rfl fun c k hg => ?_, conn_holds_issue p _⟩
      · rw [World.connMoved_txns, World.updTxn_self]
        rfl
      · grind [Knows.hand]
    · grind

/-- The connection in hand finds its place in the transaction. -/
theorem store_spec (hhand : v.hand = none) (hallow : ∀ w, Wf w → Knows g t { v with hand := some c } w → Allowed g o w)
    (hcore : ∀ choice w r w', exec o choice w = some (r, w') → (w'.txns t).core =
      { (w.txns t).core with inHand := (w.txns t).inHand.erase (c, g) } ∧ w'.commitLock = w.commitLock) :
    Spec g (fun w => Knows g t { v with hand := some c } w ∧ Holds t c w) (act o)
      fun _ w => Holds t c w ∧ Knows g t v w := by
  refine Triple.perform (Knows.stable.and Holds.stable) (fun _ => Holds.stable.and Knows.stable)
    fun w hw ⟨hk, hc⟩ => ⟨hallow w hw hk, ?_⟩
  intro choice r w' hrun _
  have hG := guar_step hw (hallow w hw hk) hrun
  refine ⟨hG.holder c t hc, ?_⟩
  obtain ⟨hcore, hlock⟩ := hcore choice w r w' hrun
  have hmem : (c, g) ∈ (w.txns t).inHand := (hk.hand c g suffix_rfl).mpr ⟨rfl, rfl⟩
  have hview : v = { v with hand := none } := by rw [← hhand]
  rw [hview]
  refine hk.of_hand _ hcore hG.log hlock fun c' k hg => ?_
  rw [mem_erase_hand (hw.txn t).hand_nodup hmem, hk.hand c' k hg]
  grind

end Operations

section Forks

variable {g : Goroutine} {t : TxnId} {v : View} {w w' : World}

/-- The request is the old one or not that of a write. -/
def ReadReq (old new : Option RequestContext) : Prop :=
  new = old ∨ ∀ r, new = some r → r.txnMode ≠ .txnWrite

theorem ReadReq.trans {r r' r'' : Option RequestContext} (h : ReadReq r r') (h' : ReadReq r' r'') : ReadReq r r'' := by
  rcases h' with rfl | h'
  · exact h
  · exact .inr h'

/-- The picture is right, except that the request may have become that of a read. -/
def KnowsRead (g : Goroutine) (t : TxnId) (v : View) (w : World) : Prop :=
  ∃ r, ReadReq v.req r ∧ Knows g t { v with req := r } w

theorem Knows.read (h : Knows g t v w) : KnowsRead g t v w := ⟨v.req, .inl rfl, h⟩

theorem KnowsRead.stable : discipline.Stable g (KnowsRead g t v) :=
  .ex fun _ => (Stable.of_pure _).and Knows.stable

/-- Reading twice. -/
theorem KnowsRead.bind {r : Option RequestContext} (hr : ReadReq v.req r)
    (h : KnowsRead g t { v with req := r } w) : KnowsRead g t v w := by
  obtain ⟨r', hr', hk⟩ := h
  exact ⟨r', hr.trans hr', hk⟩

/-- The forks of a goroutine can change nothing of its picture but the request. -/
theorem KnowsCore.child_step {h : Goroutine} {f : Fork} {choice : Choice} {r : o.Res} (hw : Wf w)
    (hallow : Allowed h o w) (hrun : exec o choice w = some (r, w')) (hf : f :: g <:+ h) (hk : KnowsCore g t v w)
    : ∃ q, (q = v.req ∨ (w.txns t).PlannedBy h ∧ ReadReq v.req q) ∧ KnowsCore g t { v with req := q } w' := by
  have hG := guar_step hw hallow hrun
  have hne : ∀ {k}, k <:+ g → k ≠ h := by
    rintro k hk rfl
    exact Nat.not_succ_le_self _ (Nat.le_trans hf.length_le hk.length_le)
  obtain ⟨howner, hback⟩ := (hG.txns t).born _ hk.owner
  obtain ⟨hstage, hxid, hparts⟩ := (hG.txns t).owned _ hk.owner (hne hk.below)
  have hcore : ∀ q, (v.owner = g → (w'.txns t).req = q) → KnowsCore g t { v with req := q } w' :=
    fun q hq => ⟨howner, hk.below, hback.trans hk.backends, hstage.trans hk.stage, hxid.trans hk.xid,
      hparts.trans hk.parts, ((hG.txns t).voted _ hk.owner (hne hk.below)).trans hk.voted,
      (hG.txns t).added hk.added, hq, hk.past.trans hG.log,
      fun hl => hG.writer t _ (hk.locked hl) hk.owner (hne hk.below),
      fun r hr => ⟨hG.readers r (hk.call r hr).1 (hne (hk.call r hr).2), (hk.call r hr).2⟩⟩
  rcases (hG.txns t).req _ hk.owner (hne hk.below) with hreq | ⟨hplan, hreq⟩
  · exact ⟨v.req, .inl rfl, hcore _ fun ho => hreq.trans (hk.req ho)⟩
  · exact ⟨_, .inr ⟨hplan, .inr hreq⟩, hcore _ fun _ => rfl⟩

/-- Connections in hand below the goroutine are in the hands of its forks. -/
def HandBelow (g : Goroutine) (t : TxnId) (fs : Fork → Prop) (w : World) : Prop :=
  ∀ c k, g <:+ k → (c, k) ∈ (w.txns t).inHand → ∃ f, fs f ∧ f :: g <:+ k

variable {fs : Fork → Prop}

theorem HandBelow.stable : discipline.Stable g (HandBelow g t fs) :=
  fun _ _ _ hK h c k hk hmem => h c k hk (((hK.txns t).hand c k hk).mp hmem)

theorem Knows.handBelow (h : Knows g t v w) (hhand : v.hand = none) (fs : Fork → Prop) : HandBelow g t fs w := by
  intro c k hk hmem
  rw [h.hand c k hk, hhand] at hmem
  cases hmem.2

theorem HandBelow.child_step {f : Fork} (hfs : fs f)
    (hm : discipline.moves (f :: g) w w') (h : HandBelow g t fs w) : HandBelow g t fs w' := by
  obtain ⟨hw, k, o, c, r, hsuffix, hallow, hrun⟩ := hm
  intro c' k' hk' hmem
  by_cases heq : k' = k
  · exact ⟨f, hfs, heq ▸ hsuffix⟩
  · exact h c' k' hk' ((((guar_step hw hallow hrun).txns t).hand c' k' heq).mp hmem)

/-- What the goroutine and each of its forks know at the join. -/
theorem KnowsCore.join (h : KnowsCore g t v w) (hhand : v.hand = none) (hbelow : HandBelow g t fs w)
    (hforks : ∀ f, fs f → ∀ c k, f :: g <:+ k → (c, k) ∉ (w.txns t).inHand) : Knows g t v w := by
  refine ⟨h, fun c k hk => ⟨fun hmem => ?_, fun hk' => ?_⟩⟩
  · obtain ⟨f, hf, hfk⟩ := hbelow c k hk hmem
    exact absurd hmem (hforks f hf c k hfk)
  · rw [hhand] at hk'
    cases hk'.2

theorem Knows.empty_hand (h : Knows g t v w) (hhand : v.hand = none) (c : Conn) (k : Goroutine)
    (hk : g <:+ k) : (c, k) ∉ (w.txns t).inHand := by
  rw [h.hand c k hk, hhand]
  exact fun h => nomatch h.2

/-- A goroutine below a backend's one does not run a plan. -/
theorem not_plannedBy_shard {h : Goroutine} {b : Backend} (hk : KnowsCore g t v w)
    (hh : .shard b :: g <:+ h) : ¬ (w.txns t).PlannedBy h := by
  rintro ⟨o, sides, ho, rfl, hsides⟩
  obtain rfl : o = v.owner := Option.some.inj (ho.symm.trans hk.owner)
  obtain ⟨mid, hmid⟩ := hk.below
  obtain ⟨top, htop⟩ := hh
  have hall : (top ++ .shard b :: mid) ++ v.owner = sides ++ v.owner := by
    rw [← htop, ← hmid]
    simp
  have hmem : Fork.shard b ∈ sides := by
    rw [← append_cancel_right hall]
    simp
  rcases hsides _ hmem with h' | h' <;> cases h'

/-- One goroutine per backend, with what each of them knows about its backend. -/
theorem forkWith_spec {τ : Type} {child : Backend → Go τ} {bs : List Backend}
    {Φ : Backend → World → Prop} {Ψ : Backend → τ → World → Prop} (hnodup : bs.Nodup) (hhand : v.hand = none)
    (hΨ : ∀ b a, discipline.Stable (.shard b :: g) fun w => Ψ b a w ∧ Knows (.shard b :: g) t v w)
    (hchild : ∀ b ∈ bs, Spec (.shard b :: g) (fun w => Φ b w ∧ Knows (.shard b :: g) t v w) (child b)
      fun a w => Ψ b a w ∧ Knows (.shard b :: g) t v w) :
    Spec g (fun w => (∀ b ∈ bs, Φ b w) ∧ Knows g t v w) (Prog.forkAll child bs) fun out w =>
      List.Forall₂ (fun b a => Ψ b a w) bs out ∧ Knows g t v w := by
  let fs : Fork → Prop := fun f => ∃ b ∈ bs, f = .shard b
  have hkept : discipline.Kept g fs fun w => KnowsCore g t v w ∧ HandBelow g t fs w := by
    refine ⟨KnowsCore.stable.and HandBelow.stable, ?_⟩
    rintro _ ⟨b, hb, rfl⟩ w w' hm ⟨hk, hbelow⟩
    refine ⟨?_, hbelow.child_step ⟨b, hb, rfl⟩ hm⟩
    obtain ⟨hw, h, o, c, r, hsuffix, hallow, hrun⟩ := hm
    obtain ⟨q, hq, hk'⟩ := hk.child_step hw hallow hrun hsuffix
    rcases hq with rfl | ⟨hplan, _⟩
    · exact hk'
    · exact absurd hplan (not_plannedBy_shard hk hsuffix)
  refine (Triple.forkAll Fork.shard hnodup (fun b b' hne heq => hne (Fork.shard.inj heq)) hkept
    hΨ hchild).conseq (fun w _ hk => ?_) fun out w _ h => ?_
  · grind [Knows.child, Knows.toKnowsCore, Knows.handBelow]
  · refine ⟨h.1.imp fun _ _ h => h.1, h.2.1.join hhand h.2.2 ?_⟩
    rintro _ ⟨b, hb, rfl⟩
    obtain ⟨a, _, hab⟩ := Prog.forall₂_exists h.1 hb
    exact hab.2.empty_hand hhand

/-- One goroutine per backend, with what each of them finds in the log. -/
theorem forkShards_spec {τ : Type} {child : Backend → Go τ} {bs : List Backend} {Ψ : Backend → τ → List Event → Prop}
    (hnodup : bs.Nodup) (hhand : v.hand = none)
    (hΨ : ∀ b a, Grows (Ψ b a)) (hchild : ∀ b ∈ bs, Spec (.shard b :: g) (Knows (.shard b :: g) t v) (child b)
      fun a w => Ψ b a w.log ∧ Knows (.shard b :: g) t v w) : Spec g (Knows g t v) (Prog.forkAll child bs) fun out w =>
      List.Forall₂ (fun b a => Ψ b a w.log) bs out ∧ Knows g t v w :=
  (forkWith_spec (Φ := fun _ _ => True) (Ψ := fun b a w => Ψ b a w.log) hnodup hhand
    (fun b a => (hΨ b a).stable.and Knows.stable) fun b hb => (hchild b hb).pre fun _ _ h => h.2).pre
    fun _ _ hk => ⟨fun _ _ => trivial, hk⟩

/-- Two sides of a plan. -/
theorem sides_spec {β γ : Type} {p : Go β} {q : Go γ} {k : β → γ → Go α} {B : World → Prop} (hhand : v.hand = none)
    (hp : Spec (.left :: g) (fun w => Knows (.left :: g) t v w ∧ B w) p fun _ => KnowsRead (.left :: g) t v)
    (hq : Spec (.right :: g) (Knows (.right :: g) t v) q fun _ => KnowsRead (.right :: g) t v)
    (hk : ∀ a b, Spec g (KnowsRead g t v) (k a b) Q) : Spec g (fun w => Knows g t v w ∧ B w) (.par p q k) Q := by
  let fs : Fork → Prop := fun f => f = .left ∨ f = .right
  let I : World → Prop := fun w =>
    (∃ r, ReadReq v.req r ∧ KnowsCore g t { v with req := r } w) ∧ HandBelow g t fs w
  have hkept : discipline.Kept g fs I := by
    refine ⟨(Stable.ex fun _ => (Stable.of_pure _).and KnowsCore.stable).and HandBelow.stable, ?_⟩
    rintro f hf w w' hm ⟨⟨r, hr, hcore⟩, hbelow⟩
    refine ⟨?_, hbelow.child_step hf hm⟩
    obtain ⟨hw, h, o, c, res, hsuffix, hallow, hrun⟩ := hm
    obtain ⟨r', hr', hcore'⟩ := hcore.child_step hw hallow hrun hsuffix
    grind [ReadReq.trans]
  refine (Triple.par (I := I) (by decide) hkept hp hq fun a b => (hk a b).pre ?_).pre ?_
  · grind [KnowsCore.join, Knows.empty_hand, KnowsRead]
  · rintro w _ ⟨hknow, hB⟩
    exact ⟨⟨hknow.child hhand _, hB⟩, hknow.child hhand _,
      ⟨v.req, .inl rfl, hknow.toKnowsCore⟩, hknow.handBelow hhand fs⟩

end Forks

end Radon
