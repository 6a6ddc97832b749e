import Radon.Backend.Knowledge

/-!
# The connections and XA commands follow the discipline

Each getter and each XA command is specified by what it leaves of the picture its goroutine has of
the transaction, and by what its reply tells about the log.
-/

namespace Radon

open Concurrency Protocol List

variable {g : Goroutine} {t : TxnId} {v : View}

/-- The reply of a getter: a connection of the transaction to the backend, or to its primary. -/
def Got (t : TxnId) (v : View) (b : Backend) (primary : Bool) (r : Except Err Conn) (w : World) : Prop :=
  ∀ c, r = .ok c →
    (c.pool.backend = b ∧ (primary = true → c.pool.replica = false) ∧ b ∈ v.backends.names) ∧ Holds t c w

variable {b : Backend} {primary : Bool}

theorem Got.stable {r : Except Err Conn} : discipline.Stable g (Got t v b primary r) :=
  .all fun _ => .imp fun _ => (Stable.of_pure _).and Holds.stable

theorem Got.weaken {r : Except Err Conn} {w : World} (h : Got t v b primary r w) : Got t v b false r w :=
  fun c hc => ⟨⟨(h c hc).1.1, nofun, (h c hc).1.2.2⟩, (h c hc).2⟩

/-- A getter that returns an error. -/
theorem got_error (e : Err) : Spec g (Knows g t v) (Prog.ret (.error e))
    fun r w => Got t v b primary r w ∧ Knows g t v w :=
  .ret Knows.stable fun _ _ hk => ⟨fun _ h => (nomatch h), hk⟩

variable {c : Conn}

/-- A getter that returns a connection. -/
theorem got_ok (hb : c.pool.backend = b ∧ (primary = true → c.pool.replica = false) ∧ b ∈ v.backends.names) :
    Spec g (fun w => Holds t c w ∧ Knows g t v w) (Prog.ret (.ok c))
      fun r w => Got t v b primary r w ∧ Knows g t v w := by
  refine .ret (Holds.stable.and Knows.stable) fun w _ h => ⟨fun c' heq => ?_, h.2⟩
  obtain rfl : c = c' := Except.ok.inj heq
  exact ⟨hb, h.1⟩

theorem twopcGet_spec (b : Backend) : Spec g (Knows g t v) (act (.twopcGet t b)) fun r w =>
      (∀ c, r = some c → (c.pool.backend = b ∧ (true = true → c.pool.replica = false) ∧
        b ∈ v.backends.names) ∧ Holds t c w) ∧ Knows g t v w := by
  refine (quiet_spec (o := .twopcGet t b) (B := fun _ => True) trivial (.of_pure True) (fun r => ?_) ?_).pre
    fun w _ hk => ⟨hk, trivial⟩
  · exact .all fun _ => .imp fun _ => (Stable.of_pure _).and Holds.stable
  · intro w hw hk _
    refine ⟨trivial, fun choice r w' hrun _ _ c hc => ?_⟩
    cases hrun
    obtain ⟨hpool, hb⟩ := (hw.txn t).twopc_pool b c hc
    rw [hk.backends] at hb
    exact ⟨⟨by rw [hpool], fun _ => by rw [hpool], hb⟩, hw.placed t c (.inr (.inl ⟨b, hc⟩))⟩

theorem Backends.mem_names_of_replica {bs : Backends} (h : b ∈ bs.replicaNames) :
    b ∈ bs.names := by grind [names, replicaNames]

variable {q : Query}

/-- A command on the connection a getter has returned. -/
theorem got_query_spec (hstage : v.stage ≠ .ended)
    {call : Option Call} (hq : b ∈ v.backends.names → MaySend v b q) (hcall : call = none ∨ call = v.call) :
    Spec g (fun w => Got t v b true (.ok c) w ∧ Knows g t v w) (act (.query call c q)) fun r w =>
      (∀ qr, r = .ok qr → AckedBy q ⟨b, false⟩ w.log) ∧ Knows g t v w := by
  refine Triple.pre (A := fun w => (c.pool.backend = b ∧ (true = true → c.pool.replica = false) ∧
    b ∈ v.backends.names) ∧ Knows g t v w ∧ Holds t c w) (Triple.assume fun hb => ?_)
    fun w _ h => ⟨(h.1 c rfl).1, h.2, (h.1 c rfl).2⟩
  obtain ⟨rfl, hrep, hb⟩ := hb
  rw [← hrep rfl]
  exact (query_spec hstage (hq hb) hcall).post fun r w _ h => ⟨h.1.1, h.2⟩

theorem acked_of_errOf {A : Prop} {r : Except Err Result} (h : ∀ qr, r = .ok qr → A) (hr : errOf r = none) : A := by
  cases r with
  | ok qr => exact h qr rfl
  | error e => cases hr

section Connections

variable (hstage : v.stage ≠ .ended) (hhand : v.hand = none)

include hstage hhand

/-- A new connection is stored and returned. -/
theorem newConnection_spec (b : Backend) (rep : Bool) (kind : String) {put : Conn → Op}
    (hallow : ∀ c w, c.pool = ⟨b, rep⟩ → b ∈ v.backends.names → Knows g t { v with hand := some c } w →
      Allowed g (put c) w)
    (hcore : ∀ c choice w r w', exec (put c) choice w = some (r, w') → (w'.txns t).core =
      { (w.txns t).core with inHand := (w.txns t).inHand.erase (c, g) } ∧ w'.commitLock = w.commitLock) :
    Spec g (Knows g t v) (newConnection g t b rep kind put)
      fun r w => Got t v b (!rep) r w ∧ Knows g t v w := by
  refine readTxn_spec.bind_pure fun txn hsees => ?_
  rw [hsees.1]
  split
  · rename_i hmem
    have hb : b ∈ v.backends.names := by
      cases rep with
      | false => exact hmem
      | true => exact Backends.mem_names_of_replica hmem
    refine (poolGet_spec hstage hhand _).bind fun r => ?_
    cases r with
    | error e => exact got_error e
    | ok c =>
      refine Triple.assume fun hpool => ?_
      refine (store_spec hhand (fun w _ => hallow c w hpool hb) (hcore c)).bind fun r => got_ok ⟨by rw [hpool], ?_, hb⟩
      rw [hpool]
      exact (Bool.not_eq_true' rep).mp
  · exact got_error _

theorem twopcConnection_spec (b : Backend) :
    Spec g (Knows g t v) (twopcConnection g t b) fun r w => Got t v b true r w ∧ Knows g t v w := by
  refine (twopcGet_spec b).bind fun r => ?_
  cases r with
  | some c =>
    refine (Triple.assume fun hb => got_ok hb).pre fun w _ h => ?_
    exact ⟨(h.1 c rfl).1, (h.1 c rfl).2, h.2⟩
  | none =>
    refine (newConnection_spec hstage hhand b false "twopc" ?_ ?_).pre fun w _ h => h.2
    · intro c w hpool hb hk
      refine ⟨hk.connAllowed hstage, (hk.hand c g suffix_rfl).mpr ⟨rfl, rfl⟩, hpool, ?_⟩
      rw [hk.backends]
      exact hb
    · grind [World.updTxn_self, exec, Txn.core, World.connMoved, World.updTxn, World.emit, Txn.putTwopc]

theorem reFetchTwopcConnection_spec (b : Backend) :
    Spec g (Knows g t v) (reFetchTwopcConnection g t b) fun r w => Got t v b true r w ∧ Knows g t v w := by
  refine Triple.bind ?_ fun _ => twopcConnection_spec hstage hhand b
  exact quiet_unit (o := .twopcDrop t b) trivial fun w _ hk => hk.connAllowed hstage

theorem normalConnection_spec (b : Backend) :
    Spec g (Knows g t v) (normalConnection g t b) fun r w => Got t v b true r w ∧ Knows g t v w := by
  refine newConnection_spec hstage hhand b false "normal" (fun c w hpool _ hk => ?_) fun c choice w r w' hrun => ?_
  · exact ⟨hk.connAllowed hstage, (hk.hand c g suffix_rfl).mpr ⟨rfl, rfl⟩, by rw [hpool]⟩
  · cases hrun
    rw [World.connMoved_txns, World.updTxn_self]
    exact ⟨rfl, rfl⟩

theorem replicaConnection_spec (b : Backend) :
    Spec g (Knows g t v) (replicaConnection g t b) fun r w => Got t v b false r w ∧ Knows g t v w := by
  refine newConnection_spec hstage hhand b true "replica" (fun c w hpool _ hk => ?_) fun c choice w r w' hrun => ?_
  · exact ⟨hk.connAllowed hstage, (hk.hand c g suffix_rfl).mpr ⟨rfl, rfl⟩, by rw [hpool]⟩
  · cases hrun
    rw [World.connMoved_txns, World.updTxn_self]
    exact ⟨rfl, rfl⟩

theorem fetchPrimaryConnection_spec (b : Backend) :
    Spec g (Knows g t v) (fetchPrimaryConnection g t b) fun r w => Got t v b true r w ∧ Knows g t v w := by
  refine readTxn_spec.bind_pure fun txn _ => ?_
  grind [normalConnection_spec, twopcConnection_spec]

theorem fetchOneConnection_spec (b : Backend) :
    Spec g (Knows g t v) (fetchOneConnection g t b) fun r w => Got t v b false r w ∧ Knows g t v w := by
  have hprimary := (fetchPrimaryConnection_spec (g := g) (t := t) hstage hhand b).post
    fun r w _ h => And.intro h.1.weaken h.2
  refine readTxn_spec.bind_pure fun txn _ => ?_
  split
  · refine (replicaConnection_spec hstage hhand b).bind fun r => ?_
    cases r with
    | ok c => exact .ret (Got.stable.and Knows.stable) fun _ _ h => h
    | error e => exact hprimary.pre fun w _ h => h.2
  · exact hprimary

theorem xaOneShard_spec (hq : b ∈ v.backends.names → MaySend v b q)
    : Spec g (Knows g t v) (xaOneShard g t b q) fun r w => (r = none → AckedBy q ⟨b, false⟩ w.log) ∧ Knows g t v w := by
  refine (twopcConnection_spec hstage hhand b).bind fun r => ?_
  cases r with
  | error e => exact .ret (Got.stable.and Knows.stable) fun w _ h => ⟨fun h' => (nomatch h'), h.2⟩
  | ok c =>
    refine (got_query_spec hstage hq (.inl rfl)).bind fun r => ?_
    refine .ret ((Stable.all fun _ => .imp fun _ => (grows_ackedBy q _).stable).and Knows.stable) ?_
    exact fun w _ h => ⟨acked_of_errOf h.1, h.2⟩

theorem xaTryConnection_spec (b : Backend) (tries : ℕ) :
    Spec g (Knows g t v) (xaTryConnection g t b tries) fun r w => Got t v b true r w ∧ Knows g t v w := by
  grind [reFetchTwopcConnection_spec, twopcConnection_spec, xaTryConnection]

theorem xaRetryShard_spec (hq : b ∈ v.backends.names → MaySend v b q) (tries : ℕ) (x : Option Err)
    (hx : x = none → tries ≠ 0) :
    Spec g (Knows g t v) (xaRetryShard g t b q tries x) fun r w =>
      (r = none → AckedBy q ⟨b, false⟩ w.log) ∧ Knows g t v w := by
  induction tries generalizing x with
  | zero => exact .ret Knows.stable fun _ _ h => ⟨fun hnone => absurd rfl (hx hnone), h⟩
  | succ tries ih =>
    refine (xaTryConnection_spec hstage hhand b (tries + 1)).bind fun r => ?_
    cases r with
    | error e => exact (ih (some e) nofun).pre fun w _ h => h.2
    | ok c =>
      refine (got_query_spec hstage hq (.inl rfl)).bind fun r => ?_
      cases r with
      | ok qr =>
        refine .ret ((Stable.all fun _ => .imp fun _ => (grows_ackedBy q _).stable).and Knows.stable) ?_
        exact fun _ _ h => ⟨fun _ => h.1 qr rfl, h.2⟩
      | error e =>
        refine Triple.pre (A := Knows g t v) ?_ fun w _ h => h.2
        dsimp only
        split
        · exact .ret Knows.stable fun _ _ h => ⟨nofun, h⟩
        · exact ih (some e) nofun

end Connections

variable {d : Decision}

/-- The owner takes the commit lock with its decision. -/
theorem commitLock_spec (howner : v.owner = g) (hstage : v.stage = .opened)
    (hacked : d = .commit → ∀ x, v.xid = some x → ∀ b ∈ v.parts, Acked (.xaPrepare x) b v.past) :
    Spec g (Knows g t v) (act (.commitLock t d)) fun _ => Knows g t { v with stage := .decided d, locked := true } := by
  refine Triple.perform Knows.stable (fun _ => Knows.stable) fun w hw hk => ⟨?_, ?_⟩
  · refine ⟨hk.owner.trans (congrArg some howner), hk.stage.trans hstage, fun hd x hx b hb => ?_⟩
    rw [hk.parts] at hb
    exact grows_acked _ b _ _ hk.past (hacked hd x (hk.xid.symm.trans hx) b hb)
  · intro choice r w' hrun _
    simp only [exec] at hrun
    split at hrun
    · rename_i hfree
      cases hrun
      have hself := World.updTxn_self w t fun txn => { txn with stage := .decided d }
      refine ⟨⟨?_, hk.below, ?_, ?_, ?_, ?_, ?_, ?_, ?_, hk.past, fun _ => rfl, ?_⟩, ?_⟩
      · rw [hself]; exact hk.owner
      · rw [hself]; exact hk.backends
      · rw [hself]
      · rw [hself]; exact hk.xid
      · rw [hself]; exact hk.parts
      · rw [hself]; exact hk.voted
      · rw [hself]; exact hk.added
      · rw [hself]; exact hk.req
      · intro r hr
        have hmem := (hk.call r hr).1
        rw [hfree.2] at hmem
        cases hmem
      · rw [hself]; exact hk.hand
    · cases hrun

/-- The owner gives the commit lock back. -/
theorem commitUnlock_spec (howner : v.owner = g) (hlocked : v.locked = true) :
    Spec g (Knows g t v) (act (.commitUnlock t)) fun _ => Knows g t { v with locked := false } := by
  refine Triple.perform Knows.stable (fun _ => Knows.stable) fun w hw hk => ⟨?_, ?_⟩
  · exact ⟨hk.owner.trans (congrArg some howner), hk.locked hlocked⟩
  · intro choice r w' hrun _
    cases hrun
    exact { hk with locked := fun h => nomatch h }

theorem firstErr_eq_none {out : List (Option Err)} : firstErr out = none ↔ ∀ e ∈ out, e = none := by
  simp [firstErr, List.findSome?_eq_none_iff]

theorem xaTargets_nodup (req : Option RequestContext) (bs : Backends) : (xaTargets req bs).Nodup := by
  unfold xaTargets
  split
  · exact nodup_nil
  · split
    · split
      · exact nodup_dedup _
      · exact nodup_nil
    · exact bs.nodup
    · exact nodup_nil

variable {state : TxnXAState}

/-- `XA START` and `XA END` on every backend. -/
theorem xaFanOut_spec (hstage : v.stage ≠ .ended) (hhand : v.hand = none) {bs : List Backend}
    (hstate : state.decision = none) (hnodup : bs.Nodup) (hq : ∀ b ∈ bs, b ∈ v.backends.names → MaySend v b q)
    : Spec g (Knows g t v) (xaFanOut g t q state bs) fun _ => Knows g t v := by
  unfold xaFanOut
  rw [hstate]
  refine (forkShards_spec (Ψ := fun _ _ _ => True) hnodup hhand (fun _ _ _ _ _ h => h) fun b hb =>
    (xaOneShard_spec hstage hhand (hq b hb)).post fun _ _ _ h => ⟨trivial, h.2⟩).bind fun out => ?_
  exact Triple.pre (A := Knows g t v) (.ret Knows.stable fun _ _ h => h) fun w _ h => h.2

variable {x : Xid}

/-- `XA COMMIT` or `XA ROLLBACK` on every backend, under the commit lock. -/
theorem xaFanOut_decide_spec (howner : v.owner = g) (hstage : v.stage = .opened) (hhand : v.hand = none)
    {bs : List Backend} (hstate : state.decision = some d) (hx : v.xid = some x) (hnodup : bs.Nodup)
    (hacked : d = .commit → ∀ b ∈ v.parts, Acked (.xaPrepare x) b v.past) :
    Spec g (Knows g t v) (xaFanOut g t (d.query x) state bs) fun r w =>
      (r = none → ∀ b ∈ bs, AckedBy (d.query x) ⟨b, false⟩ w.log) ∧
        Knows g t { v with stage := .decided d, locked := false } w := by
  unfold xaFanOut
  rw [hstate]
  refine (commitLock_spec howner hstage fun hd y hy b hb => ?_).bind fun _ => ?_
  · grind
  · have hq : ∀ b : Backend, MaySend { v with stage := .decided d, locked := true } b (d.query x) := by
      intro b
      cases d with
      | commit => exact .inl ⟨hx, rfl, rfl⟩
      | rollback => exact .inl ⟨hx, rfl, rfl⟩
    refine (forkShards_spec (v := { v with stage := .decided d, locked := true })
      (Ψ := fun b r log => r = none → AckedBy (d.query x) ⟨b, false⟩ log) hnodup hhand
      (fun b a log log' hlog h hr => grows_ackedBy _ _ _ _ hlog (h hr)) fun b _ =>
      xaRetryShard_spec (v := { v with stage := .decided d, locked := true }) Stage.noConfusion hhand
        (fun _ => hq b) _ _ fun _ => Nat.succ_ne_zero 9).bind fun out => ?_
    refine spec_of_log (P := fun log => List.Forall₂
      (fun b r => r = none → AckedBy (d.query x) ⟨b, false⟩ log) bs out) fun past hpast hall => ?_
    refine (commitUnlock_spec (v := { v with stage := .decided d, locked := true, past := past }) howner
      rfl).bind fun _ => ?_
    refine .ret Knows.stable fun w _ hk => ⟨fun hnone b hb => ?_, ?_⟩
    · obtain ⟨r, hr, hb'⟩ := Prog.forall₂_exists hall hb
      exact grows_ackedBy _ _ _ _ hk.past (hb' (firstErr_eq_none.mp hnone r hr))
    · exact Knows.forget (v := { v with stage := .decided d, locked := false }) hk hpast

/-- What a goroutine knows while it carries an XA command out: a picture of the transaction and more. -/
structure Carried (g : Goroutine) (t : TxnId) (v : View) (K : World → Prop) : Prop where
  knows : ∀ w, K w → Knows g t v w
  stable : discipline.Stable g K
  read : Spec g K (act (.readTxn t)) fun txn w => Sees g v txn ∧ K w
  set : Spec g K (act (.setState t .executingTwoPC)) fun _ => K

theorem carried_knows (hstage : v.stage ≠ .ended) : Carried g t v (Knows g t v) :=
  ⟨fun _ h => h, Knows.stable, readTxn_spec, setState_spec hstage rfl⟩

/-- `executeXA` sends the command to the targets of the request, if there are any. -/
theorem executeXA_spec {req : RequestContext} {K : World → Prop} {Q : Option Err → World → Prop} (hK : Carried g t v K)
    (hfan : Spec g K (xaFanOut g t req.rawQuery state (xaTargets (some req) v.backends)) Q)
    (hnone : ∀ w, K w → xaTargets (some req) v.backends = [] → Q none w) : Spec g K (executeXA g t req state) Q := by
  refine hK.set.bind fun _ => ?_
  unfold xaTargets at hfan hnone
  cases hmode : req.mode with
  | reqNormal =>
    simp only [hmode] at hfan hnone ⊢
    split
    · rename_i hlen
      rw [if_pos hlen] at hfan
      exact hfan
    · rename_i hlen
      exact .ret hK.stable fun w _ hk => hnone w hk (if_neg hlen)
  | reqScatter =>
    simp only [hmode] at hfan
    refine hK.read.bind_pure fun txn hsees => ?_
    rw [hsees.1]
    exact hfan
  | reqSingle =>
    simp only [hmode] at hnone
    exact .ret hK.stable fun w _ hk => hnone w hk trivial

/-- The owner's command goes to the targets of its request. -/
theorem executeXACommand_spec {K : World → Prop} {Q : Option Err → World → Prop} (howner : v.owner = g)
    (hK : Carried g t v K) (hfan : Spec g K (xaFanOut g t q state (xaTargets v.req v.backends)) Q)
    (hnone : ∀ w, K w → xaTargets v.req v.backends = [] → Q none w) : Spec g K (executeXACommand g t q state) Q := by
  refine hK.read.bind_pure fun txn hsees => ?_
  rw [hsees.2.2 howner]
  cases hreq : v.req with
  | none => exact panic_spec hK.stable
  | some req =>
    rw [hreq] at hfan hnone
    exact executeXA_spec hK hfan hnone

section Owner

variable (howner : v.owner = g) (hstage : v.stage = .opened) (hhand : v.hand = none)

include howner hstage

/-- The owner gives the transaction its xid and the backends that take part. -/
theorem writeXid_spec (hx : x.id = t) :
    Spec g (Knows g t v) (act (.writeTxn t (.xid x (xaParts v.req v.backends)))) fun _ =>
      Knows g t { v with xid := some x, parts := v.parts ++ xaParts v.req v.backends } := by
  refine Triple.perform Knows.stable (fun _ => Knows.stable) fun w hw hk => ⟨?_, ?_⟩
  · refine ⟨hk.owner.trans (congrArg some howner), hk.stage.trans hstage, hx, fun b hb => ?_⟩
    rw [hk.backends]
    exact of_decide_eq_true (mem_filter.mp hb).2
  · intro choice r w' hrun _
    cases hrun
    exact hk.write (.xid x _) rfl (congrArg (· ++ _) hk.parts) hk.voted hk.req

include hhand

/-- `XA START` and `XA END` on the targets of the owner's request. -/
theorem xaCommand_spec (hstate : state.decision = none)
    (hq : ∀ b ∈ xaTargets v.req v.backends, b ∈ v.backends.names → MaySend v b q) :
    Spec g (Knows g t v) (executeXACommand g t q state) fun _ => Knows g t v := by
  grind [executeXACommand_spec, carried_knows, xaFanOut_spec, xaTargets_nodup]

theorem xaStart_spec : Spec g (Knows g t v) (xaStart g t) fun _ w => ∃ x, Knows g t
    { v with xid := some x, parts := v.parts ++ xaParts v.req v.backends } w := by
  refine (xaState_spec (s := .start) nofun).bind fun _ => ?_
  refine readTxn_spec.bind_pure fun txn hsees => ?_
  refine now_spec.bind fun now => ?_
  rw [hsees.1, hsees.2.2 howner]
  dsimp only
  refine (writeXid_spec (t := t) (x := ⟨txn.isMultiStmtTxn, now, t⟩) howner hstage rfl).bind fun _ => ?_
  obtain ⟨v', hv'⟩ : ∃ v', v' = { v with
    xid := some ⟨txn.isMultiStmtTxn, now, t⟩
    parts := v.parts ++ xaParts v.req v.backends } := ⟨_, rfl⟩
  rw [← hv']
  refine (xaCommand_spec (by rw [hv']; exact howner) (by rw [hv']; exact hstage) (by rw [hv']; exact hhand)
    rfl fun b hb hname => ?_).bind fun err => ?_
  · grind [xaParts, MaySend]
  · refine (countErr_spec err).bind fun _ => (xaState_spec (s := .startFinished) nofun).bind fun _ => ?_
    exact .ret Knows.stable fun _ _ hk => ⟨_, hv' ▸ hk⟩

theorem xaEnd_spec : Spec g (Knows g t v) (xaEnd g t) fun _ => Knows g t v := by
  refine (xaState_spec (s := .end) nofun).bind fun _ => ?_
  refine readTxn_spec.bind_pure fun txn hsees => ?_
  rw [hsees.2.1]
  cases v.xid with
  | none => exact panic_spec Knows.stable
  | some x =>
    refine (xaCommand_spec (q := .xaEnd x) howner hstage hhand rfl fun b _ _ => hstage).bind fun err => ?_
    refine (countErr_spec err).bind fun _ => (xaState_spec (s := .endFinished) nofun).bind fun _ => ?_
    exact .ret Knows.stable fun _ _ h => h

end Owner

/-- A decision that failed on some backend is entered in the retry log. -/
theorem logFailed_spec (howner : v.owner = g) (hx : v.xid = some x) (err : Option Err)
    (hstage : err ≠ none → v.stage = .decided d) : Spec g (Knows g t v) (logFailed t d err) fun _ w =>
      (err ≠ none → ∃ d', Event.logged x d' ∈ w.log) ∧ Knows g t v w := by
  have hgrows : Grows fun log => ∃ d', Event.logged x d' ∈ log := by
    rintro log log' hlog ⟨d', hmem⟩
    exact ⟨d', hlog.mem hmem⟩
  cases err with
  | none => exact .ret Knows.stable fun _ _ h => ⟨fun hne => absurd rfl hne, h⟩
  | some e =>
    refine incErrors_spec.bind fun _ => ?_
    refine Triple.bind (B := fun _ w => (∃ d', Event.logged x d' ∈ w.log) ∧ Knows g t v w) ?_ fun _ =>
      .ret (hgrows.stable.and Knows.stable) fun _ _ h => ⟨fun _ => h.1, h.2⟩
    refine readTxn_spec.bind_pure fun txn hsees => ?_
    rw [hsees.2.1, hx]
    refine (quiet_unit (o := .xcLock) trivial fun _ _ _ => trivial).bind fun _ => ?_
    have hadd : Spec g (Knows g t v) (act (.xcAdd x d)) fun _ w =>
        (∃ d', Event.logged x d' ∈ w.log) ∧ Knows g t v w := by
      refine (quiet_spec (o := .xcAdd x d) (B := fun _ => True) trivial (.of_pure True) (fun _ => hgrows.stable)
        fun w hw hk _ => ⟨?_, ?_⟩).pre fun w _ hk => ⟨hk, trivial⟩
      · exact ⟨t, hk.owner.trans (congrArg some howner), hk.xid.trans hx, hk.stage.trans (hstage nofun)⟩
      · intro choice r w' hrun _ _
        simp only [exec] at hrun
        split at hrun
        · rename_i hdup
          cases hrun
          obtain ⟨entry, hentry, heq⟩ := any_eq_true.mp hdup
          exact ⟨entry.state, of_decide_eq_true heq ▸ hw.retrys entry hentry⟩
        · cases hrun
          exact ⟨d, mem_cons_self⟩
    refine hadd.bind fun err => spec_of_log (P := fun log => ∃ d', Event.logged x d' ∈ log)
      fun past hpast hlogged => ?_
    refine (quiet_unit (o := .xcUnlock) trivial fun _ _ _ => trivial).bind fun _ => ?_
    exact .ret Knows.stable fun w _ hk => ⟨hgrows _ _ hk.past hlogged, hk.forget hpast⟩

/-- A decision reached every target, or it is in the retry log. -/
def Recorded (v : View) (d : Decision) (log : List Event) : Prop :=
  ∀ x, v.xid = some x → (∃ d', Event.logged x d' ∈ log) ∨
    ∀ b ∈ xaTargets v.req v.backends, AckedBy (d.query x) ⟨b, false⟩ log

theorem grows_recorded (v : View) (d : Decision) : Grows (Recorded v d) := by
  intro log log' hlog h x hx
  rcases h x hx with ⟨d', hmem⟩ | hall
  · exact .inl ⟨d', hlog.mem hmem⟩
  · exact .inr fun b hb => grows_ackedBy _ _ _ _ hlog (hall b hb)

/-- The owner's stage after it may have taken a decision. -/
theorem xaDecide_spec {finished : TxnXAState} (howner : v.owner = g) (hstage : v.stage = .opened)
    (hhand : v.hand = none) (hstate : state.decision = some d) (hfinished : finished ≠ .prepare)
    (hacked : d = .commit → ∀ x, v.xid = some x → ∀ b ∈ v.parts, Acked (.xaPrepare x) b v.past) :
    Spec g (Knows g t v) (xaDecide g t d state finished) fun _ w =>
      ∃ s l, s ≠ .ended ∧ Recorded v d w.log ∧ Knows g t { v with stage := s, locked := l } w := by
  have hne : v.stage ≠ .ended := by rw [hstage]; exact Stage.noConfusion
  have hstart : state ≠ .prepare := by
    rintro rfl
    cases hstate
  refine (xaState_spec hstart).bind fun _ => ?_
  refine readTxn_spec.bind_pure fun txn hsees => ?_
  rw [hsees.2.1]
  cases hx : v.xid with
  | none => exact panic_spec Knows.stable
  | some x =>
    refine (executeXACommand_spec (Q := fun err w => ∃ s l, s ≠ .ended ∧ (err ≠ none → s = .decided d) ∧
      (err = none → ∀ b ∈ xaTargets v.req v.backends, AckedBy (d.query x) ⟨b, false⟩ w.log) ∧
      Knows g t { v with stage := s, locked := l } w) howner (carried_knows hne) ?_ ?_).bind fun err => ?_
    · refine (xaFanOut_decide_spec howner hstage hhand hstate hx (xaTargets_nodup _ _) fun hd =>
        hacked hd x hx).post fun err w _ h => ?_
      exact ⟨_, false, Stage.noConfusion, fun _ => rfl, h.1, h.2⟩
    · intro w hk hnil
      refine ⟨v.stage, v.locked, hne, fun h => absurd rfl h, fun _ b hb => ?_, hk⟩
      rw [hnil] at hb
      cases hb
    · refine Triple.exists fun s => Triple.exists fun l => Triple.assume fun hs => Triple.assume fun herr => ?_
      refine spec_of_log (v := { v with stage := s, locked := l }) (P := fun log => err = none →
        ∀ b ∈ xaTargets v.req v.backends, AckedBy (d.query x) ⟨b, false⟩ log) fun past hpast hall => ?_
      refine (logFailed_spec (v := { v with stage := s, locked := l, past := past }) howner hx err
        herr).bind fun _ => ?_
      have hrecorded : ∀ log, past <:+ log → (err ≠ none → ∃ d', Event.logged x d' ∈ log) →
          Recorded v d log := by
        intro log hlog hlogged y hy
        obtain rfl : x = y := Option.some.inj (hx.symm.trans hy)
        by_cases hnone : err = none
        · exact .inr fun b hb => grows_ackedBy _ _ _ _ hlog (hall hnone b hb)
        · exact .inl (hlogged hnone)
      refine Triple.pre (A := fun w => Recorded v d w.log ∧
        Knows g t { v with stage := s, locked := l } w) ?_ fun w _ h =>
          ⟨hrecorded _ h.2.past h.1, Knows.forget (v := { v with stage := s, locked := l }) h.2 hpast⟩
      refine spec_of_log (v := { v with stage := s, locked := l }) (P := Recorded v d) fun past' hpast' hrec => ?_
      refine (xaState_spec hfinished).post fun _ w _ hk => ⟨s, l, hs, grows_recorded v d _ _ hk.past hrec, ?_⟩
      rw [← hx]
      exact Knows.forget (v := { v with stage := s, locked := l }) hk hpast'

end Radon
