import Radon.System.Agreement

/-!
# Prepared branches are handed to the retry log

A transaction that has been finished leaves no prepared branch behind without a record of its decision,
provided that `XA PREPARE` was acknowledged everywhere once a server had carried it out. After a partial
failure of `XA PREPARE` the branches that did prepare are left to themselves.
-/

namespace Radon

open Concurrency Function

namespace Server

variable {s : Server} {i : ℕ} {x : Xid} {q : Query}

theorem setBranch_none {y : Xid} {branch : Option Branch} (hne : branch = none ∨ y ≠ x)
    (h : s.branches x = none) : (s.setBranch y branch).branches x = none := by
  by_cases heq : x = y
  · subst heq
    exact (update_self x branch s.branches).trans (hne.resolve_right fun h => h rfl)
  · exact (update_of_ne heq branch s.branches).trans h

/-- Only `XA START` opens a branch. -/
theorem run_none (hq : q ≠ .xaStart x) (h : s.branches x = none) : (s.run i q).2.branches x = none := by
  cases q with
  | xaStart y =>
    simp only [run]
    split
    · exact setBranch_none (s := s) (.inr fun heq => hq (heq ▸ rfl)) h
    · exact h
  | xaEnd y => grind [setBranch_none, run]
  | xaPrepare y => grind [setBranch_none, run]
  | xaCommit y =>
    simp only [run]
    split
    · split
      · exact setBranch_none (s := s) (.inl rfl) h
      · exact h
    · exact h
  | xaRollback y =>
    simp only [run]
    split
    · split
      · exact setBranch_none (s := s) (.inl rfl) h
      · exact h
    · exact h
  | xaRecover => exact h
  | sql text => grind [setBranch_none, run]

theorem disconnect_none (h : s.branches x = none) : (s.disconnect i).branches x = none := by
  grind [setBranch_none, disconnect, setConn]

theorem runFault_none {f : Fault} (hq : q ≠ .xaStart x) (h : s.branches x = none) :
    (s.runFault i q f).branches x = none := by grind [run_none, disconnect_none, runFault]

/-- A decision that the server accepts ends the branch. -/
theorem run_decision {d : Decision} {qr : Result} (h : (s.run i (d.query x)).1 = .ok qr) :
    (s.run i (d.query x)).2.branches x = none := by
  cases d
  all_goals
    simp only [Decision.query, run] at h ⊢
    split at h
    · split at h
      · rename_i hend
        rw [if_pos hend]
        exact update_self x none s.branches
      · cases h
    · cases h

end Server

variable {w w' : World} {t : TxnId} {x : Xid} {p : PoolRef} {g : Goroutine} {o : Op} {choice : Choice} {r : o.Res}

/-- A change of one server leaves an absent branch absent. -/
theorem updServer_none (p' : PoolRef) {f : Server → Server}
    (hf : (w.servers p').branches x = none → (f (w.servers p')).branches x = none)
    (h : (w.servers p).branches x = none) : ((w.updServer p' f).servers p).branches x = none := by
  change (update w.servers p' (f (w.servers p')) p).branches x = none
  grind

theorem closeConn_none (c : Conn) (h : (w.servers p).branches x = none) :
    ((w.closeConn c).servers p).branches x = none :=
  updServer_none _ Server.disconnect_none h

theorem killConn_none (c : Conn) (h : (w.servers p).branches x = none) :
    ((w.killConn c).servers p).branches x = none :=
  updServer_none _ Server.disconnect_none h

/-- Only `XA START` opens a branch. -/
theorem none_step (hrun : exec o choice w = some (r, w')) (ho : ∀ call c, o ≠ .query call c (.xaStart x))
    (h : (w.servers p).branches x = none) : (w'.servers p).branches x = none := by
  cases exec_outcome hrun with
  | twopcPut t b c k => split <;> exact h
  | twopcDrop => exact closeConn_none _ h
  | poolGet t p' k => exact updServer_none p' (f := fun s => s.issue t) id h
  | close c => exact closeConn_none c h
  | recycle c => exact updServer_none _ (f := fun s => s.setConn _ _) id h
  | kill t c | deadline t c => exact killConn_none c h
  | query call c q hquery =>
    have hq : q ≠ .xaStart x := fun heq => ho call c (heq ▸ rfl)
    simp only [World.runQuery] at hquery
    split at hquery
    · split at hquery
      · cases hquery; exact updServer_none _ (f := fun s => (s.run c.index q).2) (Server.run_none hq) h
      · split at hquery
        · cases hquery
        · cases hquery; exact updServer_none _ (f := fun s => s.runFault c.index q _) (Server.runFault_none hq) h
    · cases hquery; exact h
  | _ => exact h

/-- An acknowledged decision ends the branch. -/
theorem runQuery_decision {call : Option Call} {c : Conn} {d : Decision} {qr : Result}
    (h : w.runQuery call c (d.query x) choice = some (.ok qr, w')) : (w'.servers c.pool).branches x = none := by
  unfold World.runQuery at h
  split at h
  · split at h
    · obtain ⟨hr, rfl⟩ := Prod.mk.inj (Option.some.inj h)
      have hok : ((w.servers c.pool).run c.index (d.query x)).1 = .ok qr := by
        cases hrun : ((w.servers c.pool).run c.index (d.query x)).1 with
        | error e => rw [hrun] at hr; cases hr
        | ok qr' => rw [hrun] at hr; cases hr; rfl
      change (update w.servers c.pool _ c.pool).branches x = none
      rw [update_self]
      exact Server.run_decision hok
    · split at h
      · cases h
      · cases h
  · cases h

/-- A command in the log was there before, or has just been sent. -/
theorem query_emitted (hrun : exec o choice w = some (r, w')) {call : Option Call} {c : Conn} {q : Query}
    {acked applied : Bool} (hmem : Event.query call c q acked applied ∈ w'.log) :
    Event.query call c q acked applied ∈ w.log ∨ o = .query call c q := by
  obtain ⟨es, hlog, hes⟩ := emits_step hrun
  rw [hlog] at hmem
  rcases List.mem_append.mp hmem with hmem | hmem
  · have hemits := hes _ hmem
    cases o with
    | query call' c' q' => grind [Op.Emits]
    | twopcPut t b c' k => rcases hemits with heq | ⟨_, heq⟩ <;> cases heq
    | twopcDrop t b => obtain ⟨_, heq⟩ := hemits; cases heq
    | appendNormal t c' k => obtain ⟨_, heq⟩ := hemits; cases heq
    | appendReplica t c' k => obtain ⟨_, heq⟩ := hemits; cases heq
    | poolGet t p k => obtain ⟨_, heq⟩ := hemits; cases heq
    | _ => cases hemits
  · exact .inl hmem

/-- The fields of a record that decide on the fate of its branches. -/
def Txn.fate (txn : Txn) : Stage × Option Xid × List Backend × Bool :=
  (txn.stage, txn.xid, txn.voted, txn.finished)

/-- What a step does to the fate of a transaction's branches: it is sealed when `Finish` begins. -/
structure Fated (t : TxnId) (w w' : World) : Prop where
  ended : (w'.txns t).stage = .ended →
    ((w'.txns t).xid = (w.txns t).xid ∧ (w'.txns t).voted = (w.txns t).voted) ∧
      ((w.txns t).stage = .ended ∨ Resolved (w.txns t) w.log)
  stays : (w.txns t).stage = .ended → (w'.txns t).stage = .ended
  finished : (w'.txns t).finished = true → (w.txns t).finished = true ∨ (w.txns t).stage = .ended

theorem Fated.of_eq (h : (w'.txns t).fate = (w.txns t).fate) : Fated t w w' := by
  have hstage : (w'.txns t).stage = (w.txns t).stage := congrArg (·.1) h
  have hxid : (w'.txns t).xid = (w.txns t).xid := congrArg (·.2.1) h
  have hvoted : (w'.txns t).voted = (w.txns t).voted := congrArg (·.2.2.1) h
  have hfinished : (w'.txns t).finished = (w.txns t).finished := congrArg (·.2.2.2) h
  exact ⟨fun hs => ⟨⟨hxid, hvoted⟩, .inl (hstage ▸ hs)⟩, fun hs => hstage.trans hs, fun hf => .inl (hfinished ▸ hf)⟩

/-- The record of one transaction changes. -/
theorem fated_update (t' : TxnId) {txn' : Txn} (htxns : w'.txns = update w.txns t' txn')
    (h : w'.txns t' = txn' → Fated t' w w') : Fated t w w' := by
  by_cases heq : t = t'
  · subst heq
    exact h (by rw [htxns, update_self])
  · exact .of_eq (by rw [htxns, update_of_ne heq])

theorem fated_same (t' : TxnId) {txn' : Txn} (htxns : w'.txns = update w.txns t' txn')
    (h : txn'.fate = (w.txns t').fate) : Fated t w w' :=
  fated_update t' htxns fun hself => .of_eq (by rw [hself, h])

/-- A change of a record that is still open. -/
theorem Fated.of_opened (hold : (w.txns t).stage = .opened) (hnew : (w'.txns t).stage ≠ .ended)
    (hfinished : (w'.txns t).finished = (w.txns t).finished) : Fated t w w' :=
  ⟨fun hs => absurd hs hnew, fun hs => (nomatch hold.symm.trans hs), fun hf => .inl (hfinished ▸ hf)⟩

theorem fated_step (hw : Wf w) (hallow : Allowed g o w) (hrun : exec o choice w = some (r, w')) : Fated t w w' := by
  cases exec_outcome hrun with
  | newTxn k bs =>
    refine fated_same (w.txnid + 1) rfl ?_
    rw [hw.unborn _ (Nat.lt_succ_self _)]
    rfl
  | mgrAdd t' | mgrRemove t' | setState t' | abortCheck t' | twopcDrop t' | twopcDelete t' | appendNormal t'
  | appendReplica t' | poolGet t' => exact fated_same t' rfl rfl
  | commitLock t' d =>
    refine fated_update t' rfl fun hself => .of_opened hallow.2.1 ?_ ?_
    · rw [hself]; exact Stage.noConfusion
    · rw [hself]
  | writeTxn t' u =>
    cases u with
    | xid y parts =>
      refine fated_update t' rfl fun hself => .of_opened hallow.2.1 ?_ ?_
      · rw [hself]
        change (w.txns t').stage ≠ .ended
        rw [hallow.2.1]
        exact Stage.noConfusion
      · rw [hself]; rfl
    | xaState s =>
      by_cases hs : s = .prepare
      · obtain ⟨_, hstage⟩ := hallow.2 hs
        grind [fated_update, Fated.of_opened, World.updTxn, TxnWrite.apply]
      · grind [fated_same, World.updTxn, TxnWrite.apply, Txn.fate]
    | _ => exact fated_same t' rfl rfl
  | lockMu t' who =>
    cases who with
    | finish k =>
      refine fated_update t' rfl fun hself => ⟨fun _ => ⟨⟨?_, ?_⟩, .inr hallow.2.2.2⟩, fun _ => ?_, fun hf => ?_⟩
      · rw [hself]; rfl
      · rw [hself]; rfl
      · rw [hself]; rfl
      · rw [hself] at hf; exact .inl hf
    | _ => exact fated_same t' rfl rfl
  | unlockMu t' =>
    refine fated_update t' rfl fun hself => ?_
    have hrest : ∀ txn : Txn, txn.unlock.stage = txn.stage ∧ txn.unlock.xid = txn.xid ∧
        txn.unlock.voted = txn.voted := by
      intro txn
      unfold Txn.unlock
      split <;> exact ⟨rfl, rfl, rfl⟩
    obtain ⟨hstage, hxid, hvoted⟩ := hrest (w.txns t')
    refine ⟨fun hs => ⟨⟨?_, ?_⟩, .inl ?_⟩, fun hs => ?_, fun hf => ?_⟩
    · rw [hself, hxid]
    · rw [hself, hvoted]
    · rw [hself, hstage] at hs; exact hs
    · rw [hself, hstage, hs]
    · rw [hself] at hf
      unfold Txn.unlock at hf
      split at hf
      · rename_i k hmu
        exact .inr ((hw.txn t').mu_finish k hmu).2
      · exact .inl hf
      · exact .inl hf
  | twopcPut t' b c k =>
    refine @fated_same _ _ _ t' ((w.txns t').putTwopc b c k) ?_ rfl
    split <;> rfl
  | query call c q hquery => grind [World.runQuery_spec, Fated.of_eq]
  | _ => exact .of_eq rfl

theorem AckedBy.sent {q : Query} {log : List Event} (h : AckedBy q p log) : Sent q p.backend log := by
  obtain ⟨call, i, applied, hmem⟩ := h
  exact ⟨call, p.replica, i, true, applied, hmem⟩

/-- What holds of the branches that were asked to prepare, in every reachable world. -/
structure Handed (w : World) : Prop where
  resolved : ∀ t, (w.txns t).stage = .ended → Resolved (w.txns t) w.log
  finished : ∀ t, (w.txns t).finished = true → (w.txns t).stage = .ended
  primary : ∀ call c x acked applied, Event.query call c (.xaPrepare x) acked applied ∈ w.log →
    c.pool.replica = false
  gone : ∀ x d p, AckedBy (Decision.query d x) p w.log → (w.servers p).branches x = none

/-- After `Finish` has begun nothing is prepared any more. -/
theorem Resolved.step (hw : Wf w) (hallow : Allowed g o w) (hrun : exec o choice w = some (r, w'))
    (hxid : (w'.txns t).xid = (w.txns t).xid) (hvoted : (w'.txns t).voted = (w.txns t).voted)
    (hquiet : (w'.txns t).stage = .ended) (h : Resolved (w.txns t) w.log) : Resolved (w'.txns t) w'.log := by
  have hlog := (guar_step hw hallow hrun).log
  intro x hx
  rw [hvoted]
  rw [hxid] at hx
  rcases h x hx with ⟨b, hb, hnot⟩ | ⟨d, hd⟩ | ⟨d, hall⟩
  · refine .inl ⟨b, hb, ?_⟩
    rintro ⟨call, rep, i, applied, hmem⟩
    rcases query_emitted hrun hmem with hmem | rfl
    · exact hnot ⟨call, rep, i, applied, hmem⟩
    · -- the command would come from the open transaction itself
      obtain ⟨⟨t', _, _, _, hvote⟩, _⟩ := hallow
      obtain rfl : t' = t := ((hw.txn t').xid_id x hvote.xid).symm.trans ((hw.txn t).xid_id x hx)
      grind [World.runQuery_spec, exec]
  · exact .inr (.inl ⟨d, hlog.mem hd⟩)
  · exact .inr (.inr ⟨d, fun b hb => grows_ackedBy _ _ _ _ hlog (hall b hb)⟩)

theorem handed_step (hw : Wf w) (hallow : Allowed g o w) (hrun : exec o choice w = some (r, w'))
    (hagreed : Agreed w) (h : Handed w) : Handed w' := by
  refine ⟨fun t hs => ?_, fun t hf => ?_, ?_, ?_⟩
  · grind [fated_step, Fated.ended, Resolved.step, Handed.resolved]
  · have hfated : Fated t w w' := fated_step hw hallow hrun
    exact hfated.stays ((hfated.finished hf).elim (h.finished t) id)
  · grind [query_emitted, Handed.primary, VoteAllowed.primary, Allowed, QueryAllowed]
  · rintro x d p ⟨call, i, applied, hmem⟩
    by_cases hold : AckedBy (d.query x) p w.log
    · refine none_step hrun (fun call' c heq => ?_) (h.gone x d p hold)
      subst heq
      obtain ⟨⟨t, _, _, _, hxid, hstage, _⟩, _⟩ := hallow
      exact hagreed.undecided t x d hstage ((hw.txn t).xid_id x hxid) hold.sent.decides
    · rcases query_emitted hrun hmem with hmem | rfl
      · exact absurd ⟨call, i, applied, hmem⟩ hold
      · cases r with
        | ok qr => exact runQuery_decision hrun
        | error e => grind [World.runQuery_spec, exec, AckedBy]

theorem Boot.handed (h : Boot w) : Handed w := by
  have htxn : ∀ t, w.txns t = {} := fun t => congrFun h.txns t
  refine ⟨fun t hs => ?_, fun t hf => ?_, fun call c x acked applied hmem => ?_, ?_⟩
  · rw [htxn] at hs
    cases hs
  · rw [htxn] at hf
    cases hf
  · rw [h.log] at hmem
    cases hmem
  · grind [log, AckedBy]

variable {tasks : ℕ → Task} {n : ℕ} {w₀ : World} {prog : Go (List Unit)}

theorem handed_of_run (hboot : Boot w₀) (hrun : Prog.Steps exec (process tasks n) w₀ prog w) :
    Wf w ∧ Agreed w ∧ Handed w := by
  refine process_invariant (I := fun w => Wf w ∧ Agreed w ∧ Handed w) ?_ hboot
    ⟨hboot.wf, hboot.agreed, hboot.handed⟩ hrun
  rintro g o c w r w' hw hallow hexec ⟨_, hagreed, hhanded⟩
  exact ⟨wf_step hw hallow hexec, agreed_step hw hallow hexec hagreed, handed_step hw hallow hexec hagreed hhanded⟩

/-- The server of a pool carried `XA PREPARE` out. -/
def PreparedOn (x : Xid) (p : PoolRef) (log : List Event) : Prop :=
  ∃ call i acked, Event.query call ⟨p, i⟩ (.xaPrepare x) acked true ∈ log

/-- A finished transaction whose `XA PREPARE` was acknowledged everywhere, once one server had carried it
out: each of its branches that is still prepared has been handed to the retry log with the decision. -/
theorem prepared_branch_recorded (hboot : Boot w₀) (hrun : Prog.Steps exec (process tasks n) w₀ prog w)
    (hfinished : (w.txns t).finished = true) (hxid : (w.txns t).xid = some x)
    (hvotes : (∃ q, PreparedOn x q w.log) → ∀ b ∈ (w.txns t).voted, Acked (.xaPrepare x) b w.log) :
    ∀ q branch, PreparedOn x q w.log → (w.servers q).branches x = some branch → branch.state = .prepared →
      ∃ d, Event.logged x d ∈ w.log ∧ ∀ d' b, Sent (d'.query x) b w.log → d' = d := by
  obtain ⟨hwf, hagreed, hhanded⟩ := handed_of_run hboot hrun
  rintro ⟨b, rep⟩ branch hprepared hbranch _
  obtain ⟨call, i, acked, hmem⟩ := id hprepared
  obtain rfl : rep = false := hhanded.primary call ⟨⟨b, rep⟩, i⟩ x acked true hmem
  have hasked : b ∈ (w.txns t).voted := by
    have hb := hwf.asked x b ⟨call, false, i, acked, true, hmem⟩
    rw [(hwf.txn t).xid_id x hxid] at hb
    exact hb
  rcases hhanded.resolved t (hhanded.finished t hfinished) x hxid with ⟨b', hb', hnot⟩ | ⟨d, hd⟩ | ⟨d, hall⟩
  · exact absurd (hvotes ⟨_, hprepared⟩ b' hb') hnot
  · exact ⟨d, hd, fun d' b' hsent => hagreed.single x d' d hsent.decides ⟨_, hd, rfl⟩⟩
  · have hnone := hhanded.gone x d ⟨b, false⟩ (hall b hasked)
    cases hnone.symm.trans hbranch

/-- The connection is lost before the server reads the command. -/
def lost : Choice := { fault := some ⟨false, true, 2013⟩ }

/-- Backend `b` is out of reach from the first `XA COMMIT` to it on: its branch stays prepared and the
retry log has the commit. -/
theorem prepared_branch_recorded_insert : ∃ p w branch,
    Prog.Steps exec (process insertTasks 1) emptyWorld p w ∧ (w.txns 1).finished = true ∧
    (w.servers ⟨"b", false⟩).branches firstXid = some branch ∧ branch.state = .prepared ∧
    ∃ d, Event.logged firstXid d ∈ w.log ∧ ∀ d' b, Sent (d'.query firstXid) b w.log → d' = d := by
  obtain ⟨p, w, hrun, hcheck⟩ := Prog.exists_steps exec
    (turns 82 [] ++ List.replicate 64 ([], lost)) (p := process insertTasks 1) (s := emptyWorld)
    (fun _ w => (w.txns 1).finished = true ∧ (w.txns 1).xid = some firstXid ∧
      (w.txns 1).voted = ["a", "b"] ∧
      (w.servers ⟨"b", false⟩).branches firstXid = some ⟨.prepared, none, ["insert b"]⟩ ∧
      ∀ b ∈ ["a", "b"], Event.query none ⟨⟨b, false⟩, 0⟩ (.xaPrepare firstXid) true true ∈ w.log)
    (by decide +kernel)
  obtain ⟨hfinished, hxid, hvoted, hbranch, hacked⟩ := of_decide_eq_true hcheck
  have hvotes : ∀ b ∈ (w.txns 1).voted, Acked (.xaPrepare firstXid) b w.log := by
    intro b hb
    rw [hvoted] at hb
    exact ⟨none, false, 0, true, hacked b hb⟩
  exact ⟨p, w, _, hrun, hfinished, hbranch, rfl, prepared_branch_recorded boot_emptyWorld hrun hfinished hxid
    (fun _ => hvotes) _ _ ⟨none, 0, true, hacked "b" (by decide)⟩ hbranch rfl⟩

/-- `XA PREPARE` fails on backend `b` after backend `a` has carried it out: the commit is given up, and the
prepared branch on `a` is recorded nowhere. -/
theorem prepared_branch_orphaned : ∃ p w branch,
    Prog.Steps exec (process insertTasks 1) emptyWorld p w ∧ (w.txns 1).finished = true ∧
    (w.txns 1).xid = some firstXid ∧ PreparedOn firstXid ⟨"a", false⟩ w.log ∧
    (w.servers ⟨"a", false⟩).branches firstXid = some branch ∧ branch.state = .prepared ∧
    w.retrys = [] ∧ ∀ d, Event.logged firstXid d ∉ w.log := by
  obtain ⟨p, w, hrun, hcheck⟩ := Prog.exists_steps exec
    (turns 70 [] ++ [([], lost)] ++ turns 25 []) (p := process insertTasks 1) (s := emptyWorld)
    (fun _ w => (w.txns 1).finished = true ∧ (w.txns 1).xid = some firstXid ∧
      Event.query none ⟨⟨"a", false⟩, 0⟩ (.xaPrepare firstXid) true true ∈ w.log ∧
      (w.servers ⟨"a", false⟩).branches firstXid = some ⟨.prepared, none, ["insert a"]⟩ ∧
      w.retrys = [] ∧ Event.logged firstXid .commit ∉ w.log ∧ Event.logged firstXid .rollback ∉ w.log)
    (by decide +kernel)
  obtain ⟨hfinished, hxid, hprepared, hbranch, hretrys, hcommit, hrollback⟩ := of_decide_eq_true hcheck
  refine ⟨p, w, _, hrun, hfinished, hxid, ⟨none, 0, true, hprepared⟩, hbranch, rfl, hretrys, fun d => ?_⟩
  cases d
  · exact hcommit
  · exact hrollback

/-- The branches of a transaction in every run of a process: they are opened and prepared only where the
transaction takes part, and a server that has accepted the decision has no branch with the xid any more. -/
theorem branch_lifecycle (hboot : Boot w₀) (hrun : Prog.Steps exec (process tasks n) w₀ prog w) (x : Xid) :
    (∀ b, Sent (.xaStart x) b w.log → b ∈ (w.txns x.id).parts ∧ b ∈ (w.txns x.id).backends.names) ∧
    (∀ call c acked applied, Event.query call c (.xaPrepare x) acked applied ∈ w.log →
      c.pool.replica = false ∧ c.pool.backend ∈ (w.txns x.id).voted) ∧
    ∀ d p, AckedBy (Decision.query d x) p w.log → (w.servers p).branches x = none := by
  obtain ⟨hwf, hagreed, hhanded⟩ := handed_of_run hboot hrun
  refine ⟨fun b hb => ?_, fun call c acked applied hmem => ⟨hhanded.primary call c x acked applied hmem, ?_⟩,
    hhanded.gone x⟩
  · have hpart := hagreed.started x b hb
    exact ⟨hpart, (hwf.txn x.id).parts_mem b hpart⟩
  · exact hwf.asked x _ ⟨call, c.pool.replica, c.index, acked, applied, hmem⟩

/-- The first backend has committed its branch and the second one is still to follow. -/
theorem branch_lifecycle_insert : ∃ p w, Prog.Steps exec (process insertTasks 2) emptyWorld p w ∧
    (w.servers ⟨"b", false⟩).branches firstXid ≠ none ∧ (w.servers ⟨"a", false⟩).branches firstXid = none := by
  obtain ⟨p, w, hrun, hcheck⟩ := Prog.exists_steps exec (turns 81 []) (p := process insertTasks 2)
    (s := emptyWorld) (fun _ w => (w.servers ⟨"b", false⟩).branches firstXid ≠ none ∧
      Event.query none ⟨⟨"a", false⟩, 0⟩ (.xaCommit firstXid) true true ∈ w.log) (by decide +kernel)
  obtain ⟨hb, hacked⟩ := of_decide_eq_true hcheck
  exact ⟨p, w, hrun, hb, (branch_lifecycle boot_emptyWorld hrun firstXid).2.2 .commit _ ⟨_, _, _, hacked⟩⟩

end Radon
