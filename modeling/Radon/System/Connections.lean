import Radon.System.Accounting

/-!
# Connections are released exactly once

A connection that a transaction obtained is released when it is replaced during a commit retry, or by
`Finish`, or by `Abort`. The collections of the transaction and its state keep these apart, unless an
abort comes while a connection is on its way into the transaction, or one is stored over another. The deadline
of a query kills a connection that `Finish` recycles as well.
-/

namespace Radon

open Concurrency

variable {w w' : World} {t : TxnId}

/-- The operations that may change a connection. -/
def Op.Serves : Op → Prop
  | .twopcDrop _ _ => True
  | .poolGet _ _ _ => True
  | .close _ => True
  | .recycle _ => True
  | .kill _ _ => True
  | .query _ _ _ => True
  | .deadline _ _ => True
  | _ => False

variable {o : Op} {choice : Choice} {r : o.Res} {g : Goroutine}

theorem servers_step (ho : ¬ o.Serves) (hrun : exec o choice w = some (r, w')) : w'.servers = w.servers := by
  cases exec_outcome hrun with
  | twopcDrop | poolGet | close | recycle | kill | killFailed | query | deadline => exact absurd trivial ho
  | twopcPut t b c k => split <;> rfl
  | _ => rfl

/-- What is known of a transaction that has been removed from the manager. -/
structure Settled (w : World) : Prop where
  gone : ∀ t, 0 < (w.txns t).removed → (w.txns t).stage = .ended ∨ 0 < (w.txns t).aborts
  released : ∀ t, 0 < (w.txns t).removed → ¬ Disturbed t w.log →
    ∀ c, (w.conn c).holder = some t → w.released c = 1
  unclean : ∀ t clean, Event.abortSees t .aborting clean ∈ w.log → clean = false

/-- The connections of a transaction stay as they are. -/
def SameHeld (t : TxnId) (w w' : World) : Prop :=
  ∀ c, (w'.conn c).holder = some t → (w.conn c).holder = some t ∧ w'.released c = w.released c

theorem SameHeld.of_servers (h : w'.servers = w.servers) : SameHeld t w w' := by
  intro c hc
  grind [World.conn, World.released]

/-- A change of one connection leaves those of the other transactions alone. -/
theorem World.Touches.sameHeld {n : ℕ} {c : Conn} {t' : TxnId} (h : w.Touches n c w')
    (hc : (w.conn c).holder = some t') (hne : t' ≠ t ∨ n = 0) : SameHeld t w w' := by
  intro c' hc'
  rw [h.holder_iff] at hc'
  refine ⟨hc', ?_⟩
  by_cases heq : c' = c
  · grind [released]
  · rw [World.released, World.released, h.other c' heq]

/-- Once a transaction has been removed, nobody touches its connections without disturbing it. -/
theorem Settled.sameHeld (h : Settled w) (hw : Wf w) (hallow : Allowed g o w) (hrun : exec o choice w = some (r, w'))
    (hgone : 0 < (w.txns t).removed) (hcalm : ¬ Disturbed t w'.log) : SameHeld t w w' := by
  have hcalm' : ¬ Disturbed t w.log := fun hd => hcalm (hd.mono (guar_step hw hallow hrun).log)
  have hheld := h.released t hgone hcalm'
  have hlate : (w.txns t).stage ≠ .ended → Event.connMove t (0 < (w.txns t).aborts) ∉ w'.log := by
    intro hstage hmem
    rw [decide_eq_true ((h.gone t hgone).resolve_left hstage)] at hmem
    exact hcalm (.inr (.inr (.inl hmem)))
  have hother : ∀ {c t'}, (w.conn c).holder = some t' → Disturbed t' w.log ∨ w.released c = 0 → t' ≠ t := by
    grind
  by_cases ho : o.Serves
  · cases exec_outcome hrun with
    | same | killFailed => exact .of_servers rfl
    | @twopcDrop t' b c hb =>
      have htouch : w.Touches 1 c (((w.closeConn c).updTxn t' fun txn => txn.deleteTwopc b).connMoved t') :=
        have h := (w.touches_released c).1
        ⟨h.issued, h.other, h.holder, h.released⟩
      refine htouch.sameHeld (hw.placed t' c (.inr (.inl ⟨b, hb⟩))) (.inl fun heq => ?_)
      subst heq
      refine hlate hallow.2.2 (List.mem_cons.mpr (.inl ?_))
      rw [World.updTxn_self]
      rfl
    | poolGet t' p k =>
      have hne : t' ≠ t := by
        rintro rfl
        refine hlate hallow.2.2 (List.mem_cons.mpr (.inl ?_))
        rw [World.updTxn_self]
        rfl
      intro c hc
      have hconn : (((w.updServer p fun s => s.issue t').updTxn t' fun txn =>
          txn.take ⟨p, (w.servers p).issued⟩ k).connMoved t').conn c = _ :=
        conn_issue (w := w) (t := t') p c
      rw [World.released, World.released, hconn]
      grind
    | close c =>
      obtain ⟨t', hc, _, hfree⟩ := hallow
      exact (w.touches_released c).1.sameHeld hc (.inl (hother hc hfree))
    | recycle c =>
      obtain ⟨t', hc, _, hfree⟩ := hallow
      exact (w.touches_recycleConn c).sameHeld hc (.inl (hother hc hfree))
    | kill t' c => exact (w.touches_released c).2.sameHeld hallow.1 (.inl (hother hallow.1 hallow.2.2))
    | deadline t' c =>
      refine (w.touches_deadline t' c).sameHeld hallow (.inl fun heq => ?_)
      subst heq
      exact hcalm (disturbed_of_deadline List.mem_cons_self)
    | query call c q hquery =>
      obtain ⟨⟨t', hc, _⟩, _⟩ := hallow
      obtain ⟨s', acked, applied, htouch, rfl, _⟩ := World.runQuery_spec hquery
      exact (World.Touches.of_server rfl htouch).sameHeld hc (.inr rfl)
    | _ => exact ho.elim
  · exact .of_servers (servers_step ho hrun)

/-- Only the manager's removal makes a transaction count as removed. -/
theorem removed_step (hw : Wf w) (hallow : Allowed g o w) (hrun : exec o choice w = some (r, w'))
    (hgone : 0 < (w'.txns t).removed) : o = .mgrRemove t ∨ 0 < (w.txns t).removed ∧
      ((w.txns t).stage = .ended ∨ 0 < (w.txns t).aborts → (w'.txns t).stage = .ended ∨ 0 < (w'.txns t).aborts) := by
  by_cases ho : o.Counts
  · have hrecord : ∀ (t' : TxnId) {txn' : Txn}, w'.txns = Function.update w.txns t' txn' →
        txn'.removed = (w.txns t').removed →
        ((w.txns t').stage = .ended ∨ 0 < (w.txns t').aborts → txn'.stage = .ended ∨ 0 < txn'.aborts) →
        0 < (w.txns t).removed ∧ ((w.txns t).stage = .ended ∨ 0 < (w.txns t).aborts →
          (w'.txns t).stage = .ended ∨ 0 < (w'.txns t).aborts) := by
      intro t' txn' htxns hremoved hfate
      rw [htxns] at hgone ⊢
      by_cases heq : t = t'
      · grind
      · grind
    cases exec_outcome hrun with
    | same => exact .inr ⟨hgone, id⟩
    | newTxn k bs => grind [Consistent.unborn, Wf.toConsistent, World.updTxn]
    | mgrRemove t' => grind [World.updTxn_of_ne]
    | commitLock t' d =>
      refine .inr (hrecord _ rfl rfl fun h => .inr (h.resolve_left fun hs => ?_))
      cases hs.symm.trans hallow.2.1
    | mgrAdd | setState => exact .inr (hrecord _ rfl rfl id)
    | abortCheck t' =>
      refine .inr (hrecord _ rfl rfl (Or.imp id fun h => ?_))
      grind [Txn.abortCheck]
    | lockMu t' who =>
      cases who with
      | finish k => exact .inr (hrecord _ rfl rfl fun _ => .inl rfl)
      | _ => exact .inr (hrecord _ rfl rfl id)
    | unlockMu t' =>
      refine .inr (hrecord t' rfl ?_ ?_)
      · unfold Txn.unlock
        split <;> rfl
      · unfold Txn.unlock
        split <;> exact id
    | _ => exact ho.elim
  · have hmarks := (marks_step ho hrun).1 t
    grind [Txn.marks]

theorem settled_step (hw : Wf w)
    (hallow : Allowed g o w) (hrun : exec o choice w = some (r, w')) (h : Settled w) : Settled w' := by
  constructor
  · intro t hgone
    rcases removed_step hw hallow hrun hgone with rfl | ⟨hgone', hfate⟩
    · cases hrun
      have hself := World.updTxn_self w t Txn.remove
      rcases hallow.1.1 with hmu | ⟨_, haborts⟩
      · exact .inl ((congrArg Txn.stage hself).trans ((hw.txn t).mu_finish g hmu).2)
      · grind [Txn.remove]
    · exact hfate (h.gone t hgone')
  · intro t hgone hcalm c hc
    have hcalm' : ¬ Disturbed t w.log := fun hd => hcalm (hd.mono (guar_step hw hallow hrun).log)
    rcases removed_step hw hallow hrun hgone with rfl | ⟨hgone', _⟩
    · cases hrun
      exact hallow.2.2.resolve_left hcalm' c hc
    · obtain ⟨hc', hsame⟩ := h.sameHeld hw hallow hrun hgone' hcalm c hc
      rw [hsame]
      exact h.released t hgone' hcalm' c hc'
  · intro t clean hmem
    obtain ⟨es, hlog, hes⟩ := emits_step hrun
    rw [hlog] at hmem
    rcases List.mem_append.mp hmem with hmem | hmem
    · have hemit := hes _ hmem
      cases o with
      | abortCheck t' => grind [TxnWf.aborting, Consistent.txn, Wf.toConsistent, Txn.clean, Op.Emits]
      | _ => simp [Op.Emits] at hemit
    · exact h.unclean t clean hmem

theorem Boot.settled (h : Boot w) : Settled w := by
  have htxn : ∀ t, w.txns t = {} := fun t => congrFun h.txns t
  constructor
  · intro t hgone
    rw [htxn] at hgone
    cases hgone
  · intro t hgone
    rw [htxn] at hgone
    cases hgone
  · intro t clean hmem
    rw [h.log] at hmem
    cases hmem

/-- Once `Finish` has returned, every connection that the transaction obtained has been released exactly
once, unless an abort got in the way of its connections. -/
theorem released_exactly_once {tasks : ℕ → Task} {n : ℕ} {w₀ : World} {p : Go (List Unit)} (hboot : Boot w₀)
    (hrun : Prog.Steps exec (process tasks n) w₀ p w) (hfinished : (w.txns t).finished = true)
    (hcalm : ¬ Disturbed t w.log) (c : Conn) (hc : (w.conn c).holder = some t) :
    (w.conn c).recycled + (w.conn c).closed + (w.conn c).killed = 1 := by
  have h := process_invariant
    (I := fun w => Settled w ∧ ∀ t, ¬ Recounted t w.log → Counted (w.txns t))
    (fun g o c w r w' hw hallow hrun h =>
      ⟨settled_step hw hallow hrun h.1, counted_step hw hallow hrun h.2⟩)
    hboot ⟨hboot.settled, fun t _ => hboot.counted t⟩ hrun
  have hcounted : Counted (w.txns t) := by
    refine h.2 t fun hbad => hcalm ?_
    rcases hbad with ho | ⟨clean, hmem⟩
    · exact .inl ho
    · obtain rfl := h.1.unclean t clean hmem
      exact .inr (.inl ⟨.aborting, nofun, hmem⟩)
  refine h.1.released t ?_ hcalm c hc
  rw [hcounted.ended (.inl hfinished)]
  exact Nat.one_pos

/-- A session checks a table on one backend, and another session kills it. -/
def checkKillTasks : ℕ → Task
  | 0 => .client [.tables [.ok (.others "check table t" [⟨"check table t", "a"⟩])]]
  | _ => .client [.kill 0]

/-- An event that `Disturbed` looks for. -/
def Event.disturbs : Event → Bool
  | .stateSet _ .aborting s => s ≠ .aborting
  | .abortSees _ s clean => s ≠ .finshing && !clean
  | .connMove _ afterAbort => afterAbort
  | .overwrite _ _ => true
  | .killFailed _ => true
  | .deadline _ => true
  | _ => false

theorem not_disturbed {log : List Event} (h : log.any Event.disturbs = false) (t : TxnId) :
    ¬ Disturbed t log := by grind [Disturbed, Overwritten, Event.disturbs]

/-- The session is killed when its connection has been stored: the abort kills the connection, and `Finish`
leaves it alone. -/
theorem released_exactly_once_killed : ∃ p w c, Prog.Steps exec (process checkKillTasks 2) emptyWorld p w ∧
    (w.txns 1).finished = true ∧ (w.txns 1).aborted = true ∧ (w.conn c).holder = some 1 ∧
    (w.conn c).recycled + (w.conn c).closed + (w.conn c).killed = 1 := by
  obtain ⟨p, w, hrun, hcheck⟩ := Prog.exists_steps exec
    (turns 16 [true] ++ turns 16 [false, true] ++ turns 10 []) (p := process checkKillTasks 2)
    (s := emptyWorld) (fun _ w => w.log.any Event.disturbs = false ∧
      (w.txns 1).finished = true ∧ (w.txns 1).aborted = true ∧ (w.conn ⟨⟨"a", false⟩, 0⟩).holder = some 1)
    (by decide +kernel)
  obtain ⟨hcalm, hfinished, haborted, hheld⟩ := of_decide_eq_true hcheck
  exact ⟨p, w, _, hrun, hfinished, haborted, hheld,
    released_exactly_once boot_emptyWorld hrun hfinished (not_disturbed hcalm 1) _ hheld⟩

/-- The session is killed when its connection has left the pool and is not stored yet. The abort does not
find the connection, and `Finish` returns without looking. -/
theorem never_released : ∃ p w c, Prog.Steps exec (process checkKillTasks 2) emptyWorld p w ∧
    (w.txns 1).finished = true ∧ (w.conn c).holder = some 1 ∧
    (w.conn c).recycled + (w.conn c).closed + (w.conn c).killed = 0 := by
  obtain ⟨p, w, hrun, hcheck⟩ := Prog.exists_steps exec
    (turns 15 [true] ++ turns 15 [false, true] ++ turns 10 []) (p := process checkKillTasks 2)
    (s := emptyWorld) (fun _ w => (w.txns 1).finished = true ∧
      (w.conn ⟨⟨"a", false⟩, 0⟩).holder = some 1 ∧ (w.conn ⟨⟨"a", false⟩, 0⟩).released = 0)
    (by decide +kernel)
  exact ⟨p, w, _, hrun, of_decide_eq_true hcheck⟩

end Radon
