import Mathlib.Algebra.Order.BigOperators.Group.Finset
import Radon.Proxy.SpannerSpec

/-!
# Transaction accounting

The manager counts the transactions that have been created and not removed. `Finish` and `Abort` decide
through the state of the transaction which of them removes it. This works as long as the owner does not
write over the state that an abort has left, and no second abort follows the first one.
-/

namespace Radon

open Concurrency Function

variable {w w' : World} {t : TxnId} {txn : Txn} {log : List Event}

/-- What a transaction contributes to the manager's count. -/
def Txn.balance (txn : Txn) : ℤ := txn.added.toNat - txn.removed

/-- The manager's count is what has been added and not removed. -/
def Balanced (w : World) : Prop := w.txnNums = ∑ t ∈ Finset.range (w.txnid + 1), (w.txns t).balance

theorem Balanced.of_same (h : Balanced w) (hnums : w'.txnNums = w.txnNums) (hid : w'.txnid = w.txnid)
    (hbalance : ∀ t, (w'.txns t).balance = (w.txns t).balance) : Balanced w' := by grind [Balanced]

variable {txn' : Txn} {o : Op} {choice : Choice} {r : o.Res} {g : Goroutine}

/-- A change of one transaction changes the count by the same amount. -/
theorem Balanced.of_record (h : Balanced w) (ht : t ≤ w.txnid)
    (htxns : w'.txns = update w.txns t txn') (hid : w'.txnid = w.txnid)
    (hnums : w'.txnNums = w.txnNums + (txn'.balance - (w.txns t).balance)) : Balanced w' := by
  have hmem : t ∈ Finset.range (w.txnid + 1) := Finset.mem_range.mpr (Nat.lt_succ_of_le ht)
  have hsplit : ∀ f : TxnId → ℤ, f t + ∑ t' ∈ (Finset.range (w.txnid + 1)).erase t, f t' =
      ∑ t' ∈ Finset.range (w.txnid + 1), f t' := fun f => Finset.add_sum_erase _ f hmem
  have hold := hsplit fun t' => (w.txns t').balance
  have hnew := hsplit fun t' => (w'.txns t').balance
  have hrest : ∑ t' ∈ (Finset.range (w.txnid + 1)).erase t, (w'.txns t').balance =
      ∑ t' ∈ (Finset.range (w.txnid + 1)).erase t, (w.txns t').balance := by
    refine Finset.sum_congr rfl fun t' ht' => ?_
    rw [htxns, update_of_ne (Finset.ne_of_mem_erase ht')]
  have hself : w'.txns t = txn' := by rw [htxns, update_self]
  rw [hrest, hself] at hnew
  unfold Balanced at h ⊢
  rw [hid]
  omega

/-- The fields of a record that show how far the transaction has come. -/
structure Marks where
  state : TxnState
  mu : Option MuHolder
  progress : Section
  added : Bool
  removed : ℕ
  finished : Bool
  aborted : Bool
  stage : Stage
  aborts : ℕ

/-- The marks of a record. -/
def Txn.marks (txn : Txn) : Marks :=
  ⟨txn.state, txn.mu, txn.progress, txn.added, txn.removed, txn.finished, txn.aborted, txn.stage, txn.aborts⟩

/-- The operations that change the marks or the manager's count. -/
def Op.Counts : Op → Prop
  | .newTxn _ _ => True
  | .mgrAdd _ => True
  | .mgrRemove _ => True
  | .commitLock _ _ => True
  | .setState _ _ => True
  | .abortCheck _ => True
  | .lockMu _ _ => True
  | .unlockMu _ => True
  | _ => False

theorem marks_update (htxns : w'.txns = update w.txns t txn')
    (hmarks : txn'.marks = (w.txns t).marks) (t' : TxnId) : (w'.txns t').marks = (w.txns t').marks := by
  rw [htxns]
  grind

/-- The other operations change neither the marks nor the counters. -/
theorem marks_step (ho : ¬ o.Counts) (hrun : exec o choice w = some (r, w'))
    : (∀ t, (w'.txns t).marks = (w.txns t).marks) ∧ w'.txnNums = w.txnNums ∧ w'.txnid = w.txnid := by
  cases exec_outcome hrun with
  | newTxn | mgrAdd | mgrRemove | commitLock | setState | abortCheck | lockMu | unlockMu => exact absurd trivial ho
  | writeTxn t u => exact ⟨marks_update rfl (by cases u <;> rfl), rfl, rfl⟩
  | twopcPut t b c k => split <;> exact ⟨marks_update rfl rfl, rfl, rfl⟩
  | twopcDrop | twopcDelete | appendNormal | appendReplica | poolGet => exact ⟨marks_update rfl rfl, rfl, rfl⟩
  | query call c q h => grind [World.runQuery_spec]
  | _ => exact ⟨fun _ => rfl, rfl, rfl⟩

theorem balanced_step (hw : Wf w)
    (hallow : Allowed g o w) (hrun : exec o choice w = some (r, w')) (h : Balanced w) : Balanced w' := by
  by_cases ho : o.Counts
  · have hsame : ∀ {t : TxnId} {txn' : Txn}, w'.txns = update w.txns t txn' →
        txn'.added = (w.txns t).added → txn'.removed = (w.txns t).removed → w'.txnNums = w.txnNums →
        w'.txnid = w.txnid → Balanced w' := by
      intro t txn' htxns hadded hremoved hnums hid
      refine h.of_same hnums hid fun t' => ?_
      rw [htxns]
      by_cases heq : t' = t
      · grind [Txn.balance]
      · rw [update_of_ne heq]
    cases exec_outcome hrun with
    | same => exact h
    | newTxn k bs =>
      unfold Balanced at h ⊢
      dsimp only
      rw [Finset.sum_range_succ, World.updTxn_self]
      refine (h.trans (Finset.sum_congr rfl fun t ht => ?_)).trans (add_zero _).symm
      rw [World.updTxn_of_ne _ (Nat.ne_of_lt (Finset.mem_range.mp ht))]
    | mgrAdd t =>
      refine h.of_record (hw.le_of_owner hallow.1) rfl rfl ?_
      simp [Txn.balance, hallow.2]
    | mgrRemove t =>
      obtain ⟨o, ho⟩ := Option.ne_none_iff_exists'.mp ((hw.txn t).owned hallow.2.1)
      refine h.of_record (hw.le_of_owner ho) rfl rfl ?_
      change w.txnNums - 1 = _
      simp only [Txn.balance, Txn.remove]
      omega
    | commitLock | setState | abortCheck => exact hsame rfl rfl rfl rfl rfl
    | lockMu t who => cases who <;> exact hsame rfl rfl rfl rfl rfl
    | unlockMu t => grind [Txn.unlock, World.updTxn]
    | _ => exact ho.elim
  · grind [marks_step, Txn.marks, Balanced, Txn.balance]

/-- The owner wrote over the state of an abort, or an abort found the state of an earlier one. -/
def Recounted (t : TxnId) (log : List Event) : Prop :=
  Overwritten t log ∨ ∃ clean, Event.abortSees t .aborting clean ∈ log

theorem Recounted.mono {log' : List Event} (hlog : log <:+ log') (h : Recounted t log) : Recounted t log' := by
  grind [Overwritten, Recounted]

/-- `Finish` or `Abort` holds the mutex. -/
def Txn.InSection (txn : Txn) : Prop := ∃ g, txn.mu = some (.finish g) ∨ txn.mu = some (.abort g)

/-- `Finish` or `Abort` is past its check. -/
def Txn.Busy (txn : Txn) : Prop := txn.InSection ∧ txn.progress ≠ .entered

/-- While nobody is busy with the transaction, its state tells whether it has been removed. -/
structure Counted (txn : Txn) : Prop where
  once : txn.removed ≤ 1
  added : 0 < txn.removed → txn.added = true
  resting : ¬ txn.Busy → (Txn.ending txn.state = true ↔ txn.removed = 1)
  claimed : txn.InSection → txn.progress = .claimed → txn.removed = 0
  gone : txn.InSection → txn.progress = .removed → txn.removed = 1
  ended : txn.finished = true ∨ txn.aborted = true → txn.removed = 1
  entering : ∀ g, txn.mu = some (.finish g) → txn.progress = .entered → txn.state ≠ .finshing

theorem Counted.of_marks (h : Counted txn) (hmarks : txn'.marks = txn.marks) : Counted txn' := by
  have hstate : txn'.state = txn.state := congrArg Marks.state hmarks
  have hmu : txn'.mu = txn.mu := congrArg Marks.mu hmarks
  have hprogress : txn'.progress = txn.progress := congrArg Marks.progress hmarks
  have hadded : txn'.added = txn.added := congrArg Marks.added hmarks
  have hremoved : txn'.removed = txn.removed := congrArg Marks.removed hmarks
  have hfinished : txn'.finished = txn.finished := congrArg Marks.finished hmarks
  have haborted : txn'.aborted = txn.aborted := congrArg Marks.aborted hmarks
  constructor
  · rw [hremoved]; exact h.once
  · rw [hremoved, hadded]; exact h.added
  · grind [resting, Txn.Busy, Txn.InSection]
  · rw [Txn.InSection, hmu, hprogress, hremoved]; exact h.claimed
  · rw [Txn.InSection, hmu, hprogress, hremoved]; exact h.gone
  · rw [hfinished, haborted, hremoved]; exact h.ended
  · rw [hmu, hprogress, hstate]; exact h.entering

theorem Counted.lock {who : MuHolder} {log : List Event} (h : Counted txn) (hwf : TxnWf t txn)
    (hfree : txn.mu = none) (hallow : LockAllowed g txn log who) : Counted (txn.lock who) := by
  have hrest : Txn.ending txn.state = true ↔ txn.removed = 1 := by grind [resting, Txn.Busy, Txn.InSection]
  cases who with
  | execute k =>
    refine ⟨h.once, h.added, fun _ => hrest, ?_, ?_, h.ended, nofun⟩
    · rintro ⟨_, hmu | hmu⟩ <;> cases hmu
    · rintro ⟨_, hmu | hmu⟩ <;> cases hmu
  | finish k =>
    refine ⟨h.once, h.added, fun _ => hrest, nofun, nofun, h.ended, fun _ _ _ hs => ?_⟩
    exact hallow.2.2.1 (hwf.finshing hs)
  | abort k => exact ⟨h.once, h.added, fun _ => hrest, nofun, nofun, h.ended, nofun⟩

theorem Counted.unlock (h : Counted txn) (hmarked : Marked t txn log)
    (hgood : ¬ Recounted t log) (hallow : UnlockAllowed g txn) : Counted txn.unlock := by
  have hleft : txn.InSection → Txn.ending txn.state = true ∧ txn.removed = 1 := by
    rintro ⟨k, hk⟩
    have hbusy : ∀ {k}, txn.mu = some (.finish k) ∨ txn.mu = some (.abort k) → txn.progress = .removed →
        Txn.ending txn.state = true ∧ txn.removed = 1 := by
      intro k hmu hp
      refine ⟨(hmarked k hmu ?_).resolve_right fun ho => hgood (.inl ho), h.gone ⟨k, hmu⟩ hp⟩
      rw [hp]
      exact Section.noConfusion
    grind [resting, Txn.ending, Txn.Busy, UnlockAllowed]
  have hrest : Txn.ending txn.state = true ↔ txn.removed = 1 := by grind [resting, Txn.Busy]
  have hfree : ∀ {txn' : Txn}, txn'.mu = none → ¬ txn'.InSection := by grind [Txn.InSection]
  have hopen (k : Goroutine) : none ≠ some (MuHolder.finish k) := (Option.some_ne_none _).symm
  unfold Txn.unlock
  split
  · rename_i k hmu
    exact ⟨h.once, h.added, fun _ => hrest, fun hs => absurd hs (hfree rfl), fun hs => absurd hs (hfree rfl),
      fun _ => (hleft ⟨k, .inl hmu⟩).2, fun g hg => absurd hg (hopen g)⟩
  · rename_i k hmu
    exact ⟨h.once, h.added, fun _ => hrest, fun hs => absurd hs (hfree rfl), fun hs => absurd hs (hfree rfl),
      fun _ => (hleft ⟨k, .inr hmu⟩).2, fun g hg => absurd hg (hopen g)⟩
  · exact ⟨h.once, h.added, fun _ => hrest, fun hs => absurd hs (hfree rfl), fun hs => absurd hs (hfree rfl),
      h.ended, fun g hg => absurd hg (hopen g)⟩

theorem Counted.setState {s : TxnState} (h : Counted txn) (hwf : TxnWf t txn) (hallow : StateAllowed g t txn log s)
    (hgood : ¬ Recounted t (.stateSet t txn.state s :: log)) : Counted (txn.setState s) := by
  -- the one who claims the transaction finds that it has not been removed
  have hclaim : txn.InSection → txn.progress = .entered → ¬ Txn.ending txn.state = true →
      Txn.ending s = true → Counted (txn.setState s) := by
    intro hsec hp hlive hs
    have hzero : txn.removed = 0 := by grind [resting, once, Txn.Busy]
    have hprogress : (txn.setState s).progress = .claimed := if_pos hs
    refine ⟨h.once, h.added, fun hno => ?_, fun _ _ => hzero, fun _ hp' => ?_, h.ended, fun _ _ hp' => ?_⟩
    · refine absurd ⟨hsec, ?_⟩ hno
      rw [hprogress]
      exact nofun
    · cases hprogress.symm.trans hp'
    · cases hprogress.symm.trans hp'
  rcases hallow with ⟨_, hstage, hs⟩ | ⟨hmu, hp, rfl, hne⟩ | ⟨hmu, hp, rfl, hne, _, hagain⟩
  · have hprogress : (txn.setState s).progress = txn.progress := if_neg (by rw [hs]; exact nofun)
    have hlive : ¬ Txn.ending txn.state = true := by
      intro hend
      rcases Txn.ending_iff.mp hend with hf | ha
      · exact hstage (hwf.finshing hf)
      · refine hgood (.inl ⟨s, fun heq => ?_, ?_⟩)
        · rw [heq] at hs
          cases hs
        · rw [ha]
          exact List.mem_cons_self
    refine ⟨h.once, h.added, fun hno => ?_, fun hsec hp => h.claimed hsec (hprogress ▸ hp),
      fun hsec hp => h.gone hsec (hprogress ▸ hp), h.ended, fun _ _ _ heq => ?_⟩
    · grind [resting, Txn.Busy, Txn.InSection, Txn.setState]
    · grind [Txn.ending, Txn.setState]
  · refine hclaim ⟨g, .inl hmu⟩ hp (fun hend => ?_) rfl
    grind [Txn.ending_iff, entering]
  · refine hclaim ⟨g, .inr hmu⟩ hp (fun hend => ?_) rfl
    rcases Txn.ending_iff.mp hend with hf | ha
    · exact hne hf
    · exact hgood (.inr ⟨false, List.mem_cons_of_mem _ (hagain ha)⟩)

theorem Counted.remove (h : Counted txn) (hallow : Releasing g txn)
    (hadded : txn.added = true) : Counted txn.remove := by
  have hsec : txn.InSection := ⟨g, hallow.1.imp id And.left⟩
  have hzero := h.claimed hsec hallow.2
  have hone : txn.remove.removed = 1 := congrArg (· + 1) hzero
  refine ⟨Nat.le_of_eq hone, fun _ => hadded, fun hno => absurd ⟨hsec, nofun⟩ hno, nofun, fun _ _ => hone,
    fun _ => hone, nofun⟩

theorem counted_step (hw : Wf w) (hallow : Allowed g o w) (hrun : exec o choice w = some (r, w'))
    (h : ∀ t, ¬ Recounted t w.log → Counted (w.txns t)) (t : TxnId) (hgood : ¬ Recounted t w'.log) :
    Counted (w'.txns t) := by
  have hold : Counted (w.txns t) := h t fun hbad => hgood (hbad.mono (guar_step hw hallow hrun).log)
  by_cases ho : o.Counts
  · have hrecord : ∀ (t' : TxnId) {txn' : Txn}, w'.txns = update w.txns t' txn' →
        (t = t' → Counted txn') → Counted (w'.txns t) := by
      intro t' txn' htxns hnew
      rw [htxns]
      by_cases heq : t = t'
      · subst heq
        rw [update_self]
        exact hnew rfl
      · rw [update_of_ne heq]
        exact hold
    cases exec_outcome hrun with
    | same => exact hold
    | newTxn k bs => grind [Counted.of_marks, Consistent.unborn, Wf.toConsistent, World.updTxn, Txn.marks]
    | mgrAdd t' =>
      refine hrecord _ rfl fun heq => ?_
      subst heq
      exact { hold with added := fun _ => rfl }
    | mgrRemove t' =>
      refine hrecord _ rfl fun heq => ?_
      subst heq
      exact hold.remove hallow.1 hallow.2.1
    | commitLock t' d =>
      refine hrecord _ rfl fun heq => ?_
      subst heq
      exact { hold with }
    | setState t' s =>
      refine hrecord _ rfl fun heq => ?_
      subst heq
      exact hold.setState (hw.txn t) hallow hgood
    | abortCheck t' =>
      refine hrecord _ rfl fun heq => ?_
      subst heq
      exact { hold with }
    | lockMu t' who hfree =>
      refine hrecord _ rfl fun heq => ?_
      subst heq
      exact hold.lock (hw.txn t) hfree hallow
    | unlockMu t' =>
      refine hrecord _ rfl fun heq => ?_
      subst heq
      exact hold.unlock (hw.marked t) hgood hallow
    | _ => exact ho.elim
  · exact hold.of_marks ((marks_step ho hrun).1 t)

theorem Boot.counted (h : Boot w) (t : TxnId) : Counted (w.txns t) := by
  rw [congrFun h.txns t]
  refine ⟨Nat.zero_le _, nofun, fun _ => ⟨nofun, nofun⟩, fun _ _ => rfl, ?_, ?_, nofun⟩
  · rintro ⟨_, hmu | hmu⟩ <;> cases hmu
  · rintro (h | h) <;> cases h

theorem Boot.balanced (h : Boot w) : Balanced w := by
  unfold Balanced
  rw [h.nums]
  refine (Finset.sum_eq_zero fun t _ => ?_).symm
  rw [congrFun h.txns t]
  rfl

/-- A transaction that has been removed at most once does not take the count below zero. -/
theorem Counted.balance_nonneg (h : Counted txn) : 0 ≤ txn.balance := by
  have honce := h.once
  have hadded := h.added
  unfold Txn.balance
  cases ha : txn.added with
  | true =>
    rw [Bool.toNat_true]
    omega
  | false =>
    rw [ha] at hadded
    have : ¬ 0 < txn.removed := fun hpos => nomatch hadded hpos
    rw [Bool.toNat_false]
    omega

theorem Counted.balance_eq_zero (h : Counted txn)
    (hover : txn.added = true → txn.finished = true ∨ txn.aborted = true) : txn.balance = 0 := by
  have hadded := h.added
  unfold Txn.balance
  cases ha : txn.added with
  | true =>
    rw [Bool.toNat_true, h.ended (hover ha)]
    rfl
  | false => grind

/-- In a run in which no state of an abort is written over and no abort meets an earlier one, every
transaction is removed exactly once, so that the manager's count is never negative and is zero when all
transactions are over. -/
theorem removed_exactly_once {tasks : ℕ → Task} {n : ℕ} {w₀ : World} {p : Go (List Unit)} (hboot : Boot w₀)
    (hrun : Prog.Steps exec (process tasks n) w₀ p w) (hgood : ∀ t, ¬ Recounted t w.log) :
    (∀ t, (w.txns t).removed ≤ 1 ∧
      ((w.txns t).finished = true ∨ (w.txns t).aborted = true → (w.txns t).removed = 1)) ∧
    0 ≤ w.txnNums ∧
    ((∀ t, (w.txns t).added = true → (w.txns t).finished = true ∨ (w.txns t).aborted = true) →
      w.txnNums = 0) := by
  have h := process_invariant (I := fun w => Balanced w ∧ ∀ t, ¬ Recounted t w.log → Counted (w.txns t))
    (fun g o c w r w' hw hallow hrun h =>
      ⟨balanced_step hw hallow hrun h.1, counted_step hw hallow hrun h.2⟩)
    hboot ⟨hboot.balanced, fun t _ => hboot.counted t⟩ hrun
  have hcounted : ∀ t, Counted (w.txns t) := fun t => h.2 t (hgood t)
  refine ⟨fun t => ⟨(hcounted t).once, (hcounted t).ended⟩, ?_, fun hover => ?_⟩
  · rw [h.1]
    exact Finset.sum_nonneg fun t _ => (hcounted t).balance_nonneg
  · rw [h.1]
    exact Finset.sum_eq_zero fun t _ => (hcounted t).balance_eq_zero (hover t)

/-- A client that inserts a row, and another one that kills its session. -/
def insertKillTasks : ℕ → Task
  | 0 => .client [.dml false (.ok (.write "insert" [⟨"insert a", "a"⟩]))]
  | _ => .client [.kill 0]

/-- An event that `Recounted` looks for. -/
def Event.recounts : Event → Bool
  | .stateSet _ .aborting s => s ≠ .aborting
  | .abortSees _ .aborting _ => true
  | _ => false

theorem not_recounted (h : log.any Event.recounts = false) (t : TxnId) : ¬ Recounted t log := by
  grind [Recounted, Overwritten, Event.recounts]

/-- The session is killed when its transaction is done and not finished yet: `Finish` leaves the removal
to the abort. -/
theorem removed_exactly_once_killed : ∃ p w, Prog.Steps exec (process insertKillTasks 2) emptyWorld p w ∧
    (w.txns 1).finished = true ∧ (w.txns 1).aborted = true ∧ (w.txns 1).removed = 1 := by
  obtain ⟨p, w, hrun, hcheck⟩ := Prog.exists_steps exec
    (turns 50 [true] ++ turns 15 [false, true] ++ turns 12 []) (p := process insertKillTasks 2)
    (s := emptyWorld) (fun _ w => w.log.any Event.recounts = false ∧
      (w.txns 1).finished = true ∧ (w.txns 1).aborted = true) (by decide +kernel)
  obtain ⟨hgood, hfinished, haborted⟩ := of_decide_eq_true hcheck
  obtain ⟨honce, _, _⟩ := removed_exactly_once boot_emptyWorld hrun (not_recounted hgood)
  exact ⟨p, w, hrun, hfinished, haborted, (honce 1).2 (.inl hfinished)⟩

/-- The session is killed when its transaction has been bound and not used yet. The owner then writes over
the state of the abort, and `Finish` removes the transaction a second time. -/
theorem removed_twice : ∃ p w, Prog.Steps exec (process insertKillTasks 2) emptyWorld p w ∧
    (w.txns 1).removed = 2 ∧ w.txnNums = -1 := by
  obtain ⟨p, w, hrun, hcheck⟩ := Prog.exists_steps exec
    (turns 11 [true] ++ turns 15 [false, true] ++ turns 59 []) (p := process insertKillTasks 2)
    (s := emptyWorld) (fun _ w => (w.txns 1).removed = 2 ∧ w.txnNums = -1) (by decide +kernel)
  exact ⟨p, w, hrun, of_decide_eq_true hcheck⟩

end Radon
