import Radon.Backend.Operation

/-!
# What the operations leave in the history

Each operation adds only events of its own kind to the log, and only the lock operations touch the
commit lock.
-/

namespace Radon

/-- The events an operation may add to the log. -/
def Op.Emits (w : World) : Op → Event → Prop
  | .query call c q, e => ∃ acked applied, e = .query call c q acked applied
  | .xcAdd x d, e => e = .logged x d
  | .setState t s, e => e = .stateSet t (w.txns t).state s
  | .abortCheck t, e => e = .abortSees t (w.txns t).state (w.txns t).clean
  | .twopcPut t b _ _, e => e = .overwrite t b ∨ ∃ late, e = .connMove t late
  | .twopcDrop t _, e => ∃ late, e = .connMove t late
  | .appendNormal t _ _, e => ∃ late, e = .connMove t late
  | .appendReplica t _ _, e => ∃ late, e = .connMove t late
  | .poolGet t _ _, e => ∃ late, e = .connMove t late
  | .kill t _, e => e = .killFailed t
  | .deadline t _, e => e = .deadline t
  | _, _ => False

variable {o : Op} {choice : Choice} {w w' : World} {r : o.Res}

theorem emits_step (hrun : exec o choice w = some (r, w')) : ∃ es, w'.log = es ++ w.log ∧ ∀ e ∈ es, o.Emits w e := by
  have hnone : w'.log = w.log → ∃ es, w'.log = es ++ w.log ∧ ∀ e ∈ es, o.Emits w e := fun h =>
    ⟨[], h, nofun⟩
  have hone : ∀ e, o.Emits w e → w'.log = e :: w.log → ∃ es, w'.log = es ++ w.log ∧ ∀ e ∈ es, o.Emits w e :=
    fun e he h => ⟨[e], h, fun e' he' => List.mem_singleton.mp he' ▸ he⟩
  cases exec_outcome hrun with
  | setState t s => exact hone _ rfl rfl
  | abortCheck t => exact hone _ rfl rfl
  | twopcPut t b c k =>
    have hlog : ∀ w₁ : World, ∃ late, ((w₁.updTxn t fun txn => txn.putTwopc b c k).connMoved t).log =
        .connMove t late :: w₁.log := fun _ => ⟨_, rfl⟩
    split
    · obtain ⟨late, hlate⟩ := hlog (w.emit (.overwrite t b))
      refine ⟨[.connMove t late, .overwrite t b], hlate, fun e he => ?_⟩
      grind [Op.Emits]
    · obtain ⟨late, hlate⟩ := hlog w
      grind [Op.Emits]
  | twopcDrop t b | appendNormal t c k | appendReplica t c k | poolGet t p k => exact hone _ ⟨_, rfl⟩ rfl
  | killFailed t c | deadline t c => exact hone _ rfl rfl
  | query call c q h => grind [World.runQuery_spec, Op.Emits]
  | xcAdd x d => exact hone _ rfl rfl
  | _ => exact hnone rfl

/-- The operations on the commit lock. -/
def Op.Locks : Op → Prop
  | .commitLock _ _ => True
  | .commitUnlock _ => True
  | .commitRLock _ => True
  | .commitRUnlock _ => True
  | _ => False

theorem lock_step (ho : ¬ o.Locks) (hrun : exec o choice w = some (r, w')) :
    w'.commitLock = w.commitLock ∧ w'.calls = w.calls := by
  cases exec_outcome hrun with
  | commitLock | commitUnlock | commitRLock | commitRUnlock => exact absurd trivial ho
  | twopcPut t b c k => split <;> exact ⟨rfl, rfl⟩
  | query call c q h => grind [World.runQuery_spec]
  | _ => exact ⟨rfl, rfl⟩

end Radon
