import Radon.Backend.Knowledge

/-!
# The footprint of the calls of a transaction

The calls on a transaction touch the record of that transaction, the servers and the locks. They
leave the core of every other transaction and the sessions alone.
-/

namespace Radon

open Concurrency

/-- The operations that leave the sessions and the cores of all transactions but `t` alone. -/
def Op.On (t : TxnId) : Op → Prop
  | .newTxn _ _ => False
  | .mgrAdd t' => t' = t
  | .commitLock t' _ => t' = t
  | .writeTxn t' u => t' = t ∨ u.Quiet
  | .lockMu t' who => t' = t ∨ ∀ g, who ≠ .finish g
  | .twopcPut t' _ _ _ => t' = t
  | .appendNormal t' _ _ => t' = t
  | .appendReplica t' _ _ => t' = t
  | .poolGet t' _ _ => t' = t
  | .writeSession _ _ => False
  | .addSession _ => False
  | .removeSession _ => False
  | _ => True

section Step

variable {t t' : TxnId} {o : Op} {choice : Choice} {w w' : World} {r : o.Res}

theorem Op.Quiet.on (h : o.Quiet) : o.On t := by
  cases o with
  | writeTxn t' u => exact .inr h
  | lockMu t' who =>
    refine .inr fun g hg => ?_
    subst hg
    exact h
  | newTxn _ _ => exact h
  | mgrAdd _ => exact h.elim
  | commitLock _ _ => exact h.elim
  | twopcPut _ _ _ _ => exact h.elim
  | appendNormal _ _ _ => exact h.elim
  | appendReplica _ _ _ => exact h.elim
  | poolGet _ _ _ => exact h.elim
  | writeSession _ _ => exact h
  | addSession _ => exact h
  | removeSession _ => exact h
  | _ => trivial

theorem core_other {txn' : Txn} (htxns : w'.txns = Function.update w.txns t txn') (hne : t' ≠ t) :
    (w'.txns t').core = (w.txns t').core := by
  rw [htxns, Function.update_of_ne hne]

/-- An operation on `t` leaves the sessions and the cores of the other transactions alone. -/
theorem on_step (ho : o.On t) (hrun : exec o choice w = some (r, w')) :
    w'.sessions = w.sessions ∧ ∀ t', t' ≠ t → (w'.txns t').core = (w.txns t').core := by
  have hquiet : o.Quiet → w'.sessions = w.sessions ∧ ∀ t', t' ≠ t →
      (w'.txns t').core = (w.txns t').core := fun hq =>
    ⟨(quiet_step hq hrun).2.1, fun t' _ => (quiet_step hq hrun).1 t'⟩
  cases exec_outcome hrun with
  | newTxn | writeSession | addSession | removeSession => exact ho.elim
  | mgrAdd | commitLock | appendNormal | appendReplica | poolGet =>
    cases ho
    exact ⟨rfl, fun _ => core_other rfl⟩
  | writeTxn t' u =>
    rcases ho with rfl | ho
    · exact ⟨rfl, fun _ => core_other rfl⟩
    · exact hquiet ho
  | lockMu t' who =>
    rcases ho with rfl | ho
    · exact ⟨rfl, fun _ => core_other rfl⟩
    · cases who with
      | finish g => exact absurd rfl (ho g)
      | _ => exact hquiet trivial
  | twopcPut t' b c g =>
    cases ho
    refine ⟨?_, fun t' hne => ?_⟩
    · change (ite _ (w.emit _) w).sessions = w.sessions
      split <;> rfl
    · rw [World.connMoved_txns, World.updTxn_of_ne _ hne]
      split <;> rfl
  | same | commitUnlock | commitRLock | commitRUnlock => exact ⟨rfl, fun _ _ => rfl⟩
  | _ => exact hquiet trivial

end Step

section Calls

variable {P : Op → Prop} {g : Goroutine} {t : TxnId}

theorem act_all {o : Op} (h : P o) : (act o).All P := (Prog.all_perform P o).mpr h

theorem panic_all {α : Type} (h : P .panic) : (panic : Go α).All P := (act_all h).bind fun r => r.elim

theorem newConnection_on (b : Backend) (rep : Bool) (kind : String) {put : Conn → Op} (hput : ∀ c, (put c).On t) :
    (newConnection g t b rep kind put).All (Op.On t) := by
  refine (act_all trivial).bind fun txn => ?_
  split
  · refine (act_all (by exact rfl)).bind fun r => ?_
    cases r with
    | error e => trivial
    | ok c => exact (act_all (hput c)).bind fun _ => trivial
  · trivial

theorem twopcConnection_on (b : Backend) : (twopcConnection g t b).All (Op.On t) := by
  refine (act_all trivial).bind fun r => ?_
  cases r with
  | some c => trivial
  | none => exact newConnection_on b false "twopc" fun _ => rfl

theorem reFetchTwopcConnection_on (b : Backend) : (reFetchTwopcConnection g t b).All (Op.On t) :=
  (act_all trivial).bind fun _ => twopcConnection_on b

theorem normalConnection_on (b : Backend) : (normalConnection g t b).All (Op.On t) :=
  newConnection_on b false "normal" fun _ => rfl

theorem replicaConnection_on (b : Backend) : (replicaConnection g t b).All (Op.On t) :=
  newConnection_on b true "replica" fun _ => rfl

theorem fetchPrimaryConnection_on (b : Backend) : (fetchPrimaryConnection g t b).All (Op.On t) := by
  refine (act_all trivial).bind fun txn => ?_
  split
  · exact twopcConnection_on b
  · exact normalConnection_on b

theorem fetchOneConnection_on (b : Backend) : (fetchOneConnection g t b).All (Op.On t) := by
  refine (act_all trivial).bind fun txn => ?_
  split
  · refine (replicaConnection_on b).bind fun r => ?_
    cases r with
    | ok c => trivial
    | error e => exact fetchPrimaryConnection_on b
  · exact fetchPrimaryConnection_on b

theorem xaOneShard_on (b : Backend) (q : Query) : (xaOneShard g t b q).All (Op.On t) := by
  refine (twopcConnection_on b).bind fun r => ?_
  cases r with
  | error e => trivial
  | ok c => exact (act_all trivial).bind fun _ => trivial

theorem xaRetryShard_on (b : Backend) (q : Query) (tries : ℕ) (err : Option Err) :
    (xaRetryShard g t b q tries err).All (Op.On t) := by
  induction tries generalizing err with
  | zero => trivial
  | succ tries ih =>
    have hconn : (xaTryConnection g t b (tries + 1)).All (Op.On t) := by
      grind [reFetchTwopcConnection_on, twopcConnection_on, xaTryConnection]
    refine hconn.bind fun r => ?_
    cases r with
    | error e => exact ih (some e)
    | ok c =>
      refine (act_all trivial).bind fun r => ?_
      cases r with
      | ok qr => trivial
      | error e =>
        dsimp only
        split
        · trivial
        · exact ih (some e)

theorem xaFanOut_on (q : Query) (state : TxnXAState) (bs : List Backend) : (xaFanOut g t q state bs).All (Op.On t) := by
  unfold xaFanOut
  split
  · refine (act_all (by exact rfl)).bind fun _ => ?_
    refine (Prog.All.forkAll fun b _ => xaRetryShard_on b q _ _).bind fun _ => ?_
    exact (act_all trivial).bind fun _ => trivial
  · exact (Prog.All.forkAll fun b _ => xaOneShard_on b q).bind fun _ => trivial

theorem executeXACommand_on (q : Query) (state : TxnXAState) : (executeXACommand g t q state).All (Op.On t) := by
  refine (act_all trivial).bind fun txn => ?_
  split
  · exact panic_all trivial
  · rename_i req _
    refine (act_all trivial).bind fun _ => ?_
    cases req.mode with
    | reqSingle => trivial
    | reqScatter => exact (act_all trivial).bind fun _ => xaFanOut_on _ _ _
    | reqNormal =>
      dsimp only
      split
      · exact xaFanOut_on _ _ _
      · trivial

theorem countErr_on (err : Option Err) : (countErr t err).All (Op.On t) := by
  cases err with
  | none => trivial
  | some e => exact act_all (.inl rfl)

theorem xaStart_on : (xaStart g t).All (Op.On t) := by
  refine (act_all (.inl rfl)).bind fun _ => (act_all trivial).bind fun _ => (act_all trivial).bind fun _ => ?_
  refine (act_all (.inl rfl)).bind fun _ => (executeXACommand_on _ _).bind fun err => ?_
  exact (countErr_on err).bind fun _ => (act_all (.inl rfl)).bind fun _ => trivial

theorem xaPhase_on (q : Xid → Query) (state finished : TxnXAState) : (xaPhase g t q state finished).All (Op.On t) := by
  refine (act_all (.inl rfl)).bind fun _ => (act_all trivial).bind fun txn => ?_
  split
  · exact panic_all trivial
  · refine (executeXACommand_on _ _).bind fun err => ?_
    exact (countErr_on err).bind fun _ => (act_all (.inl rfl)).bind fun _ => trivial

theorem logFailed_on (d : Decision) (err : Option Err) : (logFailed t d err).All (Op.On t) := by
  cases err with
  | none => trivial
  | some e =>
    refine (act_all (.inl rfl)).bind fun _ => Prog.All.bind ?_ fun _ => trivial
    refine (act_all trivial).bind fun txn => ?_
    split
    · exact panic_all trivial
    · refine (act_all trivial).bind fun _ => (act_all trivial).bind fun _ => ?_
      exact (act_all trivial).bind fun _ => trivial

theorem xaDecide_on (d : Decision) (state finished : TxnXAState) : (xaDecide g t d state finished).All (Op.On t) := by
  refine (act_all (.inl rfl)).bind fun _ => (act_all trivial).bind fun txn => ?_
  split
  · exact panic_all trivial
  · grind [Prog.All.bind, executeXACommand_on, logFailed_on, act_all, Op.On]

theorem sequence_all {first second : Go (Option Err)} (hfirst : first.All P) (hsecond : second.All P) :
    (sequence first second).All P := by
  refine hfirst.bind fun r => ?_
  cases r with
  | some e => trivial
  | none => exact hsecond

theorem endPrepare_on {decide : Goroutine → TxnId → Go Unit} (h : (decide g t).All (Op.On t)) :
    (endPrepare g t decide).All (Op.On t) :=
  sequence_all (xaPhase_on _ _ _) (sequence_all (xaPhase_on _ _ _) (h.bind fun _ => trivial))

theorem beginScatter_on : (beginScatter g t).All (Op.On t) :=
  (act_all (.inl rfl)).bind fun _ => (act_all (.inl rfl)).bind fun _ => xaStart_on

theorem commitScatter_on : (commitScatter g t).All (Op.On t) :=
  (act_all trivial).bind fun _ => (act_all (.inl rfl)).bind fun _ => (act_all (.inl rfl)).bind fun _ =>
    endPrepare_on (xaDecide_on _ _ _)

theorem rollbackScatter_on : (rollbackScatter g t).All (Op.On t) :=
  (act_all trivial).bind fun _ => (act_all (.inl rfl)).bind fun _ => (act_all (.inl rfl)).bind fun _ =>
    endPrepare_on (xaDecide_on _ _ _)

theorem runQuerys_all {call : Option Call} {c : Conn} (h : ∀ q, P (.query call c q)) (hd : P (.deadline t c))
    (querys : List Query) (qr : Result) : (runQuerys t call c querys qr).All P := by
  induction querys generalizing qr with
  | nil => trivial
  | cons q querys ih =>
    refine (act_all (h q)).bind fun r => (act_all hd).bind fun _ => ?_
    cases r with
    | error e => trivial
    | ok innerqr => exact ih _

theorem oneShard_on (call : Option Call) (b : Backend) (querys : List Query) :
    (oneShard g t call b querys).All (Op.On t) := by
  refine (fetchOneConnection_on b).bind fun r => ?_
  cases r with
  | error e => trivial
  | ok c => exact runQuerys_all (fun _ => trivial) trivial querys {}

theorem shards_all {several : Bool} {bs : List Backend} {shard : Goroutine → Backend → Go (Except Err Result)}
    (h : ∀ g b, (shard g b).All P) : (shards g several bs shard).All P := by
  unfold shards
  split
  · exact (Prog.All.forkAll fun b _ => h _ b).bind fun _ => trivial
  · cases bs with
    | nil => trivial
    | cons b bs => exact h g b

theorem executeCounted_on (call : Option Call) (req : RequestContext) :
    (executeCounted g t call req).All (Op.On t) := by
  refine Prog.All.bind ?_ fun r => (countErr_on _).bind fun _ => trivial
  refine (act_all trivial).bind fun txn => (act_all trivial).bind fun _ => ?_
  cases req.mode with
  | reqSingle =>
    refine (act_all trivial).bind fun pick => ?_
    split
    · trivial
    · exact oneShard_on _ _ _
  | reqScatter => exact shards_all fun g b => oneShard_on _ _ _
  | reqNormal => exact shards_all fun g b => oneShard_on _ _ _

theorem txnExecute_on (req : RequestContext) : (txnExecute g t req).All (Op.On t) := by
  refine (act_all trivial).bind fun txn => ?_
  split
  · refine (act_all (.inl rfl)).bind fun _ => (act_all (.inl rfl)).bind fun _ =>
      (act_all trivial).bind fun _ => ?_
    cases req.txnMode with
    | txnRead =>
      refine (act_all trivial).bind fun call => (executeCounted_on _ _).bind fun _ => ?_
      exact (act_all trivial).bind fun _ => trivial
    | txnNone => exact executeCounted_on _ _
    | txnWrite =>
      refine (act_all trivial).bind fun txn => ?_
      split
      · exact executeCounted_on _ _
      · refine xaStart_on.bind fun r => ?_
        cases r with
        | some e => trivial
        | none => exact executeCounted_on _ _
  · exact executeCounted_on _ _

theorem releaseAll_quiet {release : Conn → Go Unit} (h : ∀ c, (release c).All Op.Quiet) :
    (releaseAll t release).All Op.Quiet := by
  have hconns : ∀ cs, (rangeConns release cs).All Op.Quiet := by
    intro cs
    induction cs with
    | nil => trivial
    | cons c cs ih => exact (h c).bind fun _ => ih
  have hrange : ∀ start n visited, (rangeTwopc t release start n visited).All Op.Quiet := by
    intro start n
    induction n with
    | zero => exact fun _ => trivial
    | succ n ih =>
      intro visited
      refine (act_all trivial).bind fun r => ?_
      cases r with
      | none => trivial
      | some bc => exact (h _).bind fun _ => (act_all trivial).bind fun _ => ih _
  refine (act_all trivial).bind fun txn => (hrange _ _ _).bind fun _ => ?_
  grind [Prog.All.bind, act_all, Op.Quiet]

theorem leave_quiet : (leave t).All Op.Quiet :=
  (act_all trivial).bind fun _ => (act_all trivial).bind fun _ => act_all trivial

theorem finishConn_quiet (c : Conn) : (finishConn t c).All Op.Quiet := by
  refine (act_all trivial).bind fun txn => ?_
  split
  · exact act_all trivial
  · exact act_all trivial

theorem finish_on : (finish g t).All (Op.On t) := by
  have hquiet : ∀ {p : Go Unit}, p.All Op.Quiet → p.All (Op.On t) := fun h => h.mono fun _ => Op.Quiet.on
  refine (act_all (.inl rfl)).bind fun _ => (act_all trivial).bind fun txn => ?_
  split
  · exact hquiet leave_quiet
  · grind [Prog.All.bind, act_all, releaseAll_quiet, finishConn_quiet, leave_quiet, Op.On]

theorem abort_quiet : (abort g t).All Op.Quiet := by
  refine (act_all trivial).bind fun _ => (act_all trivial).bind fun seen => ?_
  split
  · exact leave_quiet
  · grind [Prog.All.bind, act_all, releaseAll_quiet, leave_quiet, Op.Quiet]

end Calls

end Radon
