import Mathlib.Data.Set.Insert
import Radon.Proxy.Query

/-!
# What the handlers send

`Rules` fix the answers of the privilege plugin and of the planner, leave every other answer open, and
say which calls are permitted. The history of a handler is the set of the databases on which a
successful check has asked for the privilege of the statement. One lemma for each way of executing a
query says when it keeps to the rules.
-/

namespace Radon.Proxy

open Concurrency

/-- The plans that the planner may build, and whether the session's user may be a super user. -/
structure Setting where
  plans : String → String → Statement → Except String (List String) → Prop
  streamPlans : String → String → Select → Except String (List String) → Prop
  super : Bool → Prop

/-- The answers of the plugins, and the calls that are permitted; a query may depend on the databases
that have been checked before it. -/
structure Rules extends Setting where
  answers : String → Statement → Option String → Prop
  sends : String → Set String → Prop
  admin : RadonAction → Prop

/-- The databases on which a check asks for privileges. -/
def Statement.asked (s : Statement) (db : String) : Set String := {d | d ∈ s.examined db}

namespace Rules

def permits (R : Rules) : Call → Set String → Prop
  | .send _ q, h => R.sends q h
  | .admin r, _ => R.admin r.action
  | _, _ => True

def replies (R : Rules) : (c : Call) → c.Res → Prop
  | .check db s, r => R.answers db s r
  | .isSuperPriv, r => R.super r
  | .plan db q s, r => R.plans db q s r
  | .streamPlan db q s, r => R.streamPlans db q s r
  | _, _ => True

/-- A successful check is remembered. -/
def recordCheck (s : Statement) (db : String) : Option String → Set String → Set String
  | none, h => s.asked db ∪ h
  | some _, h => h

def record : (c : Call) → c.Res → Set String → Set String
  | .check db s, r, h => recordCheck s db r h
  | _, _, h => h

/-- The monitor of a set of rules. -/
def monitor (R : Rules) : Monitor Call Call.Res (Set String) := ⟨R.permits, R.replies, record⟩

end Rules

/-- Every call of a handler is permitted. -/
abbrev Safe {α : Type} (R : Rules) (p : Handler α) (h : Set String) : Prop :=
  Watched R.monitor p (fun _ _ => True) h

variable {R : Rules} {α β : Type} {h : Set String}

theorem safe_bind {p : Handler α} {next : α → Handler β} : Safe R (p >>= next) h ↔
      Watched R.monitor p (Andthen R.monitor next fun _ _ => True) h := watched_bind ..

/-- A handler that keeps to the rules keeps to them when the privilege plugin gives fewer answers. -/
theorem Safe.of_answers {answers : String → Statement → Option String → Prop} {p : Handler α} (hp : Safe R p h)
    (hanswers : ∀ db s r, answers db s r → R.answers db s r) : Safe { R with answers := answers } p h := by
  refine Prog.Obeys.weaken hp (fun c h hc => ?_) (fun c r hr => ?_) rfl
  · cases c <;> exact hc
  · cases c <;> first | exact hr | exact hanswers _ _ _ hr

/-! ## The calls -/

/-- The calls that are always permitted and may return anything. -/
def Call.quiet : Call → Bool
  | .check _ _ | .isSuperPriv | .plan _ _ _ | .streamPlan _ _ _ | .send _ _ | .admin _ => false
  | _ => true

/-- A handler that is permitted by all rules, changes nothing of them and may return anything. -/
class Quiet (p : Handler α) : Prop where
  watched : ∀ (R : Rules) (Q : Except String α → Set String → Prop) (h : Set String),
    Watched R.monitor p Q h ↔ ∀ r, Q (.ok r) h

theorem quiet_call {c : Call} (hc : c.quiet = true) : Quiet (call c) where
  watched R Q h := by
    rw [watched_call]
    cases c <;> first | exact absurd hc Bool.false_ne_true | simp [Rules.monitor, Rules.permits,
      Rules.replies, Rules.record]

@[simp] theorem watched_quiet {p : Handler α} [Quiet p] {Q : Except String α → Set String → Prop} :
    Watched R.monitor p Q h ↔ ∀ r, Q (.ok r) h := Quiet.watched R Q h

variable {s node : Statement} {query db : String}

section Calls

variable {db table query : String} {id : ℕ}

instance : Quiet createTransaction := quiet_call rfl

instance : Quiet (commitStatement s) := quiet_call rfl

instance : Quiet rollbackStatement := quiet_call rfl

instance : Quiet beginScatter := quiet_call rfl

instance : Quiet commitScatter := quiet_call rfl

instance : Quiet rollbackScatter := quiet_call rfl

instance {c : RouterChange} : Quiet (changeRouter c) := quiet_call rfl

instance : Quiet (checkDatabase db) := quiet_call rfl

instance : Quiet (tableExists db table) := quiet_call rfl

instance : Quiet (partitionType db table) := quiet_call rfl

instance : Quiet (tableConfig db table) := quiet_call rfl

instance : Quiet (lookup db table) := quiet_call rfl

instance : Quiet backends := quiet_call rfl

instance : Quiet allBackends := quiet_call rfl

instance : Quiet (checkBackend db) := quiet_call rfl

instance : Quiet (setSchema db) := quiet_call rfl

instance {i : Insert} : Quiet (autoIncrement db i) := quiet_call rfl

instance {on : Bool} : Quiet (setStreamingFetchVar on) := quiet_call rfl

instance : Quiet (sessionUser id) := quiet_call rfl

instance : Quiet (killSession id) := quiet_call rfl

variable {Q : Except String (Option String) → Set String → Prop}

@[simp] theorem watched_check : Watched R.monitor (check db s) Q h ↔
      ∀ r, R.answers db s r → Q (.ok r) (Rules.recordCheck s db r h) :=
  and_iff_right trivial

@[simp] theorem watched_isSuperPriv {Q : Except String Bool → Set String → Prop} :
    Watched R.monitor isSuperPriv Q h ↔ ∀ b, R.super b → Q (.ok b) h :=
  and_iff_right trivial

@[simp] theorem watched_buildPlanTree {Q : Except String (Except String (List String)) → Set String → Prop} :
    Watched R.monitor (buildPlanTree db query s) Q h ↔ ∀ r, R.plans db query s r → Q (.ok r) h :=
  and_iff_right trivial

@[simp] theorem watched_buildStreamPlan {s : Select}
    {Q : Except String (Except String (List String)) → Set String → Prop} :
    Watched R.monitor (buildStreamPlan db query s) Q h ↔ ∀ r, R.streamPlans db query s r → Q (.ok r) h :=
  and_iff_right trivial

@[simp] theorem watched_sendQuery {target : Target}
    {Q : Except String (Except String (List (List String))) → Set String → Prop} :
    Watched R.monitor (sendQuery target query) Q h ↔ R.sends query h ∧ ∀ r, Q (.ok r) h :=
  and_congr_right' (forall_congr' fun _ => forall_prop_of_true trivial)

@[simp] theorem watched_runAdmin {c : RadonCommand} :
    Watched R.monitor (runAdmin c) Q h ↔ R.admin c.action ∧ ∀ r, Q (.ok r) h :=
  and_congr_right' (forall_congr' fun _ => forall_prop_of_true trivial)

end Calls

/-! ## The ways of executing -/

theorem forall_except {P : Except String α → Prop} : (∀ r, P r) ↔ (∀ e, P (.error e)) ∧ ∀ a, P (.ok a) :=
  ⟨fun hP => ⟨fun e => hP _, fun a => hP _⟩, fun hP r => by cases r; exacts [hP.1 _, hP.2 _]⟩

variable {env : Env} {ses : Session}

theorem watched_execute {target : Target} {Q : Except String (List (List String)) → Set String → Prop} :
    Watched R.monitor (execute target query) Q h ↔ R.sends query h ∧ ∀ r, Q r h := by
  simp only [execute, watched_bind, watched_quiet, andthen_ok, watched_raise,
    Option.forall, Option.elim, andthen_error, watched_sendQuery, watched_ofExcept]
  exact ⟨fun hw => hw.1, fun hw => ⟨hw, fun e => hw.2 _⟩⟩

theorem watched_sendAll {queries : List String} {Q : Except String Unit → Set String → Prop} :
    Watched R.monitor (sendAll queries) Q h ↔ (∀ q ∈ queries, R.sends q h) ∧ Q (.ok ()) h ∧
      (queries ≠ [] → ∀ e, Q (.error e) h) := by
  induction queries generalizing Q with
  | nil => simp [sendAll]
  | cons query queries ih =>
    simp only [sendAll, watched_bind, watched_sendQuery, andthen_ok, andthen_error, ih,
      watched_ofExcept, forall_except, watched_pure, List.forall_mem_cons]
    constructor
    · simp_all
    · grind

/-- The queries that a plan may consist of. -/
def Setting.Planned (S : Setting) (db query : String) (node : Statement) (q : String) : Prop :=
  ∃ qs, S.plans db query node (.ok qs) ∧ q ∈ qs

theorem watched_executeWithTimeout {Q : Except String Unit → Set String → Prop} :
    Watched R.monitor (executeWithTimeout db query node) Q h ↔ (∀ e, Q (.error e) h) ∧
      ∀ qs, R.plans db query node (.ok qs) → (∀ q ∈ qs, R.sends q h) ∧ Q (.ok ()) h := by
  simp only [executeWithTimeout, watched_bind, watched_quiet, andthen_ok, watched_raise,
    Option.forall, Option.elim, andthen_error, watched_buildPlanTree, watched_ofExcept, forall_except,
    watched_sendAll]
  constructor
  · grind
  · grind

theorem safe_executeNormal : Safe R (executeNormal db query node) h ↔ ∀ q, R.Planned db query node q → R.sends q h := by
  simp only [Safe, executeNormal, watched_executeWithTimeout, implies_true, and_true, true_and,
    Setting.Planned, forall_exists_index, and_imp]
  grind

theorem safe_executeSingle : Safe R (executeSingle query) h ↔ R.sends query h := by
  simp [Safe, executeSingle, watched_execute, forall_except]

theorem watched_executeScatter {Q : Except String Unit → Set String → Prop} :
    Watched R.monitor (executeScatter query) Q h ↔ R.sends query h ∧ ∀ r, Q r h := by
  simp only [executeScatter, watched_bind, watched_execute, forall_except, andthen_ok, andthen_error,
    watched_pure]
  exact and_congr_right' (and_congr_right' ⟨fun hw _ => hw [], fun hw _ => hw ()⟩)

theorem safe_executeScatter : Safe R (executeScatter query) h ↔ R.sends query h := by
  simp [Safe, watched_executeScatter]

theorem safe_executeMultiStmtsInTxn : Safe R (executeMultiStmtsInTxn db query node) h ↔
      ∀ q, R.Planned db query node q → R.sends q h := by
  simp only [Safe, executeMultiStmtsInTxn, watched_bind, watched_buildPlanTree, andthen_ok,
    watched_ofExcept, forall_except, andthen_error, watched_sendAll, implies_true, and_true, true_and,
    Setting.Planned, forall_exists_index, and_imp]
  grind

theorem safe_executeSingleStmtTxnTwoPC :
    Safe R (executeSingleStmtTxnTwoPC db query node) h ↔ ∀ q, R.Planned db query node q → R.sends q h := by
  simp only [Safe, executeSingleStmtTxnTwoPC, watched_bind, watched_quiet, andthen_ok,
    watched_raise, Option.forall, Option.elim, andthen_error, watched_buildPlanTree, watched_ofExcept,
    forall_except, watched_observe, watched_sendAll, watched_throw, implies_true, and_true, true_and,
    Setting.Planned, forall_exists_index, and_imp]
  grind

theorem safe_executeStreamFetch {node : Select} : Safe R (executeStreamFetch db query node) h ↔
      ∀ q qs, R.streamPlans db query node (.ok qs) → q ∈ qs → R.sends q h := by
  simp only [Safe, executeStreamFetch, watched_bind, watched_quiet, andthen_ok,
    watched_raise, Option.forall, Option.elim, andthen_error, watched_buildStreamPlan,
    watched_ofExcept, forall_except, watched_sendAll, implies_true, and_true, true_and]
  grind

/-- A check that may succeed, and the rest of the handler after it. -/
theorem safe_check (hyes : R.answers db s none) {next : Handler α} :
    Safe R (do raise (← check db s); next) h ↔ Safe R next (s.asked db ∪ h) := by
  simp only [Safe, watched_bind, watched_check, andthen_ok, watched_raise, Option.forall, Option.elim,
    andthen_error, implies_true, and_true]
  exact ⟨fun hw => hw hyes, fun hw _ => hw⟩

/-- The queries of `ExecuteDML` are those of a plan, sent after the check of the statement in the
session's database. -/
theorem safe_executeDML (hyes : R.answers ses.schema node none) :
    Safe R (executeDML env ses db query node) h ↔
      ∀ q, R.Planned db query node q → R.sends q (node.asked ses.schema ∪ h) := by
  rw [executeDML, safe_check hyes]
  grind [safe_executeNormal, safe_executeSingleStmtTxnTwoPC, safe_executeMultiStmtsInTxn]

theorem watched_executeDDL {Q : Except String Unit → Set String → Prop} (hQ : ∀ e, Q (.error e) h) :
    Watched R.monitor (executeDDL env ses db query node) Q h ↔ ((env.twoPC && ses.inTxn) = false →
      ∀ qs, R.plans db query node (.ok qs) → (∀ q ∈ qs, R.sends q h) ∧ Q (.ok ()) h) := by
  unfold executeDDL
  split
  · simp_all
  · rename_i hin
    simp only [watched_executeWithTimeout, hQ, Bool.eq_false_iff.2 hin, implies_true, true_and,
      forall_const]

theorem safe_executeCommit : Safe R (executeCommit env ses) h := by
  unfold executeCommit
  split
  · simp
  · split <;> simp

theorem safe_executeBegin : Safe R (executeBegin env ses) h := by
  unfold executeBegin
  split
  · simp
  · split <;> simp [Option.forall]

theorem safe_executeRollback : Safe R (executeRollback env ses) h := by
  unfold executeRollback
  split
  · simp
  · split <;> simp

theorem safe_handleMultiStmtTxn {action : TransactionAction} : Safe R (handleMultiStmtTxn env ses action) h := by
  cases action with
  | start => exact safe_executeBegin
  | begin => exact safe_executeBegin
  | rollback => exact safe_executeRollback
  | commit => exact safe_executeCommit

end Radon.Proxy
