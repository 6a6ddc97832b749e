import Radon.Concurrency.Monitor
import Radon.Proxy.Privilege

/-!
# Handlers

A handler of a client command is a sequential program over the calls that leave the handler: privilege
checks, queries to the backends, questions to the router and the planner, changes of the router. The
router and the backends are shared with other sessions, so that a handler cannot rely on what an
earlier call returned. A handler ends with an error or with a result; the rows that go back to the
client are left out.

`Rules` fix the answers of the plugins and say which calls are permitted after which checks, and
`Watched` is the weakest condition under which a handler keeps to them.
-/

namespace Radon.Proxy

open Concurrency

/-- Where a query goes: to some backend, to all of them, to a named one, or to those of a plan. -/
inductive Target
  | single
  | scatter
  | backend (name : String)
  | planned

/-- A change of the router's metadata. -/
inductive RouterChange
  | createDatabase (db : String)
  | dropDatabase (db : String)
  | createTable (db table shardKey : String) (option : PartitionOption) (backends : List String)
      (autoIncrement : Option String)
  | dropTable (db table : String)
  | renameTable (db fromTable toTable : String)

/-- The calls of a handler. -/
inductive Call
  | check (db : String) (node : Statement)
  | isSuperPriv
  | createTransaction
  | plan (db query : String) (node : Statement)
  | streamPlan (db query : String) (node : Select)
  | send (target : Target) (query : String)
  | commitStatement (node : Statement)
  | rollbackStatement
  | beginScatter
  | commitScatter
  | rollbackScatter
  | checkDatabase (db : String)
  | tableExists (db table : String)
  | partitionType (db table : String)
  | tableConfig (db table : String)
  | lookup (db table : String)
  | change (c : RouterChange)
  | backends
  | allBackends
  | checkBackend (name : String)
  | autoIncrement (db : String) (node : Insert)
  | setSchema (db : String)
  | setStreamingFetch (on : Bool)
  | sessionUser (id : ℕ)
  | kill (id : ℕ)
  | admin (r : RadonCommand)

/-- What a call returns. A plan is the list of its queries, the rows of a query are lists of texts, and
the auto-increment plugin returns the columns of the statement. -/
def Call.Res : Call → Type
  | .check _ _ | .createTransaction | .commitStatement _ | .rollbackStatement | .beginScatter
  | .commitScatter | .rollbackScatter | .checkDatabase _ | .change _ | .admin _ => Option String
  | .isSuperPriv | .tableExists _ _ | .checkBackend _ => Bool
  | .plan _ _ _ | .streamPlan _ _ _ | .autoIncrement _ _ => Except String (List String)
  | .send _ _ => Except String (List (List String))
  | .partitionType _ _ => Except String MethodType
  | .tableConfig _ _ => Except String TableConfig
  | .lookup _ _ => Except String (List Segment)
  | .backends | .allBackends => List String
  | .sessionUser _ => Option String
  | .setSchema _ | .setStreamingFetch _ | .kill _ => Unit

/-- A handler. -/
abbrev Handler := ExceptT String (Prog Call Call.Res)

/-- Perform a call. -/
def call (c : Call) : Handler c.Res := ExceptT.mk (Prog.op c fun r => .ret (.ok r))

/-- `Privilege.Check` for the session's user. -/
def check (db : String) (node : Statement) : Handler (Option String) := call (.check db node)

/-- `Privilege.IsSuperPriv` for the session's user. -/
def isSuperPriv : Handler Bool := call .isSuperPriv

/-- `Scatter.CreateTransaction`. -/
def createTransaction : Handler (Option String) := call .createTransaction

/-- `SimpleOptimizer.BuildPlanTree`. -/
def buildPlanTree (db query : String) (node : Statement) : Handler (Except String (List String)) :=
  call (.plan db query node)

/-- `SelectPlan.Build` for a plan that is one merge node. -/
def buildStreamPlan (db query : String) (node : Select) : Handler (Except String (List String)) :=
  call (.streamPlan db query node)

/-- A query on its way to the backends. -/
def sendQuery (target : Target) (query : String) : Handler (Except String (List (List String))) :=
  call (.send target query)

/-- `Txn.Commit` after one statement. -/
def commitStatement (node : Statement) : Handler (Option String) := call (.commitStatement node)

/-- `Txn.RollbackPhaseOne`. -/
def rollbackStatement : Handler (Option String) := call .rollbackStatement

/-- `Txn.BeginScatter`. -/
def beginScatter : Handler (Option String) := call .beginScatter

/-- `Txn.CommitScatter`. -/
def commitScatter : Handler (Option String) := call .commitScatter

/-- `Txn.RollbackScatter`. -/
def rollbackScatter : Handler (Option String) := call .rollbackScatter

/-- `Router.CheckDatabase`. -/
def checkDatabase (db : String) : Handler (Option String) := call (.checkDatabase db)

/-- `checkTableExists`. -/
def tableExists (db table : String) : Handler Bool := call (.tableExists db table)

/-- `Router.PartitionType`. -/
def partitionType (db table : String) : Handler (Except String MethodType) := call (.partitionType db table)

/-- `Router.TableConfig`. -/
def tableConfig (db table : String) : Handler (Except String TableConfig) := call (.tableConfig db table)

/-- `Router.Lookup` without a key range. -/
def lookup (db table : String) : Handler (Except String (List Segment)) := call (.lookup db table)

/-- A change of the router's metadata. -/
def changeRouter (c : RouterChange) : Handler (Option String) := call (.change c)

/-- `Scatter.Backends`. -/
def backends : Handler (List String) := call .backends

/-- `Scatter.AllBackends`. -/
def allBackends : Handler (List String) := call .allBackends

/-- `Scatter.CheckBackend`. -/
def checkBackend (name : String) : Handler Bool := call (.checkBackend name)

/-- `AutoIncrement.Process`. -/
def autoIncrement (db : String) (node : Insert) : Handler (Except String (List String)) :=
  call (.autoIncrement db node)

/-- `Session.SetSchema`. -/
def setSchema (db : String) : Handler Unit := call (.setSchema db)

/-- `session.setStreamingFetchVar`. -/
def setStreamingFetchVar (on : Bool) : Handler Unit := call (.setStreamingFetch on)

/-- The user of a session. -/
def sessionUser (id : ℕ) : Handler (Option String) := call (.sessionUser id)

/-- `Sessions.Kill`. -/
def killSession (id : ℕ) : Handler Unit := call (.kill id)

/-- An administrative command. -/
def runAdmin (r : RadonCommand) : Handler (Option String) := call (.admin r)

/-- Go on unless there is an error. -/
def raise : Option String → Handler Unit
  | none => return ()
  | some e => throw e

/-- Go on with the value of a result. -/
def ofExcept {α : Type} : Except String α → Handler α
  | .ok a => return a
  | .error e => throw e

/-- The outcome of a handler, with an error as a value. -/
def observe {α : Type} (p : Handler α) : Handler (Except String α) :=
  ExceptT.mk (p.run >>= fun r => .ret (.ok r))

/-- Run a handler for the elements of a list, up to the first error. -/
def forEach {α : Type} (body : α → Handler Unit) : List α → Handler Unit
  | [] => return ()
  | a :: as => do
    body a
    forEach body as

/-! ## Watching a handler -/

section Watched

variable {η α β : Type} {M : Monitor Call Call.Res η}

/-- Every call of a handler is permitted, and the outcome satisfies `Q`. -/
def Watched (M : Monitor Call Call.Res η) (p : Handler α) (Q : Except String α → η → Prop) (h : η) :
    Prop :=
  p.run.Obeys M Q h

@[simp] theorem watched_pure (a : α) (Q : Except String α → η → Prop) (h : η) :
    Watched M (pure a) Q h ↔ Q (.ok a) h := Iff.rfl

@[simp] theorem watched_throw (e : String) (Q : Except String α → η → Prop) (h : η) :
    Watched M (throw e) Q h ↔ Q (.error e) h := Iff.rfl

theorem watched_call (c : Call) (Q : Except String c.Res → η → Prop) (h : η) :
    Watched M (call c) Q h ↔ M.permits c h ∧ ∀ r, M.replies c r → Q (.ok r) (M.record c r h) := Iff.rfl

/-- The outcomes from which a handler that goes on with `next` is watched. -/
def Andthen (M : Monitor Call Call.Res η) (next : α → Handler β) (Q : Except String β → η → Prop) :
    Except String α → η → Prop
  | .ok a, h => Watched M (next a) Q h
  | .error e, h => Q (.error e) h

@[simp] theorem andthen_ok (next : α → Handler β) (Q : Except String β → η → Prop) (a : α) (h : η) :
    Andthen M next Q (.ok a) h ↔ Watched M (next a) Q h := Iff.rfl

@[simp] theorem andthen_error (next : α → Handler β) (Q : Except String β → η → Prop) (e : String)
    (h : η) : Andthen M next Q (.error e) h ↔ Q (.error e) h := Iff.rfl

@[simp] theorem watched_bind (p : Handler α) (next : α → Handler β) (Q : Except String β → η → Prop)
    (h : η) : Watched M (p >>= next) Q h ↔ Watched M p (Andthen M next Q) h := by
  rw [Watched, ExceptT.run_bind, Prog.obeys_bind, Watched]
  constructor
  · intro hp
    refine hp.mono fun r h' hr => ?_
    cases r <;> exact hr
  · intro hp
    refine hp.mono fun r h' hr => ?_
    cases r <;> exact hr

@[simp] theorem watched_observe (p : Handler α) (Q : Except String (Except String α) → η → Prop)
    (h : η) : Watched M (observe p) Q h ↔ Watched M p (fun r h' => Q (.ok r) h') h := by
  rw [Watched, observe, ExceptT.run_mk, Prog.obeys_bind]
  rfl

@[simp] theorem watched_raise (e : Option String) (Q : Except String Unit → η → Prop) (h : η) :
    Watched M (raise e) Q h ↔ Q (e.elim (.ok ()) .error) h := by
  cases e <;> rfl

@[simp] theorem watched_ofExcept (r : Except String α) (Q : Except String α → η → Prop) (h : η) :
    Watched M (ofExcept r) Q h ↔ Q r h := by
  cases r <;> rfl

end Watched

end Radon.Proxy
