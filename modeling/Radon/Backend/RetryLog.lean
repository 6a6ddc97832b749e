import Radon.Backend.World

/-!
# The XA retry log and its file

`XaCheck` under its mutex: a map of undelivered decisions, the file it is flushed to and the file
that takes the entries whose retries are used up. A pass visits every entry once, in any order;
what the backends answer in the visit of an entry is a `Visit`. A restart starts with an empty map
and loads the file.

The file operations succeed. The JSON encoder is any pair of functions that round-trips.
-/

namespace Radon.RetryLog

/-- `txnXACommitErrStateCommit` and `txnXACommitErrStateRollback`. -/
def stateText : Decision → String
  | .commit => "commit"
  | .rollback => "rollback"

/-- `XaCommitErr`. -/
structure XaCommitErr where
  time : String
  xaid : String
  state : Decision
  times : ℤ
  deriving DecidableEq

/-- What the log promises about a transaction: its xid and the decision for it. -/
def XaCommitErr.decision (e : XaCommitErr) : String × Decision := (e.xaid, e.state)

/-- The command that an entry asks for. -/
def XaCommitErr.query (e : XaCommitErr) : String :=
  "xa " ++ stateText e.state ++ " '" ++ e.xaid ++ "' "

/-- A JSON encoder. -/
structure Json (α : Type) where
  marshal : α → String
  unmarshal : String → Except Err α
  unmarshal_marshal : ∀ a, unmarshal (marshal a) = .ok a

/-- The encoders of an entry and of the list of entries `XaCommitErrs`. -/
structure Codec where
  entry : Json XaCommitErr
  logs : Json (List XaCommitErr)

/-- The order in which a loop meets the elements of a map. -/
structure Order where
  arrange : List XaCommitErr → List XaCommitErr
  perm : ∀ l, (arrange l).Perm l

/-- `XaCheck.retrys`: the entries have different xids. -/
structure Retrys where
  entries : List XaCommitErr
  nodup : (entries.map XaCommitErr.xaid).Nodup

/-- The empty map. -/
def Retrys.empty : Retrys := ⟨[], List.nodup_nil⟩

/-- Add an entry for an xid that has none. -/
def Retrys.insert (m : Retrys) (new : XaCommitErr) (h : new.xaid ∉ m.entries.map XaCommitErr.xaid) :
    Retrys :=
  ⟨new :: m.entries, List.nodup_cons.2 ⟨h, m.nodup⟩⟩

/-- `delete(xc.retrys, xaid)`. -/
def Retrys.delete (m : Retrys) (xaid : String) : Retrys :=
  ⟨m.entries.filter fun e => e.xaid ≠ xaid, m.nodup.sublist (List.filter_sublist.map _)⟩

/-- One retry less for the entry of an xid. -/
def countDown (xaid : String) (e : XaCommitErr) : XaCommitErr :=
  if e.xaid = xaid then { e with times := e.times - 1 } else e

@[simp] theorem countDown_xaid (xaid : String) (e : XaCommitErr) : (countDown xaid e).xaid = e.xaid := by
  unfold countDown; split <;> rfl

@[simp] theorem countDown_decision (xaid : String) (e : XaCommitErr) : (countDown xaid e).decision = e.decision := by
  unfold countDown; split <;> rfl

/-- `retry.Times--`, through the pointer that the map holds. -/
def Retrys.decTimes (m : Retrys) (xaid : String) : Retrys :=
  ⟨m.entries.map (countDown xaid), by
    rw [List.map_map, show XaCommitErr.xaid ∘ countDown xaid = XaCommitErr.xaid from
      funext (countDown_xaid xaid)]
    exact m.nodup⟩

/-- The checker and its two files: `xacheck.json`, and `xacheck_timesout.json` (`""` if absent). -/
structure XaCheck where
  times : ℤ
  retrys : Retrys
  file : Option String
  timesOut : String

/-- The result of `xa recover`: the driver counts the rows it read, and every row has one value for
each column. -/
structure RecoverResult where
  fields : ℕ
  rows : List (List String)
  rowsAffected : ℕ
  rowsAffected_eq : rowsAffected = rows.length
  width : ∀ row ∈ rows, row.length = fields

/-- `strings.EqualFold`. -/
def equalFold (a b : String) : Bool := a.toLower == b.toLower

/-- The rows of `xa recover` that `commitRetryBackends` takes for the xid. -/
def RecoverResult.matches (r : RecoverResult) (xaid : String) : List (List String) :=
  if 0 < r.rowsAffected ∧ r.fields = 4 then r.rows.filter fun row => equalFold (row.getD 3 "") xaid
  else []

/-- The backend lists the xid: one of the rows has it in its fourth column. -/
def RecoverResult.Lists (r : RecoverResult) (xaid : String) : Prop :=
  r.fields = 4 ∧ ∃ row ∈ r.rows, equalFold (row.getD 3 "") xaid = true

theorem RecoverResult.matches_ne_nil_iff (r : RecoverResult) (xaid : String) : r.matches xaid ≠ [] ↔ r.Lists xaid := by
  unfold RecoverResult.matches RecoverResult.Lists
  constructor
  · simp
  · rintro ⟨hfields, row, hrow, heq⟩
    rw [if_pos ⟨r.rowsAffected_eq ▸ List.length_pos_of_mem hrow, hfields⟩]
    exact List.ne_nil_of_mem (List.mem_filter.2 ⟨hrow, heq⟩)

/-- What the rest of the system answers in one call of `commitRetryBackends`: the backends of the
scatter, the transaction, the listings, and the error of the n-th command. The flush that may follow
the call meets the map in its own order. -/
structure Visit where
  backends : List String
  create : Option Err
  recover : String → Except Err RecoverResult
  reply : ℕ → String → String → Option Err
  order : Order

/-- In this visit the backend answered `xa recover` with a listing that has the xid. -/
def Visit.Lists (v : Visit) (back : String) (xaid : String) : Prop :=
  ∃ r, v.recover back = .ok r ∧ r.Lists xaid

/-- The first stage of `commitRetryBackends`: one element for every row that lists the xid. -/
def Visit.needCommitBackends (v : Visit) (xaid : String) : List String → Except Err (List String)
  | [] => .ok []
  | back :: backends => do
    let result ← v.recover back
    let need ← v.needCommitBackends xaid backends
    return (result.matches xaid).map (fun _ => back) ++ need

/-- A command of the second stage with its outcome. -/
structure Sent where
  backend : String
  query : String
  err : Option Err

/-- The second stage of `commitRetryBackends`, from the n-th command on. -/
def Visit.send (v : Visit) (query : String) : ℕ → List String → List Sent
  | _, [] => []
  | n, back :: need => ⟨back, query, v.reply n back query⟩ :: v.send query (n + 1) need

/-- Whether the command succeeded. -/
def Sent.ok (c : Sent) : Bool := c.err.isNone

/-- The commands that the visit sends for an entry. -/
def Visit.sent (v : Visit) (retry : XaCommitErr) : List Sent :=
  match v.needCommitBackends retry.xaid v.backends with
  | .error _ => []
  | .ok need => v.send retry.query 0 need

variable (codec : Codec)

/-- `XaCheck.addXaCommitErrLog`. -/
def addXaCommitErrLog (new : XaCommitErr) (xc : XaCheck) : Option Err × XaCheck :=
  if h : new.xaid ∈ xc.retrys.entries.map XaCommitErr.xaid then
    (some (.text ("xacheck.addXACommitErrLog.xaid[" ++ new.xaid ++ "].duplicate")), xc)
  else (none, { xc with retrys := xc.retrys.insert new h })

/-- `XaCheck.flushXaCommitErrLog`. -/
def flushXaCommitErrLog (order : Order) (xc : XaCheck) : XaCheck :=
  { xc with file := some (codec.logs.marshal (order.arrange xc.retrys.entries)) }

/-- `XaCheck.WriteXaCommitErrLog` at a clock reading. -/
def writeXaCommitErrLog (order : Order) (time xid : String) (state : Decision) (xc : XaCheck) :
    Option Err × XaCheck :=
  match addXaCommitErrLog ⟨time, xid, state, xc.times⟩ xc with
  | (some e, xc) => (some e, xc)
  | (none, xc) => (none, flushXaCommitErrLog codec order xc)

/-- `XaCheck.commitRetryBackends` once the transaction exists: whether the entry is committed or
timed out. -/
def retryBackends (v : Visit) (retry : XaCommitErr) (xc : XaCheck) : Except Err Bool × XaCheck :=
  match v.needCommitBackends retry.xaid v.backends with
  | .error e => (.error e, xc)
  | .ok need =>
    let count := (v.send retry.query 0 need).countP Sent.ok
    if 0 < count ∧ count = need.length then (.ok true, xc)
    else if retry.times ≤ 0 then
      (.ok true, { xc with timesOut := xc.timesOut ++ codec.entry.marshal retry })
    else (.ok false, { xc with retrys := xc.retrys.decTimes retry.xaid })

/-- `XaCheck.commitRetryBackends`. -/
def commitRetryBackends (v : Visit) (retry : XaCommitErr) (xc : XaCheck) :
    Except Err Bool × XaCheck :=
  if v.backends = [] then (.error (.text "xacheck.backend.empty"), xc)
  else
    match v.create with
    | some e => (.error e, xc)
    | none => retryBackends codec v retry xc

/-- The body of `XaCheck.xaCommitsRetryMain` for the entries not met yet. -/
def xaCommitsRetryMain (visit : String → Visit) : List XaCommitErr → XaCheck → Option Err × XaCheck
  | [], xc => (none, xc)
  | retry :: rest, xc =>
    match commitRetryBackends codec (visit retry.xaid) retry xc with
    | (.error e, xc) => (some e, xc)
    | (.ok false, xc) => xaCommitsRetryMain visit rest xc
    | (.ok true, xc) =>
      xaCommitsRetryMain visit rest (flushXaCommitErrLog codec (visit retry.xaid).order
        { xc with retrys := xc.retrys.delete retry.xaid })

/-- `XaCheck.xaCommitsRetry`: one pass. -/
def xaCommitsRetry (order : Order) (visit : String → Visit) (xc : XaCheck) : Option Err × XaCheck :=
  xaCommitsRetryMain codec visit (order.arrange xc.retrys.entries) xc

/-- The loop of `XaCheck.LoadXaCommitErrLogs`. -/
def loadLogs : List XaCommitErr → XaCheck → Option Err × XaCheck
  | [], xc => (none, xc)
  | new :: logs, xc =>
    match addXaCommitErrLog new xc with
    | (some e, xc) => (some e, xc)
    | (none, xc) => loadLogs logs xc

/-- `XaCheck.LoadXaCommitErrLogs`. -/
def loadXaCommitErrLogs (xc : XaCheck) : Option Err × XaCheck :=
  match xc.file with
  | none => (none, xc)
  | some data =>
    match codec.logs.unmarshal data with
    | .error e => (some e, xc)
    | .ok logs => loadLogs logs xc

/-- `NewXaCheck` on the files of an earlier process. -/
def newXaCheck (times : ℤ) (xc : XaCheck) : XaCheck := { xc with times := times, retrys := .empty }

/-- One operation on the log: a logged decision, a pass, or a restart with its configured times. -/
inductive Op
  | write (order : Order) (time xid : String) (state : Decision)
  | retry (order : Order) (visit : String → Visit)
  | restart (times : ℤ)

/-- An operation and the error it returns. -/
def step : Op → XaCheck → Option Err × XaCheck
  | .write order time xid state, xc => writeXaCommitErrLog codec order time xid state xc
  | .retry order visit, xc => xaCommitsRetry codec order visit xc
  | .restart times, xc => loadXaCommitErrLogs codec (newXaCheck times xc)

/-- The state after a history. -/
def run : List Op → XaCheck → XaCheck
  | [], xc => xc
  | op :: ops, xc => run ops (step codec op xc).2

/-- The first process on a machine without files. -/
def start (times : ℤ) : XaCheck := ⟨times, .empty, none, ""⟩

/-- The entries in the file; a file that does not exist has none. -/
def XaCheck.persisted (xc : XaCheck) : List XaCommitErr :=
  match xc.file with
  | none => []
  | some data =>
    match codec.logs.unmarshal data with
    | .error _ => []
    | .ok logs => logs

end Radon.RetryLog
