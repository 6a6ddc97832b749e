import Radon.Backend.Txn

/-!
# The XA retry loop

`XaCheck` keeps the decisions that did not reach every backend. A pass looks for the prepared
branches of each entry with `XA RECOVER` on all backends and sends the decision to those that
list one. An entry leaves the log when every such backend has accepted the decision, or when
its retries are used up.
-/

namespace Radon

open Concurrency

/-- The first stage of `XaCheck.commitRetryBackends`: the backends that list the xid. -/
def recoverBackends (g : Goroutine) (t : TxnId) (x : Xid) : List Backend → Go (Except Err (List Backend))
  | [] => return .ok []
  | back :: backends => do
    match ← txnExecuteOnThisBackend g t back .xaRecover with
    | .error e => return .error e
    | .ok result =>
      match ← recoverBackends g t x backends with
      | .error e => return .error e
      | .ok need => return .ok (if result.prepared x then back :: need else need)

/-- The second stage of `XaCheck.commitRetryBackends`: how many backends accept the decision. -/
def resendDecision (g : Goroutine) (t : TxnId) (query : Query) : List Backend → Go ℕ
  | [] => return 0
  | back :: backends => do
    let r ← txnExecuteOnThisBackend g t back query
    let count ← resendDecision g t query backends
    return if (errOf r).isNone then count + 1 else count

/-- Both stages in the transaction `t`: whether the entry is settled or timed out. -/
def retryEntry (g : Goroutine) (t : TxnId) (retry : XaCommitErr) (backends : List Backend) :
    Go (Except Err Bool) := do
  match ← recoverBackends g t retry.xaid backends with
  | .error e => return .error e
  | .ok need =>
    let count ← resendDecision g t (retry.state.query retry.xaid) need
    if 0 < count ∧ count = need.length then return .ok true
    else if retry.times ≤ 0 then
      act (.xcTimedOut retry.xaid)
      return .ok true
    else
      act (.xcDecTimes retry.xaid)
      return .ok false

/-- `XaCheck.commitRetryBackends`. -/
def commitRetryBackends (g : Goroutine) (retry : XaCommitErr) : Go (Except Err Bool) := do
  let backends ← act .scatterBackends
  if backends.entries = [] then return .error (.text "xacheck.backend.empty")
  else
    match ← createTransaction g with
    | .error e => return .error e
    | .ok t =>
      let r ← retryEntry g t retry backends.names
      finish g t
      return r

/-- `XaCheck.xaCommitsRetryMain` over the entries not visited yet, in any order. -/
def xaCommitsRetryMain (g : Goroutine) : ℕ → List XaCommitErr → Go (Option Err)
  | 0, _ => return none
  | n + 1, retrys => do
    let pick ← act .choose
    match retrys[pick % retrys.length]? with
    | none => return none
    | some retry =>
      match ← commitRetryBackends g retry with
      | .error e => return some e
      | .ok false => xaCommitsRetryMain g n (retrys.eraseIdx (pick % retrys.length))
      | .ok true =>
        act (.xcDelete retry.xaid)
        xaCommitsRetryMain g n (retrys.eraseIdx (pick % retrys.length))

/-- `XaCheck.xaCommitsRetry`. -/
def xaCommitsRetry (g : Goroutine) : Go (Option Err) := do
  act .xcLock
  let retrys ← act .xcRetrys
  let err ← xaCommitsRetryMain g retrys.length retrys
  act .xcUnlock
  return err

/-- `XaCheck.xaCommitCheck` for a number of ticks. -/
def xaCommitCheck (g : Goroutine) : ℕ → Go Unit
  | 0 => return ()
  | n + 1 => do
    let _ ← xaCommitsRetry g
    xaCommitCheck g n

end Radon
