import Mathlib.Logic.Function.Basic
import Radon.Backend.Xid

/-!
# A backend server under the XA commands

Each backend is a MySQL server. A branch is opened by `XA START` on a connection, runs
statements while it is active, and reaches the data only through `XA COMMIT` of the prepared
branch. Losing a connection rolls its branch back unless the branch is prepared; a prepared
branch survives detached and may then be ended from any connection.

Statements are tracked by their text only: `pending` lists what a branch has executed and
`durable` what the server has committed, in order.
-/

namespace Radon

/-- What Radon sends over a backend connection. -/
inductive Query
  | xaStart (x : Xid)
  | xaEnd (x : Xid)
  | xaPrepare (x : Xid)
  | xaCommit (x : Xid)
  | xaRollback (x : Xid)
  | xaRecover
  | sql (text : String)
  deriving DecidableEq

/-- The phases of an XA branch that a server distinguishes. -/
inductive BranchState
  | active
  | idle
  | prepared
  deriving DecidableEq

/-- A branch, the connection it is attached to, and the statements executed in it. -/
structure Branch where
  state : BranchState
  conn : Option ℕ
  pending : List String
  deriving DecidableEq

/-- A connection of a pool: whether it is usable, the branch it runs, the transaction it was handed
to, and how often it was released. A connection that is recycled and handed out again counts as a
new one. -/
structure ConnState where
  live : Bool := false
  xa : Option Xid := none
  holder : Option ℕ := none
  recycled : ℕ := 0
  closed : ℕ := 0
  killed : ℕ := 0
  deriving DecidableEq

/-- How often a connection was released. -/
def ConnState.released (k : ConnState) : ℕ := k.recycled + k.closed + k.killed

/-- One MySQL server together with the connections its pool has handed out. -/
structure Server where
  issued : ℕ := 0
  conns : ℕ → ConnState := fun _ => {}
  branches : Xid → Option Branch := fun _ => none
  durable : List String := []

/-- The rows a statement returns, of which only an `XA RECOVER` listing is looked at. -/
structure Result where
  prepared : Xid → Bool := fun _ => false

/-- `Result.AppendResult`. -/
def Result.append (r r' : Result) : Result := ⟨fun x => r.prepared x || r'.prepared x⟩

/-- How a command or a pool fails: whether the server still carried the command out, whether the
connection is lost, and the error number reported. -/
structure Fault where
  applied : Bool
  broken : Bool
  num : ℕ

/-- `ER_XAER_NOTA`, the server does not know the xid. -/
def erXaerNota : ℕ := 1397

/-- `ER_XAER_RMFAIL`, the command does not apply in the branch's phase. -/
def erXaerRmfail : ℕ := 1399

namespace Server

/-- Replace one branch. -/
def setBranch (s : Server) (x : Xid) (branch : Option Branch) : Server :=
  { s with branches := Function.update s.branches x branch }

/-- Change one connection. -/
def setConn (s : Server) (i : ℕ) (f : ConnState → ConnState) : Server :=
  { s with conns := Function.update s.conns i (f (s.conns i)) }

/-- Whether `XA RECOVER` lists the branch. -/
def lists (s : Server) (x : Xid) : Bool :=
  match s.branches x with
  | some branch => branch.state == .prepared
  | none => false

/-- Whether a prepared branch may be ended from connection `i`. -/
def mayEnd (s : Server) (i : ℕ) (x : Xid) (branch : Branch) : Bool :=
  (branch.conn == some i || branch.conn.isNone) && ((s.conns i).xa.isNone || (s.conns i).xa == some x)

/-- End a branch on connection `i` and add `effects` to the committed data. -/
def endBranch (s : Server) (i : ℕ) (x : Xid) (effects : List String) : Server :=
  { (s.setBranch x none).setConn i fun c => { c with xa := none } with durable := s.durable ++ effects }

/-- The server's answer to a command on connection `i`: the reply, or an error number. -/
def run (s : Server) (i : ℕ) : Query → Except ℕ Result × Server
  | .xaStart x =>
    if (s.conns i).xa = none ∧ s.branches x = none then
      (.ok {}, (s.setBranch x (some ⟨.active, some i, []⟩)).setConn i fun c => { c with xa := some x })
    else (.error erXaerRmfail, s)
  | .xaEnd x =>
    match s.branches x with
    | some branch =>
      if (s.conns i).xa = some x ∧ branch.state = .active then
        (.ok {}, s.setBranch x (some { branch with state := .idle }))
      else (.error erXaerRmfail, s)
    | none => (.error erXaerNota, s)
  | .xaPrepare x =>
    match s.branches x with
    | some branch =>
      if (s.conns i).xa = some x ∧ branch.state = .idle then
        (.ok {}, s.setBranch x (some { branch with state := .prepared }))
      else (.error erXaerRmfail, s)
    | none => (.error erXaerNota, s)
  | .xaCommit x =>
    match s.branches x with
    | some branch =>
      if branch.state = .prepared ∧ s.mayEnd i x branch then (.ok {}, s.endBranch i x branch.pending)
      else (.error erXaerRmfail, s)
    | none => (.error erXaerNota, s)
  | .xaRollback x =>
    match s.branches x with
    | some branch =>
      if (branch.state = .prepared ∧ s.mayEnd i x branch) ∨
          (branch.state = .idle ∧ (s.conns i).xa = some x) then
        (.ok {}, s.endBranch i x [])
      else (.error erXaerRmfail, s)
    | none => (.error erXaerNota, s)
  | .xaRecover => (.ok ⟨s.lists⟩, s)
  | .sql text =>
    match (s.conns i).xa with
    | none => (.ok {}, { s with durable := s.durable ++ [text] })
    | some x =>
      match s.branches x with
      | some branch =>
        if branch.state = .active then
          (.ok {}, s.setBranch x (some { branch with pending := branch.pending ++ [text] }))
        else (.error erXaerRmfail, s)
      | none => (.error erXaerRmfail, s)

/-- The server loses connection `i`: a prepared branch stays behind detached, any other is rolled
back. -/
def disconnect (s : Server) (i : ℕ) : Server :=
  let s' := s.setConn i fun c => { c with live := false, xa := none }
  match (s.conns i).xa with
  | none => s'
  | some x =>
    match s.branches x with
    | some branch =>
      if branch.state = .prepared then s'.setBranch x (some { branch with conn := none })
      else s'.setBranch x none
    | none => s'

/-- A command that fails for the client. -/
def runFault (s : Server) (i : ℕ) (q : Query) (f : Fault) : Server :=
  let s' := if f.applied then (s.run i q).2 else s
  if f.broken then s'.disconnect i else s'

/-- Hand out a connection to transaction `t`. -/
def issue (s : Server) (t : ℕ) : Server :=
  { s with
    issued := s.issued + 1
    conns := Function.update s.conns s.issued { live := true, holder := some t } }

/-- Only connection `i` changes; it keeps its holder and is released `n` more times. -/
structure Touches (n i : ℕ) (s s' : Server) : Prop where
  issued : s'.issued = s.issued
  other : ∀ j, j ≠ i → s'.conns j = s.conns j
  holder : (s'.conns i).holder = (s.conns i).holder
  released : (s'.conns i).released = (s.conns i).released + n

theorem Touches.refl (i : ℕ) (s : Server) : Touches 0 i s s := ⟨rfl, fun _ _ => rfl, rfl, rfl⟩

theorem Touches.trans {n m i : ℕ} {s s' s'' : Server} (h : Touches n i s s') (h' : Touches m i s' s'') :
    Touches (n + m) i s s'' where
  issued := h'.issued.trans h.issued
  other j hj := (h'.other j hj).trans (h.other j hj)
  holder := h'.holder.trans h.holder
  released := by rw [h'.released, h.released, Nat.add_assoc]

theorem touches_setBranch (i : ℕ) (s : Server) (x : Xid) (branch : Option Branch) :
    Touches 0 i s (s.setBranch x branch) := ⟨rfl, fun _ _ => rfl, rfl, rfl⟩

theorem touches_setConn {n i : ℕ} (s : Server) {f : ConnState → ConnState}
    (hholder : (f (s.conns i)).holder = (s.conns i).holder)
    (hreleased : (f (s.conns i)).released = (s.conns i).released + n) : Touches n i s (s.setConn i f) where
  issued := rfl
  other _ hj := Function.update_of_ne hj _ _
  holder := (congrArg ConnState.holder (Function.update_self i _ _)).trans hholder
  released := (congrArg ConnState.released (Function.update_self i _ _)).trans hreleased

theorem touches_endBranch (i : ℕ) (s : Server) (x : Xid) (effects : List String) :
    Touches 0 i s (s.endBranch i x effects) := by
  have h := (touches_setBranch i s x none).trans
    (touches_setConn (n := 0) (i := i) (s.setBranch x none) (f := fun c => { c with xa := none }) rfl rfl)
  exact ⟨h.issued, h.other, h.holder, h.released⟩

/-- A command changes nothing but the branch and the state of its own connection. -/
theorem touches_run (i : ℕ) (s : Server) (q : Query) : Touches 0 i s (s.run i q).2 := by
  cases q with
  | xaStart x =>
    simp only [run]
    split
    · have h := touches_setConn (n := 0) (i := i)
        (s.setBranch x (some ⟨.active, some i, []⟩)) (f := fun c => { c with xa := some x }) rfl rfl
      exact (touches_setBranch i s x _).trans h
    · exact .refl i s
  | xaEnd x => grind [Touches.refl, touches_setBranch, run]
  | xaPrepare x => grind [Touches.refl, touches_setBranch, run]
  | xaCommit x => grind [Touches.refl, touches_endBranch, run]
  | xaRollback x => grind [Touches.refl, touches_endBranch, run]
  | xaRecover => exact .refl i s
  | sql text =>
    simp only [run]
    split
    · exact ⟨rfl, fun _ _ => rfl, rfl, rfl⟩
    · grind [Touches.refl, touches_setBranch]

theorem touches_disconnect (i : ℕ) (s : Server) : Touches 0 i s (s.disconnect i) := by
  have h : Touches 0 i s (s.setConn i fun c => { c with live := false, xa := none }) :=
    touches_setConn s rfl rfl
  unfold disconnect
  split
  · exact h
  · split
    · split
      · exact h.trans (touches_setBranch i _ _ _)
      · exact h.trans (touches_setBranch i _ _ _)
    · exact h

theorem touches_runFault (i : ℕ) (s : Server) (q : Query) (f : Fault) : Touches 0 i s (s.runFault i q f) := by
  have h : Touches 0 i s (if f.applied then (s.run i q).2 else s) := by
    split
    · exact touches_run i s q
    · exact .refl i s
  simp only [runFault]
  split
  · exact h.trans (touches_disconnect i _)
  · exact h

end Server

end Radon
