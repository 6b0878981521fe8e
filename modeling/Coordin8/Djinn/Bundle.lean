import Coordin8.Space.Manager
import Coordin8.Txn.Manager

/-!
# The bundled Djinn

The transaction manager and the Space manager in one server, each with its own
lease manager.  The Space enlists in a transaction through `LocalTxnEnlister`,
which calls `TxnManager::enlist` directly.  The coordinator calls back into the
participant service of the Space at the endpoint the Space enlists with; such a
call is sent, may arrive, and may be answered, and it may fail in transport at
any time, whether or not it arrives.

Everything else that the two managers do is left to them: `Djinn.step` lets each
make its own steps, except for those in which they meet.
-/

namespace Coordin8

open Support

structure DjinnConfig where
  txn : TxnConfig
  space : SpaceConfig
  endpoint : String
  /-- The Space enlists with the endpoint at which it is called. -/
  linked : space.enlister = some endpoint

/-- A call of the coordinator to the Space: the call number `slot` in the batch
of the coordinator's task `task`.  Once it has arrived, the Space's task
`handler` works on it. -/
structure SpaceCall where
  task : Nat
  slot : Nat
  kind : CallKind
  txnId : String
  handler : Option Nat
deriving DecidableEq, Repr

structure Djinn where
  txn : TxnProc
  space : SpaceProc
  calls : List SpaceCall

def Djinn.new : Djinn where
  txn := .new
  space := .new
  calls := []

inductive DjinnAct where
  /-- The transaction manager makes a step of its own. -/
  | txn (act : TxnAct)
  /-- The Space manager makes a step of its own. -/
  | space (act : SpaceAct)
  /-- The Space's task `j` enlists the Space. -/
  | enlist (j : Nat)
  /-- The coordinator's task `i` sends the call number `k` of its batch. -/
  | send (i k : Nat)
  /-- The call number `c` arrives at the Space. -/
  | deliver (c : Nat)
  /-- The answer to the call number `c` arrives at the coordinator. -/
  | answer (c : Nat)
  /-- The coordinator sees the call number `c` fail. -/
  | fail (c : Nat)

/-! ## Where the managers meet -/

/-- The endpoint of the call number `k` in the current batch. -/
def TxnPc.callee (k : Nat) : TxnPc → Option String
  | .prepareAndCommit _ batch | .preparing _ batch =>
      (batch[k]?).map Prod.fst
  | .committing _ batch | .aborting _ batch _ _ => (batch[k]?).map Prod.fst
  | _ => none

/-- A step of the coordinator that is about one of its calls to `endpoint`. -/
def TxnProc.calling (s : TxnProc) (endpoint : String) : TxnAct → Bool
  | .step i (.send k) | .step i (.vote k _) | .step i (.ack k _) =>
      match s.tasks[i]? with
      | some pc => pc.callee k == some endpoint
      | none => false
  | _ => false

/-- A step of the Space that is the coordinator's doing: it calls the
participant service, or answers the enlister. -/
def spaceCalled : SpaceAct → Bool
  | .call pc => pc.participant
  | .step _ (.enlisted _) => true
  | _ => false

namespace CallKind

/-- The participant service's method. -/
def handler (x : String) : CallKind → SpacePc
  | .prepare => .prepare x
  | .prepareAndCommit => .prepareAndCommit x
  | .commit => .commitTxn x .unit
  | .abort => .abortTxn x

/-- What the coordinator makes of the Space's reply to the call number `k`, or
of a failure. -/
def receipt (k : Nat) : CallKind → Option SpaceReply → Option TxnChoice
  | .prepare, some (.vote v) | .prepareAndCommit, some (.vote v) =>
      some (.vote k (some v))
  | .prepare, none | .prepareAndCommit, none => some (.vote k none)
  | .commit, some .unit | .abort, some .unit => some (.ack k true)
  | .commit, none | .abort, none => some (.ack k false)
  | _, _ => none

end CallKind

/-! ## Steps -/

namespace Djinn

variable (config : DjinnConfig)

/-- `LocalTxnEnlister::enlist` for the Space's task `j`: one call of the
transaction manager, whose result goes back to the Space. -/
def enlist (s : Djinn) (j : Nat) : Option Djinn :=
  match s.space.tasks[j]? with
  | some (.enlist x _) =>
      (run (txnProgram config.txn).step s.txn
        [.call (.enlist x config.endpoint 0),
          .step s.txn.tasks.length .go]).bind fun txn =>
        match txn.tasks[s.txn.tasks.length]? with
        | some (.returned result) =>
            ((spaceProgram config.space).step s.space
              (.step j (.enlisted (result.map fun _ => ())))).map fun space =>
                { s with txn := txn, space := space }
        | _ => none
  | _ => none

def send (s : Djinn) (i k : Nat) : Option Djinn :=
  match (s.txn.tasks[i]?).bind (TxnPc.send k) with
  | some (.called x kind ep, _) =>
      if ep = config.endpoint then
        ((txnProgram config.txn).step s.txn (.step i (.send k))).map fun txn =>
          { s with
            txn := txn
            calls := s.calls ++ [{
              task := i
              slot := k
              kind := kind
              txnId := x
              handler := none }] }
      else
        none
  | _ => none

def deliver (s : Djinn) (c : Nat) : Option Djinn :=
  match s.calls[c]? with
  | some call =>
      match call.handler with
      | some _ => none
      | none =>
          ((spaceProgram config.space).step s.space
            (.call (call.kind.handler call.txnId))).map fun space =>
              { s with
                space := space
                calls := s.calls.set c
                  { call with handler := some s.space.tasks.length } }
  | none => none

/-- The coordinator gets a reply to a call, or sees it fail. -/
def receive (s : Djinn) (call : SpaceCall) (reply : Option SpaceReply) :
    Option Djinn :=
  match call.kind.receipt call.slot reply with
  | some choice =>
      ((txnProgram config.txn).step s.txn (.step call.task choice)).map
        fun txn => { s with txn := txn }
  | none => none

def answer (s : Djinn) (c : Nat) : Option Djinn :=
  match s.calls[c]? with
  | some call =>
      match call.handler.bind (s.space.tasks[·]?) with
      | some (.returned (.ok reply)) => receive config s call (some reply)
      | _ => none
  | none => none

def step (s : Djinn) : DjinnAct → Option Djinn
  | .txn act =>
      if s.txn.calling config.endpoint act then
        none
      else
        ((txnProgram config.txn).step s.txn act).map fun txn =>
          { s with txn := txn }
  | .space act =>
      if spaceCalled act then
        none
      else
        ((spaceProgram config.space).step s.space act).map fun space =>
          { s with space := space }
  | .enlist j => enlist config s j
  | .send i k => send config s i k
  | .deliver c => deliver config s c
  | .answer c => answer config s c
  | .fail c => (s.calls[c]?).bind fun call => receive config s call none

end Djinn

/-- The states that some interleaving of the two managers reaches. -/
def DjinnReachable (config : DjinnConfig) (s : Djinn) : Prop :=
  Reachable (Djinn.step config) Djinn.new s

end Coordin8
