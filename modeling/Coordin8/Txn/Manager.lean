import Coordin8.Lease.Manager
import Coordin8.Provider.TxnStore
import Coordin8.Support.Broadcast
import Coordin8.Support.JoinAll
import Coordin8.Support.Pool
import Coordin8.Support.Text

/-!
# The transaction manager

`TxnManager` over the in-memory transaction store, in the process that runs it:
with its lease manager and `LeaseService`, the reaper, and the `txn` cascade
that aborts a transaction when a lease is reclaimed.  `TxnPc` says where a call
stands; `TxnPc.advance` makes its next move, which is one store call, one
outbound call to a participant sent or answered, or a local step.

A participant answers `Prepare` and `PrepareAndCommit` with any 32-bit number,
and any outbound call may fail in transport, whether or not it was delivered.
-/

namespace Coordin8

open Support

/-- The calls the coordinator makes to a participant. -/
inductive CallKind where
  | prepare
  | prepareAndCommit
  | commit
  | abort
deriving DecidableEq, Repr

/-- What starts an `abort_expired`. -/
inductive Origin where
  | cascade
  | sweep
deriving DecidableEq, Repr

/-- The function that moves a transaction out of `Active`, or on from there. -/
inductive Agent where
  | commit
  | abort
  | abortExpired (origin : Origin)
deriving DecidableEq, Repr

/-- What happened in the process.  An answer of `none` is a transport error. -/
inductive TxnEvent where
  | began (task : Nat) (txnId leaseId : String)
  | enlisted (txnId : String) (participant : ParticipantRecord)
  | moved (task : Nat) (agent : Agent) (txnId : String)
      (old new : TransactionState)
  | called (txnId : String) (kind : CallKind) (endpoint : String)
  | voted (txnId : String) (kind : CallKind) (k : Nat) (vote : Option Int32)
  | unexpected (txnId : String) (old new : TransactionState)
  | granted (resourceId : String)
deriving DecidableEq, Repr

/-- Only the recognized values are votes to commit. -/
def voteFromI32 (v : Int32) : PrepareVote :=
  if v = 0 then .prepared else if v = 1 then .notChanged else .aborted

/-- What a call returns when it succeeds. -/
inductive TxnReply where
  | unit
  | begun (txnId : String) (lease : LeaseRecord)
  | state (s : TransactionState)
deriving DecidableEq, Repr

abbrev TxnResult := Except Error TxnReply

/-- What the commit does after a transition of its own. -/
inductive After where
  /-- Cancel the lease and return. -/
  | finish (result : TxnResult)
  | commitPhase (preparedEps : List String)
  | abortPhase
deriving DecidableEq

/-- Where a call stands. -/
inductive TxnPc where
  | begin (ttlSecs : UInt64)
  | beginCreate (txnId : String) (lease : LeaseRecord)
  | enlist (txnId endpoint : String) (crashCount : UInt64)
  | getState (txnId : String)
  | commit (txnId : String)
  | commitLost (txnId : String)
  | commitFetch (txnId : String)
  | prepareAndCommit (txn : TransactionRecord)
      (batch : Batch String (Option Int32))
  | preparing (txn : TransactionRecord) (batch : Batch String (Option Int32))
  | transition (txn : TransactionRecord) (old new : TransactionState)
      (after : After)
  | committing (txn : TransactionRecord) (batch : Batch String Bool)
  | abort (txnId : String)
  | abortLost (txnId : String)
  | abortFetch (txnId : String)
  | abortExpired (origin : Origin) (txnId : String)
  | expiredFetch (txnId : String)
  /-- `do_abort_participants`; then the lease `cancel` is cancelled, if any. -/
  | aborting (txnId : String) (batch : Batch String Bool)
      (cancel : Option String) (result : TxnResult)
  | cancelLease (pc : LeasePc) (result : TxnResult)
  /-- A call of `LeaseService`, or a sweep of the reaper. -/
  | lease (pc : LeasePc)
  | returned (result : TxnResult)
deriving DecidableEq

/-- What the outside decides in a move. -/
inductive TxnChoice where
  | go
  | uuids (txnId leaseId : String)
  | send (k : Nat)
  | vote (k : Nat) (reply : Option Int32)
  | ack (k : Nat) (ok : Bool)
  | lease (c : LeaseChoice)

structure TxnConfig where
  lease : LeaseConfig
  /-- `ParticipantAllowlist::check`. -/
  allow : String → Except Error Unit
  /-- Capacity of the broadcast of reclaimed leases. -/
  capacity : Nat

/-- What the calls share.  `cursor` is the position of the cascade in the
broadcast of reclaimed leases. -/
structure TxnHost where
  txns : InMemoryTxnStore
  landlord : Landlord
  cursor : Nat
deriving DecidableEq

def TxnHost.new : TxnHost where
  txns := .new
  landlord := .new
  cursor := 0

/-- The derived `Debug` of a state. -/
def TransactionState.debug : TransactionState → String
  | .active => "Active"
  | .voting => "Voting"
  | .prepared => "Prepared"
  | .committed => "Committed"
  | .aborted => "Aborted"

def endpoints (participants : List ParticipantRecord) : List String :=
  participants.map ParticipantRecord.endpoint

namespace TxnPc

/-! ## Local steps -/

/-- The branches of `commit` on the final participant list. -/
def plan (txn : TransactionRecord) : TxnPc :=
  match txn.participants with
  | [] => .transition txn .voting .committed (.finish (.ok .unit))
  | [p] => .prepareAndCommit txn (Batch.start [p.endpoint])
  | ps => .preparing txn (Batch.start (endpoints ps))

/-- The loop over the prepare results.  It stops at the first participant that
voted to abort or could not be reached; otherwise it collects the endpoints
that have something to commit. -/
def countVotes (preparedEps : List String) :
    List (String × Option Int32) → Option (List String)
  | [] => some preparedEps
  | (_, none) :: _ => none
  | (ep, some v) :: rest =>
      match voteFromI32 v with
      | .prepared => countVotes (preparedEps ++ [ep]) rest
      | .notChanged => countVotes preparedEps rest
      | .aborted => none

/-- What `commit` does with the answer to `PrepareAndCommit`. -/
def decideSingle (txn : TransactionRecord) : Option Int32 → TxnPc
  | none => .returned (.error (.transactionOutcomeUnknown txn.txnId))
  | some v =>
      match voteFromI32 v with
      | .prepared | .notChanged =>
          .transition txn .voting .committed (.finish (.ok .unit))
      | .aborted =>
          .transition txn .voting .aborted
            (.finish (.error (.transactionAborted txn.txnId)))

/-- What `commit` does with all answers to `Prepare`. -/
def decideVotes (txn : TransactionRecord)
    (results : List (String × Option Int32)) : TxnPc :=
  match countVotes [] results with
  | none => .transition txn .voting .aborted .abortPhase
  | some preparedEps =>
      .transition txn .voting .prepared (.commitPhase preparedEps)

/-- What `commit` does after a transition. -/
def resume (txn : TransactionRecord) : After → TxnPc
  | .finish result => .cancelLease (.cancel txn.leaseId) result
  | .commitPhase preparedEps => .committing txn (Batch.start preparedEps)
  | .abortPhase =>
      .aborting txn.txnId (Batch.start (endpoints txn.participants))
        (some txn.leaseId) (.error (.transactionAborted txn.txnId))

/-- `join_all` is done: all calls of the batch have been answered. -/
def join : TxnPc → Option TxnPc
  | .prepareAndCommit txn batch =>
      match batch.results with
      | some [(_, reply)] => some (decideSingle txn reply)
      | _ => none
  | .preparing txn batch => batch.results.map (decideVotes txn)
  | .committing txn batch =>
      batch.results.map fun _ =>
        .transition txn .prepared .committed (.finish (.ok .unit))
  | .aborting _ batch cancel result =>
      batch.results.map fun _ =>
        match cancel with
        | some leaseId => .cancelLease (.cancel leaseId) result
        | none => .returned result
  | _ => none

/-! ## Calls to participants -/

/-- Send the call number `k` of the current batch. -/
def send (k : Nat) : TxnPc → Option (TxnEvent × TxnPc)
  | .prepareAndCommit txn batch =>
      (batch.send k).map fun (ep, batch) =>
        (.called txn.txnId .prepareAndCommit ep, .prepareAndCommit txn batch)
  | .preparing txn batch =>
      (batch.send k).map fun (ep, batch) =>
        (.called txn.txnId .prepare ep, .preparing txn batch)
  | .committing txn batch =>
      (batch.send k).map fun (ep, batch) =>
        (.called txn.txnId .commit ep, .committing txn batch)
  | .aborting txnId batch cancel result =>
      (batch.send k).map fun (ep, batch) =>
        (.called txnId .abort ep, .aborting txnId batch cancel result)
  | _ => none

/-- The answer to a `Prepare` or `PrepareAndCommit` arrives. -/
def vote (k : Nat) (reply : Option Int32) : TxnPc → Option (TxnEvent × TxnPc)
  | .prepareAndCommit txn batch =>
      (batch.answer k reply).map fun (_, batch) =>
        (.voted txn.txnId .prepareAndCommit k reply,
          .prepareAndCommit txn batch)
  | .preparing txn batch =>
      (batch.answer k reply).map fun (_, batch) =>
        (.voted txn.txnId .prepare k reply, .preparing txn batch)
  | _ => none

/-- The answer to a `Commit` or `Abort` arrives; failures are only logged. -/
def ack (k : Nat) (ok : Bool) : TxnPc → Option TxnPc
  | .committing txn batch =>
      (batch.answer k ok).map fun (_, batch) => .committing txn batch
  | .aborting txnId batch cancel result =>
      (batch.answer k ok).map fun (_, batch) =>
        .aborting txnId batch cancel result
  | _ => none

/-! ## Store calls -/

/-- A move that leaves the shared state as it is. -/
def stay (h : TxnHost) (pc : TxnPc) :
    Option (TxnHost × TxnPc × List TxnEvent) :=
  some (h, pc, [])

/-- The compare-and-set out of `Active` at the start of `commit`, `abort` and
`abort_expired`. -/
def claim (task : Nat) (h : TxnHost) (agent : Agent) (txnId : String)
    (new : TransactionState) (won lost : TxnPc) (failed : Error → TxnPc) :
    Option (TxnHost × TxnPc × List TxnEvent) :=
  match h.txns.updateStateIf txnId .active new with
  | .error e => stay h (failed e)
  | .ok (false, _) => stay h lost
  | .ok (true, txns) =>
      some ({ h with txns := txns }, won, [.moved task agent txnId .active new])

/-- `fetch`, the answer depending on the record. -/
def fetch (h : TxnHost) (txnId : String) (found : TransactionRecord → TxnPc) :
    Option (TxnHost × TxnPc × List TxnEvent) :=
  match h.txns.get txnId with
  | none => stay h (.returned (.error (.transactionNotFound txnId)))
  | some txn => stay h (found txn)

/-- The answer of a `commit` that did not win the compare-and-set. -/
def commitRefused (txn : TransactionRecord) (txnId : String) : TxnResult :=
  match txn.state with
  | .committed => .ok .unit
  | .aborted => .error (.transactionAborted txnId)
  | _ => .error (.transactionCommitInProgress txnId)

/-- The answer of an `abort` that did not win the compare-and-set. -/
def abortRefused (txn : TransactionRecord) (txnId : String) : TxnResult :=
  match txn.state with
  | .committed => .error (.transactionTerminal txnId)
  | .aborted => .ok .unit
  | _ => .error (.transactionCommitInProgress txnId)

/-- The next store call, or a local step. -/
def go (config : TxnConfig) (task : Nat) (h : TxnHost) :
    TxnPc → Option (TxnHost × TxnPc × List TxnEvent)
  | .beginCreate txnId granted =>
      let record : TransactionRecord := {
        txnId := txnId
        leaseId := granted.leaseId
        state := .active
        participants := []
        begunAt := h.landlord.now }
      some ({ h with txns := h.txns.create record },
        .returned (.ok (.begun txnId granted)), [])
  | .enlist txnId endpoint crashCount =>
      match config.allow endpoint with
      | .error e => stay h (.returned (.error e))
      | .ok () =>
          let participant : ParticipantRecord := {
            endpoint := endpoint
            crashCount := crashCount }
          match h.txns.addParticipant txnId participant with
          | .error e => stay h (.returned (.error e))
          | .ok txns =>
              some ({ h with txns := txns }, .returned (.ok .unit),
                [.enlisted txnId participant])
  | .getState txnId =>
      fetch h txnId fun txn => .returned (.ok (.state txn.state))
  | .commit txnId =>
      claim task h .commit txnId .voting (.commitFetch txnId)
        (.commitLost txnId) fun e => .returned (.error e)
  | .commitLost txnId =>
      fetch h txnId fun txn => .returned (commitRefused txn txnId)
  | .commitFetch txnId => fetch h txnId plan
  | .transition txn old new after =>
      match h.txns.updateStateIf txn.txnId old new with
      | .error e => stay h (.returned (.error e))
      | .ok (true, txns) =>
          some ({ h with txns := txns }, resume txn after,
            [.moved task .commit txn.txnId old new])
      | .ok (false, _) =>
          let message :=
            s!"transaction {txn.txnId}: expected state {old.debug} during commit"
          some (h, .returned (.error (.internal message)),
            [.unexpected txn.txnId old new])
  | .abort txnId =>
      claim task h .abort txnId .aborted (.abortFetch txnId)
        (.abortLost txnId) fun e => .returned (.error e)
  | .abortLost txnId =>
      fetch h txnId fun txn => .returned (abortRefused txn txnId)
  | .abortFetch txnId =>
      fetch h txnId fun txn =>
        .aborting txnId (Batch.start (endpoints txn.participants))
          (some txn.leaseId) (.ok .unit)
  | .abortExpired origin txnId =>
      claim task h (.abortExpired origin) txnId .aborted (.expiredFetch txnId)
        (.returned (.ok .unit)) fun
          | .transactionNotFound _ => .returned (.ok .unit)
          | e => .returned (.error e)
  | .expiredFetch txnId =>
      match h.txns.get txnId with
      | none => stay h (.returned (.ok .unit))
      | some txn =>
          stay h (.aborting txnId (Batch.start (endpoints txn.participants))
            none (.ok .unit))
  | pc => (join pc).bind (stay h)

/-- `begin`: draw the transaction's id and grant its lease. -/
def grantLease (config : TxnConfig) (task : Nat) (h : TxnHost)
    (ttlSecs : UInt64) (txnId leaseId : String) :
    Option (TxnHost × TxnPc × List TxnEvent) :=
  if txnId ∈ h.landlord.uuids ∨ leaseId ∈ txnId :: h.landlord.uuids then
    none
  else
    let landlord := { h.landlord with uuids := txnId :: h.landlord.uuids }
    match landlord.grant config.lease leaseId ("txn:" ++ txnId) ttlSecs with
    | .error e => some ({ h with landlord := landlord }, .returned (.error e), [])
    | .ok (granted, landlord) =>
        some ({ h with landlord := landlord }, .beginCreate txnId granted,
          [.began task txnId granted.leaseId])

/-- `cancel(..).await.ok()`: the answer of the lease manager is dropped. -/
def afterCancel (result : TxnResult) : LeasePc → TxnPc
  | .returned _ => .returned result
  | pc => .cancelLease pc result

/-- A client's grant is recorded when it succeeds. -/
def grantEvents : LeasePc → LeasePc → List TxnEvent
  | .grant resourceId _, .returned (.ok _) => [.granted resourceId]
  | _, _ => []

theorem eq_of_mem_grantEvents {pc pc' : LeasePc} {e : TxnEvent}
    (h : e ∈ grantEvents pc pc') : ∃ resourceId, e = .granted resourceId := by
  unfold grantEvents at h
  split at h
  · exact ⟨_, List.mem_singleton.mp h⟩
  · cases h

/-- A move of the lease manager, inside a call of the transaction manager or
for a client. -/
def leaseStep (config : TxnConfig) (h : TxnHost) (c : LeaseChoice) :
    TxnPc → Option (TxnHost × TxnPc × List TxnEvent)
  | .cancelLease pc result =>
      (pc.advance config.lease h.landlord c).map fun (landlord, pc) =>
        ({ h with landlord := landlord }, afterCancel result pc, [])
  | .lease pc =>
      (pc.advance config.lease h.landlord c).map fun (landlord, pc') =>
        ({ h with landlord := landlord }, .lease pc', grantEvents pc pc')
  | _ => none

/-- The next move of a call. -/
def advance (config : TxnConfig) (task : Nat) (h : TxnHost) (pc : TxnPc) :
    TxnChoice → Option (TxnHost × TxnPc × List TxnEvent)
  | .go => pc.go config task h
  | .uuids txnId leaseId =>
      match pc with
      | .begin ttlSecs => grantLease config task h ttlSecs txnId leaseId
      | _ => none
  | .send k => (pc.send k).map fun (event, pc) => (h, pc, [event])
  | .vote k reply => (pc.vote k reply).map fun (event, pc) => (h, pc, [event])
  | .ack k ok => (pc.ack k ok).map fun pc => (h, pc, [])
  | .lease c => leaseStep config h c pc

/-- The calls a client, the orphan sweep or the reaper may start. -/
def entry : TxnPc → Bool
  | .begin _ | .enlist .. | .getState _ | .commit _ | .abort _ => true
  | .abortExpired .sweep _ => true
  | .lease pc => pc.entry
  | _ => false

end TxnPc

/-! ## The process -/

/-- The clock moves, or the cascade takes the next reclaimed lease. -/
inductive TxnAmbient where
  | tick (nanoseconds : Nat)
  | cascade
deriving DecidableEq, Repr

/-- The handler of the `txn` cascade: the transaction is found by the resource
id of the reclaimed lease. -/
def cascadeHandler (e : LeaseReclaimed) : List TxnPc :=
  match stripPrefix "txn:" e.record.resourceId with
  | some txnId => [.abortExpired .cascade txnId]
  | none => []

def TxnHost.ambient (config : TxnConfig) (h : TxnHost) :
    TxnAmbient → Option (TxnHost × List TxnPc)
  | .tick d =>
      some ({ h with landlord := { h.landlord with
        now := h.landlord.now + d } }, [])
  | .cascade =>
      match recv config.capacity h.landlord.sent h.cursor with
      | none => none
      | some (.lagged _, cursor) => some ({ h with cursor := cursor }, [])
      | some (.message e, cursor) =>
          some ({ h with cursor := cursor }, cascadeHandler e)

abbrev TxnAct := PoolAct TxnPc TxnChoice TxnAmbient

abbrev TxnProc := Pool TxnHost TxnPc TxnEvent

/-- The transaction manager's process. -/
def txnProgram (config : TxnConfig) :
    Program TxnHost TxnPc TxnEvent TxnChoice TxnAmbient where
  entry := TxnPc.entry
  advance := TxnPc.advance config
  ambient := TxnHost.ambient config

def TxnProc.new : TxnProc where
  shared := .new
  tasks := []
  log := []

/-- The states of the process that some interleaving of calls reaches. -/
def TxnReachable (config : TxnConfig) (s : TxnProc) : Prop :=
  Reachable (txnProgram config).step TxnProc.new s

end Coordin8
