import Coordin8.Lease.Manager
import Coordin8.Provider.SpaceStore
import Coordin8.Support.Broadcast
import Coordin8.Support.Pool

/-!
# The Space manager

`SpaceManager` over the in-memory Space store, in the process that runs it: with
its lease manager and `LeaseService`, the reaper, the `space` cascade that
removes tuples and watches when their leases are reclaimed, and the participant
service that the transaction coordinator calls.  `SpacePc` says where a call
stands; `SpacePc.advance` makes its next move, which is one store call, one look
at or change of the `enlisted` set, one broadcast, or a local step.

A call that waits on the broadcast may time out, if it has a timeout at all.
What the enlister answers is decided from outside.
-/

namespace Coordin8

open Support

/-- The arguments of `write`. -/
structure WriteRequest where
  attrs : Attrs
  payload : List UInt8
  ttlSecs : UInt64
  writtenBy : String
  inputTupleId : Option String
  txnId : Option String
deriving DecidableEq

/-- The arguments of `read` and `take`. -/
structure Query where
  template : Attrs
  wait : Bool
  timeoutMs : UInt64
  txnId : Option String
deriving DecidableEq

inductive Mode where
  | read
  | take
deriving DecidableEq, Repr

/-- What a call goes on with once the Space is enlisted. -/
inductive Enlisting where
  | write (record : TupleRecord) (lease : LeaseRecord)
  | take (query : Query)
deriving DecidableEq

/-- What a call returns when it succeeds. -/
inductive SpaceReply where
  | unit
  | written (record : TupleRecord) (lease : LeaseRecord)
  | tuple (record : Option TupleRecord)
  | tuples (records : List TupleRecord)
  | lease (record : LeaseRecord)
  | watch (watchId leaseId : String)
  | vote (v : Int32)
deriving DecidableEq

abbrev SpaceAnswer := Except Error SpaceReply

/-- Where a call stands. -/
inductive SpacePc where
  | write (req : WriteRequest)
  | take (query : Query)
  | ensureEnlisted (txnId : String) (next : Enlisting)
  /-- The enlister has been called. -/
  | enlist (txnId : String) (next : Enlisting)
  | markEnlisted (txnId : String) (next : Enlisting)
  | insertUncommitted (txnId : String) (record : TupleRecord)
      (lease : LeaseRecord)
  | insert (record : TupleRecord) (lease : LeaseRecord)
  | insertSend (record : TupleRecord) (lease : LeaseRecord)
  | subscribe (mode : Mode) (query : Query)
  | query (mode : Mode) (query : Query) (cursor : Nat)
  /-- Parked on the broadcast of new tuples, at the position `cursor`. -/
  | wait (mode : Mode) (query : Query) (cursor : Nat)
  /-- The lease of a tuple taken outside any transaction is cancelled. -/
  | cancelTaken (pc : LeasePc) (record : TupleRecord)
  | contents (template : Attrs) (txnId : Option String)
  | commitTxn (txnId : String) (reply : SpaceReply)
  | abortTxn (txnId : String)
  /-- The transaction leaves the `enlisted` set; then the leases of `todo` are
  cancelled and `sends` are broadcast. -/
  | unmark (txnId : String) (todo sends : List TupleRecord) (reply : SpaceReply)
  | settleCancel (pc : LeasePc) (todo sends : List TupleRecord)
      (reply : SpaceReply)
  | settleSend (record : TupleRecord) (sends : List TupleRecord)
      (reply : SpaceReply)
  | prepare (txnId : String)
  | prepareAndCommit (txnId : String)
  | notify (template : Attrs) (on : SpaceEventKind) (ttlSecs : UInt64)
      (handback : List UInt8)
  | createWatch (watch : SpaceWatchRecord)
  | onTupleExpired (leaseId : String)
  | expirySend (record : TupleRecord)
  | onWatchExpired (leaseId : String)
  | cancel (tupleId : String)
  | renew (tupleId : String) (ttlSecs : UInt64)
  /-- The call ends with what the lease manager answers. -/
  | leaseCall (pc : LeasePc)
  /-- A call of `LeaseService`, or a sweep of the reaper. -/
  | lease (pc : LeasePc)
  | returned (answer : SpaceAnswer)
deriving DecidableEq

/-- What the outside decides in a move. -/
inductive SpaceChoice where
  | go
  /-- The identifiers drawn for a tuple or watch and for its lease. -/
  | uuids (id leaseId : String)
  | order (it : TupleIteration)
  | enlisted (result : Except Error Unit)
  | timeout
  | lease (c : LeaseChoice)

/-- What happened in the process: a write drew its identifiers, or a call to
the store was answered. -/
inductive SpaceEvent where
  | drawn (task : Nat) (tupleId leaseId : String)
  | store (op : SpaceOp) (result : SpaceResult)

structure SpaceConfig where
  lease : LeaseConfig
  /-- The endpoint the Space enlists with, when it is built with an enlister. -/
  enlister : Option String
  /-- Capacity of the broadcast of reclaimed leases. -/
  capacity : Nat
  /-- Capacity of the broadcast of new tuples. -/
  tupleCapacity : Nat

/-- A Space without a coordinator, with broadcasts of the source's size. -/
def quietSpace : SpaceConfig where
  lease := .default
  enlister := none
  capacity := 256
  tupleCapacity := 256

/-- What the calls share.  `tupleTx` and `expiryTx` hold everything sent on
them, oldest first; `cursor` is the position of the cascade in the broadcast of
reclaimed leases. -/
structure SpaceHost where
  store : InMemorySpaceStore
  landlord : Landlord
  enlisted : DashMap String Unit
  tupleTx : List TupleRecord
  expiryTx : List TupleRecord
  cursor : Nat
deriving DecidableEq

def SpaceHost.new : SpaceHost where
  store := .new
  landlord := .new
  enlisted := ∅
  tupleTx := []
  expiryTx := []
  cursor := 0

namespace SpacePc

/-! ## Local steps -/

def afterWrite (txnId : Option String) (record : TupleRecord)
    (granted : LeaseRecord) : SpacePc :=
  match txnId with
  | some tid => .ensureEnlisted tid (.write record granted)
  | none => .insert record granted

def afterEnlist (txnId : String) : Enlisting → SpacePc
  | .write record granted => .insertUncommitted txnId record granted
  | .take q => .subscribe .take q

/-- What `read` and `take` do with the answer to a query of the store. -/
def afterQuery (mode : Mode) (q : Query) (cursor : Nat) :
    Option TupleRecord → SpacePc
  | some record =>
      match mode, q.txnId with
      | .take, none => .cancelTaken (.cancel record.leaseId) record
      | _, _ => .returned (.ok (.tuple (some record)))
  | none =>
      if q.wait then .wait mode q cursor else .returned (.ok (.tuple none))

/-- What a parked call does with what the broadcast delivers. -/
def afterRecv (mode : Mode) (q : Query) (cursor : Nat) :
    Recv TupleRecord → SpacePc
  | .message tuple =>
      if templateMatches (parseTemplate q.template) tuple.attrs then
        match mode with
        | .read => .returned (.ok (.tuple (some tuple)))
        | .take => .query .take q cursor
      else
        .wait mode q cursor
  | .lagged _ => .query mode q cursor

/-- The loops at the end of `commit_space_txn` and `abort_space_txn`. -/
def settle (todo sends : List TupleRecord) (reply : SpaceReply) : SpacePc :=
  match todo, sends with
  | record :: todo, sends =>
      .settleCancel (.cancel record.leaseId) todo sends reply
  | [], record :: sends => .settleSend record sends reply
  | [], [] => .returned (.ok reply)

def leaseAnswer : Except Error (Option LeaseRecord) → SpaceAnswer
  | .error e => .error e
  | .ok none => .ok .unit
  | .ok (some record) => .ok (.lease record)

/-! ## Moves -/

/-- A move that leaves the shared state as it is. -/
def stay (h : SpaceHost) (pc : SpacePc) :
    Option (SpaceHost × SpacePc × List SpaceEvent) :=
  some (h, pc, [])

/-- A store call. -/
def call (h : SpaceHost) (op : SpaceOp) (result : SpaceResult)
    (store : InMemorySpaceStore) (pc : SpacePc) :
    Option (SpaceHost × SpacePc × List SpaceEvent) :=
  some ({ h with store := store }, pc, [.store op result])

/-- The next move of a call that depends on nothing outside. -/
def go (config : SpaceConfig) (h : SpaceHost) :
    SpacePc → Option (SpaceHost × SpacePc × List SpaceEvent)
  | .take q =>
      match q.txnId with
      | some tid => stay h (.ensureEnlisted tid (.take q))
      | none => stay h (.subscribe .take q)
  | .ensureEnlisted txnId next =>
      match config.enlister with
      | none => stay h (afterEnlist txnId next)
      | some _ =>
          if h.enlisted.contains txnId then
            stay h (afterEnlist txnId next)
          else
            stay h (.enlist txnId next)
  | .markEnlisted txnId next =>
      some ({ h with enlisted := h.enlisted.insert txnId () },
        afterEnlist txnId next, [])
  | .insertUncommitted txnId record granted =>
      call h (.insertUncommitted txnId record) .unit
        (h.store.insertUncommitted txnId record)
        (.returned (.ok (.written record granted)))
  | .insert record granted =>
      call h (.insert record) .unit (h.store.insert record)
        (.insertSend record granted)
  | .insertSend record granted =>
      some ({ h with tupleTx := h.tupleTx ++ [record] },
        .returned (.ok (.written record granted)), [])
  | .subscribe mode q => stay h (.query mode q h.tupleTx.length)
  | .wait mode q cursor =>
      match recv config.tupleCapacity h.tupleTx cursor with
      | none => none
      | some (received, cursor) => stay h (afterRecv mode q cursor received)
  | .commitTxn txnId reply =>
      let ((flushed, taken), store) := h.store.commitTxn txnId
      call h (.commitTxn txnId) (.lists flushed taken) store
        (.unmark txnId taken flushed reply)
  | .abortTxn txnId =>
      let ((discarded, restored), store) := h.store.abortTxn txnId
      call h (.abortTxn txnId) (.lists discarded restored) store
        (.unmark txnId discarded restored .unit)
  | .unmark txnId todo sends reply =>
      some ({ h with enlisted := h.enlisted.erase txnId },
        settle todo sends reply, [])
  | .settleSend record sends reply =>
      some ({ h with tupleTx := h.tupleTx ++ [record] },
        settle [] sends reply, [])
  | .prepare txnId =>
      let hasState := h.store.hasTxn txnId
      call h (.hasTxn txnId) (.flag hasState) h.store
        (.returned (.ok (.vote (if hasState then 0 else 1))))
  | .prepareAndCommit txnId =>
      let hasState := h.store.hasTxn txnId
      call h (.hasTxn txnId) (.flag hasState) h.store
        (if hasState then .commitTxn txnId (.vote 0)
          else .returned (.ok (.vote 1)))
  | .createWatch watch =>
      call h (.createWatch watch) .unit (h.store.createWatch watch)
        (.returned (.ok (.watch watch.watchId watch.leaseId)))
  | .onTupleExpired leaseId =>
      let (record, store) := h.store.removeByLease leaseId
      call h (.removeByLease leaseId) (.tuple record) store
        (match record with
          | some record => .expirySend record
          | none => .returned (.ok .unit))
  | .expirySend record =>
      some ({ h with expiryTx := h.expiryTx ++ [record] },
        .returned (.ok .unit), [])
  | .onWatchExpired leaseId =>
      let (watch, store) := h.store.removeWatchByLease leaseId
      call h (.removeWatchByLease leaseId) (.watch watch) store
        (.returned (.ok .unit))
  | .cancel tupleId =>
      let (record, store) := h.store.remove tupleId
      call h (.remove tupleId) (.tuple record) store
        (match record with
          | some record => .leaseCall (.cancel record.leaseId)
          | none => .returned (.error (.tupleNotFound tupleId)))
  | .renew tupleId ttlSecs =>
      let record := h.store.get tupleId
      call h (.get tupleId) (.tuple record) h.store
        (match record with
          | some record => .leaseCall (.renew record.leaseId ttlSecs)
          | none => .returned (.error (.tupleNotFound tupleId)))
  | _ => none

/-- A move that draws identifiers: a lease is granted for a new tuple or a new
watch. -/
def draw (config : SpaceConfig) (task : Nat) (h : SpaceHost)
    (id leaseId : String) :
    SpacePc → Option (SpaceHost × SpacePc × List SpaceEvent)
  | .write req =>
      let landlord := { h.landlord with uuids := id :: h.landlord.uuids }
      match landlord.grant config.lease leaseId ("space:" ++ id) req.ttlSecs with
      | .error e =>
          some ({ h with landlord := landlord }, .returned (.error e), [])
      | .ok (granted, landlord) =>
          let record : TupleRecord := {
            tupleId := id
            attrs := req.attrs
            payload := req.payload
            leaseId := granted.leaseId
            writtenBy := req.writtenBy
            writtenAt := landlord.now
            inputTupleId := req.inputTupleId }
          some ({ h with landlord := landlord },
            afterWrite req.txnId record granted,
            [.drawn task record.tupleId record.leaseId])
  | .notify template on ttlSecs handback =>
      let landlord := { h.landlord with uuids := id :: h.landlord.uuids }
      match landlord.grant config.lease leaseId ("space-watch:" ++ id)
          ttlSecs with
      | .error e =>
          some ({ h with landlord := landlord }, .returned (.error e), [])
      | .ok (granted, landlord) =>
          let watch : SpaceWatchRecord := {
            watchId := id
            template := template
            on := on
            leaseId := granted.leaseId
            handback := handback }
          some ({ h with landlord := landlord }, .createWatch watch, [])
  | _ => none

/-- A move that scans the committed tuples. -/
def scan (h : SpaceHost) (it : TupleIteration) :
    SpacePc → Option (SpaceHost × SpacePc × List SpaceEvent)
  | .query .read q cursor =>
      let record := h.store.findMatch it q.template q.txnId
      call h (.findMatch it q.template q.txnId) (.tuple record) h.store
        (afterQuery .read q cursor record)
  | .query .take q cursor =>
      let (record, store) := h.store.takeMatch it q.template q.txnId
      call h (.takeMatch it q.template q.txnId) (.tuple record) store
        (afterQuery .take q cursor record)
  | .contents template txnId =>
      let records := h.store.findAllMatches it template txnId
      call h (.findAllMatches it template txnId) (.tuples records) h.store
        (.returned (.ok (.tuples records)))
  | _ => none

/-- How a call goes on when the lease manager has made a move for it. -/
def afterLease : SpacePc → LeasePc → Option SpacePc
  | .cancelTaken _ record, .returned _ =>
      some (.returned (.ok (.tuple (some record))))
  | .cancelTaken _ record, pc => some (.cancelTaken pc record)
  | .settleCancel _ todo sends reply, .returned _ =>
      some (settle todo sends reply)
  | .settleCancel _ todo sends reply, pc =>
      some (.settleCancel pc todo sends reply)
  | .leaseCall _, .returned result => some (.returned (leaseAnswer result))
  | .leaseCall _, pc => some (.leaseCall pc)
  | .lease _, pc => some (.lease pc)
  | _, _ => none

/-- The part of the lease manager's call inside this call. -/
def leasePc : SpacePc → Option LeasePc
  | .cancelTaken pc _ | .settleCancel pc _ _ _ | .leaseCall pc | .lease pc =>
      some pc
  | _ => none

/-- A move of the lease manager, inside a call of the Space manager or for a
client. -/
def leaseStep (config : SpaceConfig) (h : SpaceHost) (c : LeaseChoice)
    (pc : SpacePc) : Option (SpaceHost × SpacePc × List SpaceEvent) :=
  match pc.leasePc with
  | none => none
  | some lpc =>
      match lpc.advance config.lease h.landlord c with
      | none => none
      | some (landlord, lpc) =>
          (pc.afterLease lpc).bind fun pc' =>
            some ({ h with landlord := landlord }, pc', [])

/-- The next move of a call. -/
def advance (config : SpaceConfig) (task : Nat) (h : SpaceHost) (pc : SpacePc) :
    SpaceChoice → Option (SpaceHost × SpacePc × List SpaceEvent)
  | .go => pc.go config h
  | .uuids id leaseId =>
      if id ∈ h.landlord.uuids ∨ leaseId ∈ id :: h.landlord.uuids then
        none
      else
        pc.draw config task h id leaseId
  | .order it => pc.scan h it
  | .enlisted result =>
      match pc, result with
      | .enlist txnId next, .ok () => stay h (.markEnlisted txnId next)
      | .enlist _ _, .error e => stay h (.returned (.error e))
      | _, _ => none
  | .timeout =>
      match pc with
      | .wait _ q _ =>
          if 0 < q.timeoutMs then stay h (.returned (.ok (.tuple none)))
          else none
      | _ => none
  | .lease c => leaseStep config h c pc

/-- The calls of the participant service. -/
def participant : SpacePc → Bool
  | .prepare _ | .prepareAndCommit _ | .commitTxn _ .unit | .abortTxn _ => true
  | _ => false

/-- The calls a client, the coordinator, the orphan sweep or the reaper may
start. -/
def entry : SpacePc → Bool
  | .write _ | .take _ | .subscribe .read _ | .contents .. | .notify ..
  | .onTupleExpired _ | .onWatchExpired _ | .cancel _ | .renew .. => true
  | .lease pc => pc.entry
  | pc => pc.participant

end SpacePc

/-! ## The process -/

/-- The clock moves, or the cascade takes the next reclaimed lease. -/
inductive SpaceAmbient where
  | tick (nanoseconds : Nat)
  | cascade
deriving DecidableEq, Repr

/-- The handler of the `space` cascade. -/
def spaceCascade (e : LeaseReclaimed) : List SpacePc :=
  if (stripPrefix "space:" e.record.resourceId).isSome then
    [.onTupleExpired e.record.leaseId]
  else if (stripPrefix "space-watch:" e.record.resourceId).isSome then
    [.onWatchExpired e.record.leaseId]
  else
    []

def SpaceHost.ambient (config : SpaceConfig) (h : SpaceHost) :
    SpaceAmbient → Option (SpaceHost × List SpacePc)
  | .tick d =>
      some ({ h with landlord := { h.landlord with
        now := h.landlord.now + d } }, [])
  | .cascade =>
      match recv config.capacity h.landlord.sent h.cursor with
      | none => none
      | some (.lagged _, cursor) => some ({ h with cursor := cursor }, [])
      | some (.message e, cursor) =>
          some ({ h with cursor := cursor }, spaceCascade e)

abbrev SpaceAct := PoolAct SpacePc SpaceChoice SpaceAmbient

abbrev SpaceProc := Pool SpaceHost SpacePc SpaceEvent

/-- The Space manager's process. -/
def spaceProgram (config : SpaceConfig) :
    Program SpaceHost SpacePc SpaceEvent SpaceChoice SpaceAmbient where
  entry := SpacePc.entry
  advance := SpacePc.advance config
  ambient := SpaceHost.ambient config

def SpaceProc.new : SpaceProc where
  shared := .new
  tasks := []
  log := []

/-- The states of the process that some interleaving of calls reaches. -/
def SpaceReachable (config : SpaceConfig) (s : SpaceProc) : Prop :=
  Reachable (spaceProgram config).step SpaceProc.new s

end Coordin8
