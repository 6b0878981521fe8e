import Coordin8.Core.Matcher

/-!
# The in-memory Space store

`InMemorySpaceStore` of the local provider.  Each trait operation is a function
from the store to its result and the store after it; none of them can fail.
An operation that scans the committed tuples takes the iteration order of that
scan as an argument, because the order of a concurrent map is not fixed.
-/

namespace Coordin8

open Support Support.DashMap

structure InMemorySpaceStore where
  tuples : DashMap String TupleRecord
  leaseIndex : DashMap String String
  watches : DashMap String SpaceWatchRecord
  watchLeaseIndex : DashMap String String
  uncommitted : DashMap String (List TupleRecord)
  txnTaken : DashMap String (List TupleRecord)
  txnSelfTaken : DashMap String (List TupleRecord)
  txnLeaseIndex : DashMap String (String × String)
deriving DecidableEq

/-- An order in which a scan visits the committed tuples. -/
abbrev TupleIteration := Iteration String TupleRecord

namespace InMemorySpaceStore

def new : InMemorySpaceStore where
  tuples := ∅
  leaseIndex := ∅
  watches := ∅
  watchLeaseIndex := ∅
  uncommitted := ∅
  txnTaken := ∅
  txnSelfTaken := ∅
  txnLeaseIndex := ∅

def insert (s : InMemorySpaceStore) (record : TupleRecord) :
    InMemorySpaceStore :=
  { s with
    tuples := s.tuples.insert record.tupleId record
    leaseIndex := s.leaseIndex.insert record.leaseId record.tupleId }

def insertUncommitted (s : InMemorySpaceStore)
    (txnId : String) (record : TupleRecord) : InMemorySpaceStore :=
  { s with
    txnLeaseIndex :=
      s.txnLeaseIndex.insert record.leaseId (txnId, record.tupleId)
    uncommitted := push s.uncommitted txnId record }

def get (s : InMemorySpaceStore) (tupleId : String) : Option TupleRecord :=
  s.tuples[tupleId]?

def remove (s : InMemorySpaceStore) (tupleId : String) :
    Option TupleRecord × InMemorySpaceStore :=
  match s.tuples[tupleId]? with
  | some record =>
      (some record,
        { s with
          tuples := s.tuples.erase tupleId
          leaseIndex := s.leaseIndex.erase record.leaseId })
  | none => (none, s)

/-- Remove the first record with the given tuple id from a transaction's
buffer. -/
def removeFrom (buffers : DashMap String (List TupleRecord))
    (txnId tupleId : String) :
    Option (TupleRecord × DashMap String (List TupleRecord)) :=
  takeFirst (fun r => r.tupleId == tupleId) buffers txnId

/-- The part of `remove_by_lease` that looks into the transaction buffers. -/
def removeBuffered (s : InMemorySpaceStore) (leaseId : String) :
    Option TupleRecord × InMemorySpaceStore :=
  match s.txnLeaseIndex[leaseId]? with
  | none => (none, s)
  | some (txnId, tupleId) =>
      let s := { s with txnLeaseIndex := s.txnLeaseIndex.erase leaseId }
      match removeFrom s.uncommitted txnId tupleId with
      | some (record, buffers) => (some record, { s with uncommitted := buffers })
      | none =>
          match removeFrom s.txnTaken txnId tupleId with
          | some (record, buffers) => (some record, { s with txnTaken := buffers })
          | none =>
              match removeFrom s.txnSelfTaken txnId tupleId with
              | some (record, buffers) =>
                  (some record, { s with txnSelfTaken := buffers })
              | none => (none, s)

def removeByLease (s : InMemorySpaceStore) (leaseId : String) :
    Option TupleRecord × InMemorySpaceStore :=
  match s.leaseIndex[leaseId]? with
  | none => s.removeBuffered leaseId
  | some tupleId =>
      let s := { s with leaseIndex := s.leaseIndex.erase leaseId }
      match s.tuples[tupleId]? with
      | some record =>
          (some record, { s with tuples := s.tuples.erase tupleId })
      | none => s.removeBuffered leaseId

/-- The buffer of a transaction's own writes, seen by a call under `txnId`. -/
def ownWrites (s : InMemorySpaceStore) (txnId : Option String) :
    List TupleRecord :=
  match txnId with
  | some tid => bucket s.uncommitted tid
  | none => []

def findMatch (s : InMemorySpaceStore) (it : TupleIteration)
    (template : Attrs) (txnId : Option String) : Option TupleRecord :=
  let ops := parseTemplate template
  match (it.entries s.tuples).find? fun e => templateMatches ops e.2.attrs with
  | some entry => some entry.2
  | none => (s.ownWrites txnId).find? fun r => templateMatches ops r.attrs

/-- The first loop of `take_match`: claim one of the transaction's own
writes. -/
def takeUncommitted (s : InMemorySpaceStore)
    (ops : DashMap String MatchOp) (txnId : String) :
    Option (TupleRecord × InMemorySpaceStore) :=
  match takeFirst (fun r => templateMatches ops r.attrs)
      s.uncommitted txnId with
  | none => none
  | some (record, uncommitted) =>
      some (record,
        { s with
          uncommitted := uncommitted
          txnSelfTaken := push s.txnSelfTaken txnId record })

/-- Claim the committed tuple `tupleId`, remembering it for an abort when the
call is under a transaction. -/
def claim (s : InMemorySpaceStore) (record : TupleRecord) (tupleId : String)
    (txnId : Option String) : InMemorySpaceStore :=
  let s := { s with
    tuples := s.tuples.erase tupleId
    leaseIndex := s.leaseIndex.erase record.leaseId }
  match txnId with
  | none => s
  | some tid =>
      { s with
        txnLeaseIndex :=
          s.txnLeaseIndex.insert record.leaseId (tid, record.tupleId)
        txnTaken := push s.txnTaken tid record }

/-- The second loop of `take_match`. -/
def takeCommitted (s : InMemorySpaceStore) (it : TupleIteration)
    (ops : DashMap String MatchOp) (txnId : Option String) :
    Option TupleRecord × InMemorySpaceStore :=
  match (it.entries s.tuples).find? fun e => templateMatches ops e.2.attrs with
  | none => (none, s)
  | some (tupleId, _) =>
      match s.tuples[tupleId]? with
      | some record => (some record, s.claim record tupleId txnId)
      -- The source retries here: another call took the candidate between the
      -- scan and the removal.  Inside one atomic call the candidate is there.
      | none => (none, s)

def takeMatch (s : InMemorySpaceStore) (it : TupleIteration)
    (template : Attrs) (txnId : Option String) :
    Option TupleRecord × InMemorySpaceStore :=
  let ops := parseTemplate template
  match txnId with
  | none => s.takeCommitted it ops none
  | some tid =>
      match s.takeUncommitted ops tid with
      | some (record, s) => (some record, s)
      | none => s.takeCommitted it ops (some tid)

def findAllMatches (s : InMemorySpaceStore) (it : TupleIteration)
    (template : Attrs) (txnId : Option String) : List TupleRecord :=
  let ops := parseTemplate template
  let keep := fun r : TupleRecord => ops.isEmpty || templateMatches ops r.attrs
  ((it.entries s.tuples).map Prod.snd).filter keep ++
    (s.ownWrites txnId).filter keep

/-- Move one buffered record into the visible store. -/
def publish (s : InMemorySpaceStore) (record : TupleRecord) :
    InMemorySpaceStore :=
  { s with
    txnLeaseIndex := s.txnLeaseIndex.erase record.leaseId
    tuples := s.tuples.insert record.tupleId record
    leaseIndex := s.leaseIndex.insert record.leaseId record.tupleId }

/-- Drop the transaction index rows of records that leave the buffers. -/
def unindex (s : InMemorySpaceStore) (records : List TupleRecord) :
    InMemorySpaceStore :=
  { s with
    txnLeaseIndex := eraseAll TupleRecord.leaseId s.txnLeaseIndex records }

/-- Returns the flushed and the taken records. -/
def commitTxn (s : InMemorySpaceStore) (txnId : String) :
    (List TupleRecord × List TupleRecord) × InMemorySpaceStore :=
  let flushed := bucket s.uncommitted txnId
  let s := flushed.foldl publish
    { s with uncommitted := s.uncommitted.erase txnId }
  let taken := bucket s.txnTaken txnId ++ bucket s.txnSelfTaken txnId
  let s := { s with
    txnTaken := s.txnTaken.erase txnId
    txnSelfTaken := s.txnSelfTaken.erase txnId }
  ((flushed, taken), s.unindex taken)

/-- Returns the discarded and the restored records. -/
def abortTxn (s : InMemorySpaceStore) (txnId : String) :
    (List TupleRecord × List TupleRecord) × InMemorySpaceStore :=
  let discarded := bucket s.uncommitted txnId ++ bucket s.txnSelfTaken txnId
  let s := { s with
    uncommitted := s.uncommitted.erase txnId
    txnSelfTaken := s.txnSelfTaken.erase txnId }
  let s := s.unindex discarded
  let restored := bucket s.txnTaken txnId
  let s := restored.foldl publish { s with txnTaken := s.txnTaken.erase txnId }
  ((discarded, restored), s)

def hasTxn (s : InMemorySpaceStore) (txnId : String) : Bool :=
  let hasWrites := !(bucket s.uncommitted txnId).isEmpty
  let hasTakes := !(bucket s.txnTaken txnId).isEmpty ||
    !(bucket s.txnSelfTaken txnId).isEmpty
  hasWrites || hasTakes

def listAll (s : InMemorySpaceStore) (it : TupleIteration) : List TupleRecord :=
  (it.entries s.tuples).map Prod.snd

def createWatch (s : InMemorySpaceStore) (watch : SpaceWatchRecord) :
    InMemorySpaceStore :=
  { s with
    watches := s.watches.insert watch.watchId watch
    watchLeaseIndex := s.watchLeaseIndex.insert watch.leaseId watch.watchId }

def removeWatch (s : InMemorySpaceStore) (watchId : String) :
    InMemorySpaceStore :=
  match s.watches[watchId]? with
  | some watch =>
      { s with
        watches := s.watches.erase watchId
        watchLeaseIndex := s.watchLeaseIndex.erase watch.leaseId }
  | none => s

def removeWatchByLease (s : InMemorySpaceStore) (leaseId : String) :
    Option SpaceWatchRecord × InMemorySpaceStore :=
  match s.watchLeaseIndex[leaseId]? with
  | none => (none, s)
  | some watchId =>
      let s := { s with watchLeaseIndex := s.watchLeaseIndex.erase leaseId }
      match s.watches[watchId]? with
      | some watch =>
          (some watch, { s with watches := s.watches.erase watchId })
      | none => (none, s)

def listWatches (s : InMemorySpaceStore)
    (it : Iteration String SpaceWatchRecord) : List SpaceWatchRecord :=
  (it.entries s.watches).map Prod.snd

end InMemorySpaceStore

/-! ## The trait as one operation type -/

/-- A call of the `SpaceStore` trait. -/
inductive SpaceOp where
  | insert (record : TupleRecord)
  | insertUncommitted (txnId : String) (record : TupleRecord)
  | get (tupleId : String)
  | remove (tupleId : String)
  | removeByLease (leaseId : String)
  | findMatch (it : TupleIteration) (template : Attrs) (txnId : Option String)
  | takeMatch (it : TupleIteration) (template : Attrs) (txnId : Option String)
  | findAllMatches (it : TupleIteration) (template : Attrs)
      (txnId : Option String)
  | commitTxn (txnId : String)
  | abortTxn (txnId : String)
  | hasTxn (txnId : String)
  | listAll (it : TupleIteration)
  | createWatch (watch : SpaceWatchRecord)
  | removeWatch (watchId : String)
  | removeWatchByLease (leaseId : String)
  | listWatches (it : Iteration String SpaceWatchRecord)

/-- What a call of the trait returns. -/
inductive SpaceResult where
  | unit
  | tuple (record : Option TupleRecord)
  | tuples (records : List TupleRecord)
  | lists (first second : List TupleRecord)
  | flag (b : Bool)
  | watch (record : Option SpaceWatchRecord)
  | watches (records : List SpaceWatchRecord)
deriving DecidableEq

namespace InMemorySpaceStore

/-- One atomic call of the trait. -/
def exec (s : InMemorySpaceStore) : SpaceOp → SpaceResult × InMemorySpaceStore
  | .insert record => (.unit, s.insert record)
  | .insertUncommitted txnId record => (.unit, s.insertUncommitted txnId record)
  | .get tupleId => (.tuple (s.get tupleId), s)
  | .remove tupleId =>
      let (record, s) := s.remove tupleId
      (.tuple record, s)
  | .removeByLease leaseId =>
      let (record, s) := s.removeByLease leaseId
      (.tuple record, s)
  | .findMatch it template txnId => (.tuple (s.findMatch it template txnId), s)
  | .takeMatch it template txnId =>
      let (record, s) := s.takeMatch it template txnId
      (.tuple record, s)
  | .findAllMatches it template txnId =>
      (.tuples (s.findAllMatches it template txnId), s)
  | .commitTxn txnId =>
      let ((flushed, taken), s) := s.commitTxn txnId
      (.lists flushed taken, s)
  | .abortTxn txnId =>
      let ((discarded, restored), s) := s.abortTxn txnId
      (.lists discarded restored, s)
  | .hasTxn txnId => (.flag (s.hasTxn txnId), s)
  | .listAll it => (.tuples (s.listAll it), s)
  | .createWatch watch => (.unit, s.createWatch watch)
  | .removeWatch watchId => (.unit, s.removeWatch watchId)
  | .removeWatchByLease leaseId =>
      let (watch, s) := s.removeWatchByLease leaseId
      (.watch watch, s)
  | .listWatches it => (.watches (s.listWatches it), s)

end InMemorySpaceStore

end Coordin8
