import Coordin8.Core.Matcher
import Coordin8.Dynamo.Call
import Coordin8.Dynamo.Item
import Coordin8.Provider.SpaceStore

/-!
# The DynamoDB Space store

`DynamoSpaceStore`: four tables, and each operation of the trait as the requests
it makes.  A tuple that moves from one table to another is written to the one
and deleted from the other by two requests.
-/

namespace Coordin8

open Support Dynamo

inductive SpaceTable where
  | tuples
  | uncommitted
  | txnTaken
  | watches
deriving DecidableEq, Repr

/-- The two tables with the rows of transactions. -/
def SpaceTable.IsBuffer (t : SpaceTable) : Prop :=
  t = .uncommitted ∨ t = .txnTaken

def spaceSchema : Schema SpaceTable String where
  partitionKey
    | .tuples => "tuple_id"
    | .uncommitted | .txnTaken => "txn_id"
    | .watches => "watch_id"
  sortKey
    | .uncommitted | .txnTaken => some "tuple_id"
    | .tuples | .watches => none
  scalar := AttributeValue.asS

abbrev SpaceTables := Tables spaceSchema

/-- An operation of the store. -/
abbrev SpaceStoreCall := Call SpaceTable String

/-! ## Items -/

namespace DynamoSpaceStore

variable (fmt : Rfc3339)

def tupleToItem (record : TupleRecord) : Item :=
  let item : Item := (((((∅ : Item).insert "tuple_id" (.s record.tupleId)).insert
    "lease_id" (.s record.leaseId)).insert
    "written_by" (.s record.writtenBy)).insert
    "written_at" (.s (fmt.print record.writtenAt))).insert
    "attrs" (stringsToAv record.attrs)
  let item := insertSome item "payload" (blobToAv record.payload)
  insertSome item "input_tuple_id" (record.inputTupleId.map .s)

def tupleFromItem (item : Item) : Except Error TupleRecord := do
  let tupleId ← requiredText item "tuple_id"
  let leaseId ← requiredText item "lease_id"
  let writtenBy ← requiredText item "written_by"
  let writtenAt ← requiredText item "written_at"
  let writtenAt ← (fmt.parse writtenAt).mapError fun e =>
    Error.storage ("bad written_at: " ++ e)
  let attrs ← stringsFromAv "attrs" item["attrs"]?
  pure
    { tupleId, attrs, payload := item.blob "payload", leaseId, writtenBy,
      writtenAt, inputTupleId := item.text "input_tuple_id" }

def eventKindToStr : SpaceEventKind → String
  | .appearance => "Appearance"
  | .expiration => "Expiration"

/-- The `{:?}` of an `Option<&str>`. -/
def debugText : Option String → String
  | some text => "Some(" ++ text.quote ++ ")"
  | none => "None"

def eventKindFromStr : Option String → Except Error SpaceEventKind
  | some "Appearance" => .ok .appearance
  | some "Expiration" => .ok .expiration
  | other => .error (.storage ("unknown SpaceEventKind: " ++ debugText other))

/-- The item that `create_watch` writes. -/
def watchToItem (watch : SpaceWatchRecord) : Item :=
  let item : Item := ((((∅ : Item).insert "watch_id" (.s watch.watchId)).insert
    "lease_id" (.s watch.leaseId)).insert
    "on" (.s (eventKindToStr watch.on))).insert
    "template" (stringsToAv watch.template)
  insertSome item "handback" (blobToAv watch.handback)

def watchFromItem (item : Item) : Except Error SpaceWatchRecord := do
  let watchId ← requiredText item "watch_id"
  let leaseId ← requiredText item "lease_id"
  let on ← eventKindFromStr (item.text "on")
  let template ← stringsFromAv "template" item["template"]?
  pure { watchId, template, on, leaseId, handback := item.blob "handback" }

/-- A row of a transaction's buffer. -/
def bufferItem (txnId : String) (record : TupleRecord) : Item :=
  (tupleToItem fmt record).insert "txn_id" (.s txnId)

/-- A row of `txn_taken` for a write of the transaction's own. -/
def ownWriteItem (txnId : String) (record : TupleRecord) : Item :=
  (bufferItem fmt txnId record).insert "own_write" (.bool true)

def isOwnWrite (item : Item) : Bool :=
  match item["own_write"]? with
  | some (.bool true) => true
  | _ => false

/-! ## Operations -/

def scanAll (t : SpaceTable) : SpaceStoreCall (List Item) :=
  readAll t .all "scan"

def queryByPk (t : SpaceTable) (pk : String) : SpaceStoreCall (List Item) :=
  readAll t (.partition pk none) "query"

def scanByLease (t : SpaceTable) (leaseId : String) : SpaceStoreCall (List Item) :=
  readAll t (.having "lease_id" leaseId) "scan (lease filter)"

def insert (record : TupleRecord) : SpaceStoreCall Unit :=
  send (.putItem .tuples (tupleToItem fmt record) .always) "put_item"

def insertUncommitted (txnId : String) (record : TupleRecord) :
    SpaceStoreCall Unit :=
  send (.putItem .uncommitted (bufferItem fmt txnId record) .always) "put_item"

/-- Decode an item if there is one. -/
def decodeOption (item : Option Item) : SpaceStoreCall (Option TupleRecord) :=
  match item with
  | none => pure none
  | some item => do
      let record ← propagate (tupleFromItem fmt item)
      pure (some record)

def get (tupleId : String) : SpaceStoreCall (Option TupleRecord) := do
  let item ← send (.getItem .tuples (tupleId, none)) "get_item"
  decodeOption fmt item

def remove (tupleId : String) : SpaceStoreCall (Option TupleRecord) := do
  let item ← send (.deleteItem .tuples (tupleId, none) .always) "delete_item"
  decodeOption fmt item

/-- An attribute of a buffer row that is part of its key. -/
def bufferKeyText (item : Item) (attr : String) : Except Error String :=
  match item.text attr with
  | some text => .ok text
  | none => .error (.storage ("buffer item missing " ++ attr))

/-- Delete the rows of a scan until one of them was still there. -/
def removeFirst (t : SpaceTable) : List Item → SpaceStoreCall (Option TupleRecord)
  | [] => pure none
  | item :: items => do
      let txnId ← propagate (bufferKeyText item "txn_id")
      let tupleId ← propagate (bufferKeyText item "tuple_id")
      match ← send (.deleteItem t (txnId, some tupleId) .always)
          "delete_item" with
      | some old => decodeOption fmt (some old)
      | none => removeFirst t items

def removeTxnBufferedByLease (leaseId : String) :
    SpaceStoreCall (Option TupleRecord) := do
  let items ← scanByLease .uncommitted leaseId
  match ← removeFirst fmt .uncommitted items with
  | some record => pure (some record)
  | none =>
      let items ← scanByLease .txnTaken leaseId
      removeFirst fmt .txnTaken items

def removeByLease (leaseId : String) : SpaceStoreCall (Option TupleRecord) := do
  let page ← send (.readPage .tuples (.indexed "lease_id" leaseId) none (some 1))
    "query (lease GSI)"
  match page.items.head? with
  | none => removeTxnBufferedByLease fmt leaseId
  | some item =>
      match item.text "tuple_id" with
      | none => throw (.storage "GSI item missing tuple_id")
      | some tupleId =>
          match ← remove fmt tupleId with
          | some record => pure (some record)
          | none => removeTxnBufferedByLease fmt leaseId

/-- Go through the items and act on those that match, until an action has a
result. -/
def firstThat (ops : DashMap String MatchOp)
    (act : TupleRecord → SpaceStoreCall (Option TupleRecord)) :
    List Item → SpaceStoreCall (Option TupleRecord)
  | [] => pure none
  | item :: items => do
      let record ← propagate (tupleFromItem fmt item)
      if templateMatches ops record.attrs then
        match ← act record with
        | some result => pure (some result)
        | none => firstThat ops act items
      else
        firstThat ops act items

def findMatch (template : Attrs) (txnId : Option String) :
    SpaceStoreCall (Option TupleRecord) := do
  let ops := parseTemplate template
  let items ← scanAll .tuples
  match ← firstThat fmt ops (fun record => pure (some record)) items with
  | some record => pure (some record)
  | none =>
      match txnId with
      | none => pure none
      | some tid =>
          let uncommitted ← queryByPk .uncommitted tid
          firstThat fmt ops (fun record => pure (some record)) uncommitted

/-- Take one of the transaction's own writes. -/
def takeOwn (tid : String) (record : TupleRecord) :
    SpaceStoreCall (Option TupleRecord) := do
  let _ ← send (.deleteItem .uncommitted (tid, some record.tupleId) .always)
    "delete_item"
  send (.putItem .txnTaken (ownWriteItem fmt tid record) .always)
    "put_item (txn_taken)"
  pure (some record)

/-- Take a committed tuple, if it is still there. -/
def takeCommitted (txnId : Option String) (record : TupleRecord) :
    SpaceStoreCall (Option TupleRecord) := do
  match ← attempt (.deleteItem .tuples (record.tupleId, none) .itemExists) with
  | .ok none => pure none
  | .ok (some deleted) =>
      let taken ← propagate (tupleFromItem fmt deleted)
      match txnId with
      | none => pure (some taken)
      | some tid =>
          send (.putItem .txnTaken (bufferItem fmt tid taken) .always)
            "put_item (txn_taken)"
          pure (some taken)
  -- Someone else took it: go on to the next match.
  | .error .conditionalCheckFailed => pure none
  | .error e => throw (failed "delete_item" e.display)

/-- The second loop of `take_match`. -/
def takeVisible (ops : DashMap String MatchOp) (txnId : Option String) :
    SpaceStoreCall (Option TupleRecord) := do
  let items ← scanAll .tuples
  firstThat fmt ops (takeCommitted fmt txnId) items

def takeMatch (template : Attrs) (txnId : Option String) :
    SpaceStoreCall (Option TupleRecord) := do
  let ops := parseTemplate template
  match txnId with
  | none => takeVisible fmt ops none
  | some tid =>
      let uncommitted ← queryByPk .uncommitted tid
      match ← firstThat fmt ops (takeOwn fmt tid) uncommitted with
      | some record => pure (some record)
      | none => takeVisible fmt ops (some tid)

/-- The records of the items that match; an empty template matches all. -/
def filterMatches (ops : DashMap String MatchOp) (items : List Item) :
    Except Error (List TupleRecord) := do
  let records ← items.mapM (tupleFromItem fmt)
  pure (records.filter fun r => ops.isEmpty || templateMatches ops r.attrs)

def findAllMatches (template : Attrs) (txnId : Option String) :
    SpaceStoreCall (List TupleRecord) := do
  let ops := parseTemplate template
  let items ← scanAll .tuples
  let committed ← propagate (filterMatches fmt ops items)
  match txnId with
  | none => pure committed
  | some tid =>
      let uncommitted ← queryByPk .uncommitted tid
      let own ← propagate (filterMatches fmt ops uncommitted)
      pure (committed ++ own)

/-- Delete the row of an item from a buffer. -/
def deleteBuffered (t : SpaceTable) (txnId : String) (item : Item) :
    SpaceStoreCall Unit := do
  let _ ← send (.deleteItem t (txnId, item.text "tuple_id") .always)
    "delete_item"

/-- Publish the writes of a transaction one by one. -/
def flush (txnId : String) : List Item → SpaceStoreCall (List TupleRecord)
  | [] => pure []
  | item :: items => do
      let record ← propagate (tupleFromItem fmt item)
      insert fmt record
      deleteBuffered .uncommitted txnId item
      let flushed ← flush txnId items
      pure (record :: flushed)

/-- Delete the rows of a buffer one by one. -/
def clear (t : SpaceTable) (txnId : String) :
    List Item → SpaceStoreCall (List TupleRecord)
  | [] => pure []
  | item :: items => do
      let record ← propagate (tupleFromItem fmt item)
      deleteBuffered t txnId item
      let cleared ← clear t txnId items
      pure (record :: cleared)

def commitTxn (txnId : String) :
    SpaceStoreCall (List TupleRecord × List TupleRecord) := do
  let uncommittedItems ← queryByPk .uncommitted txnId
  let flushed ← flush fmt txnId uncommittedItems
  let takenItems ← queryByPk .txnTaken txnId
  let taken ← clear fmt .txnTaken txnId takenItems
  pure (flushed, taken)

/-- Put the tuples a transaction took back, except its own writes. -/
def restore (txnId : String) :
    List Item → SpaceStoreCall (List TupleRecord × List TupleRecord)
  | [] => pure ([], [])
  | item :: items => do
      let record ← propagate (tupleFromItem fmt item)
      if isOwnWrite item then
        deleteBuffered .txnTaken txnId item
        let (discarded, restored) ← restore txnId items
        pure (record :: discarded, restored)
      else
        insert fmt record
        deleteBuffered .txnTaken txnId item
        let (discarded, restored) ← restore txnId items
        pure (discarded, record :: restored)

def abortTxn (txnId : String) :
    SpaceStoreCall (List TupleRecord × List TupleRecord) := do
  let uncommittedItems ← queryByPk .uncommitted txnId
  let discarded ← clear fmt .uncommitted txnId uncommittedItems
  let takenItems ← queryByPk .txnTaken txnId
  let (own, restored) ← restore fmt txnId takenItems
  pure (discarded ++ own, restored)

def hasTxn (txnId : String) : SpaceStoreCall Bool := do
  let uncommitted ← queryByPk .uncommitted txnId
  if !uncommitted.isEmpty then
    pure true
  else
    let taken ← queryByPk .txnTaken txnId
    pure !taken.isEmpty

def listAll : SpaceStoreCall (List TupleRecord) := do
  let items ← scanAll .tuples
  propagate (items.mapM (tupleFromItem fmt))

def createWatch (watch : SpaceWatchRecord) : SpaceStoreCall Unit :=
  send (.putItem .watches (watchToItem watch) .always) "put_item"

def removeWatch (watchId : String) : SpaceStoreCall Unit := do
  let _ ← send (.deleteItem .watches (watchId, none) .always) "delete_item"

def removeWatchByLease (leaseId : String) :
    SpaceStoreCall (Option SpaceWatchRecord) := do
  let page ← send
    (.readPage .watches (.indexed "lease_id" leaseId) none (some 1))
    "query (lease GSI)"
  match page.items.head? with
  | none => pure none
  | some item =>
      let watch ← propagate (watchFromItem item)
      let _ ← send (.deleteItem .watches (watch.watchId, none) .always)
        "delete_item"
      pure (some watch)

def listWatches : SpaceStoreCall (List SpaceWatchRecord) := do
  let items ← scanAll .watches
  propagate (items.mapM watchFromItem)

/-- One call of the trait.  The order of a scan is the service's, so the orders
that the operations of the trait carry for the in-memory store play no role. -/
def call : SpaceOp → SpaceStoreCall SpaceResult
  | .insert record => do
      insert fmt record
      pure .unit
  | .insertUncommitted txnId record => do
      insertUncommitted fmt txnId record
      pure .unit
  | .get tupleId => .tuple <$> get fmt tupleId
  | .remove tupleId => .tuple <$> remove fmt tupleId
  | .removeByLease leaseId => .tuple <$> removeByLease fmt leaseId
  | .findMatch _ template txnId => .tuple <$> findMatch fmt template txnId
  | .takeMatch _ template txnId => .tuple <$> takeMatch fmt template txnId
  | .findAllMatches _ template txnId =>
      .tuples <$> findAllMatches fmt template txnId
  | .commitTxn txnId => do
      let (flushed, taken) ← commitTxn fmt txnId
      pure (.lists flushed taken)
  | .abortTxn txnId => do
      let (discarded, restored) ← abortTxn fmt txnId
      pure (.lists discarded restored)
  | .hasTxn txnId => .flag <$> hasTxn txnId
  | .listAll _ => .tuples <$> listAll fmt
  | .createWatch watch => do
      createWatch watch
      pure .unit
  | .removeWatch watchId => do
      removeWatch watchId
      pure .unit
  | .removeWatchByLease leaseId => .watch <$> removeWatchByLease leaseId
  | .listWatches _ => .watches <$> listWatches

end DynamoSpaceStore

end Coordin8
