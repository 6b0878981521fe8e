import Coordin8.Dynamo.SpaceRows

/-!
# What a take can end with

`take_match` on the DynamoDB store makes up to four kinds of requests and may
stop after any of them.  `TakeEnds` lists every end it can come to when it runs
alone: the result, the tables after it, and the request it stopped at.
-/

namespace Coordin8.DynamoSpaceStore

open Support Dynamo Fallible

variable (fmt : Rfc3339) (ok : Choice → Prop) (s : SpaceTables)
  (ops : DashMap String MatchOp)

/-- A row that can be read and matches. -/
def Matching (t : SpaceTable) (k : Key String) (record : TupleRecord) : Prop :=
  ∃ item, s.get t k = some item ∧ tupleFromItem fmt item = .ok record ∧
    templateMatches ops record.attrs = true

/-- No own write of the transaction matches. -/
def NoOwnMatch (txnId : Option String) : Prop :=
  ∀ x, txnId = some x → ∀ id record,
    ¬ Matching fmt s ops .uncommitted (x, some id) record

/-- The row a take deletes, and the one it files in `txn_taken` for it. -/
inductive Moves (x : String) (record : TupleRecord) :
    SpaceTable → Key String → Item → Prop where
  | own : Moves x record .uncommitted (x, some record.tupleId)
      (ownWriteItem fmt x record)
  | visible (hown : NoOwnMatch fmt s ops (some x)) :
      Moves x record .tuples (record.tupleId, none) (bufferItem fmt x record)

variable {fmt ok s ops} {order : SpaceTable → Listing (Key String) Item}
  {total : Bool} {last : Option (Request SpaceTable String × Choice)}

variable {i : Choice} {t : SpaceTable} {selection : Selection String}

theorem get_of_mem_selected
    {item : Item}
    (h : item ∈ (selected order s t selection).map Prod.snd) :
    ∃ k, s.get t k = some item ∧ selection.reads (k, item) = true := by
  obtain ⟨⟨k, item'⟩, hmem, rfl⟩ := List.mem_map.mp h
  obtain ⟨hget, hreads, -⟩ := mem_selected.mp hmem
  exact ⟨k, hget, hreads⟩

end Coordin8.DynamoSpaceStore
