import Coordin8.Support.Client
import Coordin8.Support.Table

/-!
# DynamoDB

The part of DynamoDB that the providers use, with every request one atomic and
strongly consistent step.  An item is a map of attributes; a table holds items
under the key that its schema reads off them.  A request that fails has no
effect.  What the service leaves open (where a page ends, which deletes of a
batch are put off, which request fails) is a choice made for each request.
-/

namespace Coordin8.Dynamo

open Support

inductive AttributeValue where
  | s (text : String)
  | n (value : Int)
  | b (bytes : List UInt8)
  | bool (value : Bool)
  | m (fields : List (String × AttributeValue))
  | l (items : List AttributeValue)

namespace AttributeValue

def asS : AttributeValue → Option String
  | .s text => some text
  | _ => none

def asN : AttributeValue → Option Int
  | .n value => some value
  | _ => none

/-- `parse::<u64>` of a number. -/
def parseU64 (value : Int) : Except String Nat :=
  if value < 0 then .error "invalid digit found in string"
  else if value < 2 ^ 64 then .ok value.toNat
  else .error "number too large to fit in target type"

/-- `as_n`, parsed as a `u64`. -/
def asU64 : AttributeValue → Option Nat
  | .n value => (parseU64 value).toOption
  | _ => none

end AttributeValue

abbrev Item := DashMap String AttributeValue

namespace Item

/-- `item.get(attr).and_then(|v| v.as_s().ok())`. -/
def text (item : Item) (attr : String) : Option String :=
  (item[attr]?).bind AttributeValue.asS

/-- `item.get(attr).and_then(|v| v.as_n().ok())`, parsed as a `u64`. -/
def number (item : Item) (attr : String) : Option Nat :=
  (item[attr]?).bind AttributeValue.asU64

/-- A blob, empty when the attribute is absent or of another type. -/
def blob (item : Item) (attr : String) : List UInt8 :=
  match item[attr]? with
  | some (.b bytes) => bytes
  | _ => []

end Item

/-- `SdkError`, as far as the providers look at it. -/
inductive SdkError where
  | conditionalCheckFailed
  | other (text : String)
deriving DecidableEq, Repr

def SdkError.display : SdkError → String
  | .conditionalCheckFailed => "service error"
  | .other text => text

/-! ## Tables -/

/-- A primary key: the partition key, and the sort key if the table has one. -/
abbrev Key (S : Type) := String × Option S

instance {S : Type} [Ord S] : Ord (Key S) := lexOrd

instance {S : Type} [Ord S] [Std.TransOrd S] : Std.TransOrd (Key S) :=
  inferInstanceAs (Std.TransOrd (String × Option S))

theorem compare_key {S : Type} [Ord S] (x : String) (a b : S) :
    compare ((x, some a) : Key S) (x, some b) = compare a b := by
  have hself : compare x x = .eq := Std.ReflCmp.compare_self
  show (compare x x).then (compare (some a) (some b)) = compare a b
  rw [hself]
  rfl

/-- The key attributes of the tables `T`; sort keys are of the type `S`. -/
structure Schema (T S : Type) where
  partitionKey : T → String
  sortKey : T → Option String
  scalar : AttributeValue → Option S

/-- The key of an item, if it has all the key attributes. -/
def Schema.keyOf {T S : Type} (schema : Schema T S) (t : T) (item : Item) :
    Option (Key S) := do
  let partition ← item.text (schema.partitionKey t)
  match schema.sortKey t with
  | none => some (partition, none)
  | some attr =>
      let sort ← (item[attr]?).bind schema.scalar
      some (partition, some sort)

variable {T S : Type} [Ord S] [Std.TransOrd S]

/-- The contents of all tables; an item is filed under its own key. -/
structure Tables (schema : Schema T S) where
  rows : T → DashMap (Key S) Item
  keyed : ∀ t (k : Key S) item, (rows t)[k]? = some item →
    schema.keyOf t item = some k

namespace Tables

variable {schema : Schema T S}

def empty : Tables schema where
  rows _ := ∅
  keyed t k item h := by simp at h

def get (s : Tables schema) (t : T) (k : Key S) : Option Item :=
  (s.rows t)[k]?

variable [Std.LawfulEqOrd S]

variable [DecidableEq S] [DecidableEq T]

/-- File an item, in place of the one with its key. -/
def insert (s : Tables schema) (t : T) (item : Item) : Tables schema where
  rows := Function.update s.rows t
    (match schema.keyOf t item with
      | none => s.rows t
      | some k => (s.rows t).insert k item)
  keyed u k' item' h := by
    by_cases hu : u = t
    · subst hu
      rw [Function.update_self] at h
      split at h
      · exact s.keyed u k' item' h
      · next k hkey =>
        rw [DashMap.get_insert] at h
        split at h
        · next hk => rw [← Option.some.inj h, hkey, hk]
        · exact s.keyed u k' item' h
    · rw [Function.update_of_ne hu] at h
      exact s.keyed u k' item' h

def erase (s : Tables schema) (t : T) (k : Key S) : Tables schema where
  rows := Function.update s.rows t ((s.rows t).erase k)
  keyed u k' item' h := by
    by_cases hu : u = t
    · subst hu
      rw [Function.update_self, DashMap.get_erase] at h
      split at h
      · cases h
      · exact s.keyed u k' item' h
    · rw [Function.update_of_ne hu] at h
      exact s.keyed u k' item' h

theorem get_insert {s : Tables schema} {t : T} {item : Item} {k : Key S}
    (hkey : schema.keyOf t item = some k) (u : T) (k' : Key S) :
    (s.insert t item).get u k' =
      if u = t ∧ k = k' then some item else s.get u k' := by
  by_cases hu : u = t
  · subst hu
    simp only [get, insert, Function.update_self, hkey, DashMap.get_insert,
      true_and]
  · simp only [get, insert, Function.update_of_ne hu, hu, false_and, if_false]

theorem get_erase (s : Tables schema) (t : T) (k : Key S) (u : T) (k' : Key S) :
    (s.erase t k).get u k' = if u = t ∧ k = k' then none else s.get u k' := by
  by_cases hu : u = t
  · subst hu
    simp only [get, erase, Function.update_self, DashMap.get_erase, true_and]
  · simp only [get, erase, Function.update_of_ne hu, hu, false_and, if_false]

end Tables

/-! ## Requests -/

/-- The part of the filter expressions that the providers use.  A comparison with
an attribute that is absent, or not a number, does not hold. -/
inductive Filter where
  | attributeExists (attr : String)
  | attributeNotExists (attr : String)
  /-- `attr <= :value`. -/
  | atMost (attr : String) (value : Int)
  | and (p q : Filter)
  | or (p q : Filter)
deriving DecidableEq, Repr

/-- Whether an item passes the filter. -/
def Filter.holds (item : Item) : Filter → Bool
  | .attributeExists attr => (item[attr]?).isSome
  | .attributeNotExists attr => (item[attr]?).isNone
  | .atMost attr value =>
      ((item[attr]?).bind AttributeValue.asN).any fun n => n ≤ value
  | .and p q => p.holds item && q.holds item
  | .or p q => p.holds item || q.holds item

/-- The rows a request for pages reads. -/
inductive Selection (S : Type) where
  /-- `scan`. -/
  | all
  /-- `scan` with the filter `attr = value`. -/
  | having (attr value : String)
  /-- `scan` with another filter. -/
  | filtered (filter : Filter)
  /-- `query` of a partition, if wanted only above a sort key. -/
  | partition (key : String) (above : Option S)
  /-- `query` of a secondary index. -/
  | indexed (attr value : String)
deriving DecidableEq

namespace Selection

/-- The rows looked at. -/
def reads : Selection S → Key S × Item → Bool
  | .all, _ | .having .., _ | .filtered _, _ => true
  | .partition key none, e => e.1.1 == key
  | .partition key (some above), e =>
      e.1.1 == key && e.1.2.any fun sort => compare above sort == .lt
  | .indexed attr value, e => e.2.text attr == some value

/-- The rows returned, of those looked at. -/
def keeps : Selection S → Key S × Item → Bool
  | .having attr value, e => e.2.text attr == some value
  | .filtered filter, e => filter.holds e.2
  | _, _ => true

/-- A query of a partition goes by the sort key; everything else goes by the
table's own order. -/
def listing (order : Listing (Key S) Item) : Selection S → Listing (Key S) Item
  | .partition .. => .byKey
  | _ => order

end Selection

/-- What a write requires of the item under the key. -/
inductive Condition where
  | always
  | itemExists
  | itemAbsent
deriving DecidableEq, Repr

def Condition.holds : Condition → Option Item → Bool
  | .always, _ => true
  | .itemExists, old => old.isSome
  | .itemAbsent, old => old.isNone

inductive Request (T S : Type) where
  | putItem (t : T) (item : Item) (condition : Condition)
  /-- Answered with the item deleted. -/
  | deleteItem (t : T) (key : Key S) (condition : Condition)
  | getItem (t : T) (key : Key S)
  /-- One page of a scan or a query, after the key `start`. -/
  | readPage (t : T) (selection : Selection S) (start : Option (Key S))
      (limit : Option Nat)
  /-- `update_item` with `ADD attr 1` if there is an item, answered with the new
  value. -/
  | addOne (t : T) (key : Key S) (attr : String)
  /-- `batch_write_item` with deletes, answered with those put off. -/
  | batchDelete (t : T) (keys : List (Key S))

structure Page (S : Type) where
  items : List Item
  lastKey : Option (Key S)

/-- What a request that succeeds is answered with. -/
@[reducible]
def Request.Output : Request T S → Type
  | .putItem .. => Unit
  | .deleteItem .. | .getItem .. | .addOne .. => Option Item
  | .readPage .. => Page S
  | .batchDelete .. => List (Key S)

/-- The answer to a request. -/
abbrev Request.Answer (r : Request T S) := Except SdkError r.Output

/-- What the service leaves open in a request. -/
structure Choice where
  /-- The request fails, with this text. -/
  fault : Option String
  cut : Cut
  /-- The positions of the deletes of a batch that are put off. -/
  putOff : List Nat
deriving DecidableEq, Repr

/-- The request succeeds, with all that is asked for. -/
def Choice.plain : Choice where
  fault := none
  cut := ⟨1000, false⟩
  putOff := []

section Serve

variable [Std.LawfulEqOrd S] [DecidableEq S] [DecidableEq T]
  {schema : Schema T S}

/-- `ADD attr 1` on an item. -/
def Item.addOne (item : Item) (attr : String) : Option Item :=
  match item[attr]? with
  | none => some (item.insert attr (.n 1))
  | some (.n value) => some (item.insert attr (.n (value + 1)))
  | some _ => none

/-- The keys of a batch at the given positions, and the others. -/
def splitBatch (putOff : List Nat) (keys : List (Key S)) :
    List (Key S) × List (Key S) :=
  let (left, done) := keys.zipIdx.partition fun e => putOff.contains e.2
  (left.map Prod.fst, done.map Prod.fst)

/-- A request that succeeds or fails by its condition. -/
def perform (order : T → Listing (Key S) Item) (s : Tables schema)
    (choice : Choice) : (r : Request T S) → Tables schema × r.Answer
  | .putItem t item condition =>
      match schema.keyOf t item with
      | none => (s, .error (.other "service error"))
      | some k =>
          if condition.holds (s.get t k) then (s.insert t item, .ok ())
          else (s, .error .conditionalCheckFailed)
  | .deleteItem t key condition =>
      if condition.holds (s.get t key) then (s.erase t key, .ok (s.get t key))
      else (s, .error .conditionalCheckFailed)
  | .getItem t key => (s, .ok (s.get t key))
  | .readPage t selection start limit =>
      let rows := (selection.listing (order t)).rowsAfter selection.reads start
        (s.rows t)
      let (shown, lastKey) := choice.cut.page limit rows
      (s, .ok ⟨(shown.filter selection.keeps).map Prod.snd, lastKey⟩)
  | .addOne t key attr =>
      match s.get t key with
      | none => (s, .error .conditionalCheckFailed)
      | some old =>
          match old.addOne attr with
          | none => (s, .error (.other "service error"))
          | some item =>
              (s.insert t item, .ok ((item[attr]?).map fun v =>
                (∅ : Item).insert attr v))
  | .batchDelete t keys =>
      let (left, done) := splitBatch choice.putOff keys
      (done.foldl (fun s k => s.erase t k) s, .ok left)

/-- One request. -/
def serve (order : T → Listing (Key S) Item) (s : Tables schema)
    (r : Request T S) (choice : Choice) : Tables schema × r.Answer :=
  match choice.fault with
  | some text => (s, .error (.other text))
  | none => perform order s choice r

variable {order : T → Listing (Key S) Item} {s : Tables schema}
  {r : Request T S} {choice : Choice}

theorem serve_of_fault {text : String} (h : choice.fault = some text) :
    serve order s r choice = (s, .error (.other text)) := by
  simp [serve, h]

theorem serve_of_none (h : choice.fault = none) :
    serve order s r choice = perform order s choice r := by
  simp [serve, h]

end Serve

end Coordin8.Dynamo
