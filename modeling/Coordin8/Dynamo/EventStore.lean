import Coordin8.Dynamo.Call
import Coordin8.Dynamo.Item
import Coordin8.Provider.EventStore

/-!
# The DynamoDB event store

`DynamoEventStore`: a table of subscriptions and a table of mailbox entries.
The counter of a mailbox is an attribute of the subscription's item, so
`enqueue` takes a number with one request and writes the entry with another.
This module has the items of the two tables, the operations that write and read
them, and that reading an item back gives what was written.
-/

namespace Coordin8

open Support Dynamo

inductive EventTable where
  | subscriptions
  | mailbox
deriving DecidableEq, Repr

def eventSchema : Schema EventTable Int where
  partitionKey _ := "registration_id"
  sortKey
    | .subscriptions => none
    | .mailbox => some "seq_num"
  scalar := AttributeValue.asN

abbrev EventTables := Tables eventSchema

/-- An operation of the store. -/
abbrev EventStoreCall := Call EventTable Int

namespace DynamoEventStore

/-! ## Items -/

def deliveryToStr : DeliveryMode → String
  | .durable => "Durable"
  | .bestEffort => "BestEffort"

def deliveryFromStr : String → Except Error DeliveryMode
  | "Durable" => .ok .durable
  | "BestEffort" => .ok .bestEffort
  | other => .error (.storage ("unknown delivery mode: " ++ other))

/-- The item that `create_subscription` writes. -/
def subToItem (sub : SubscriptionRecord) : Item :=
  let item : Item := ((((((∅ : Item).insert
    "registration_id" (.s sub.registrationId)).insert
    "source" (.s sub.source)).insert
    "lease_id" (.s sub.leaseId)).insert
    "delivery" (.s (deliveryToStr sub.delivery))).insert
    "template" (stringsToAv sub.template)).insert
    "initial_seq_num" (.n sub.initialSeqNum)
  insertSome item "handback" (blobToAv sub.handback)

def subFromItem (item : Item) : Except Error SubscriptionRecord := do
  let registrationId ← requiredText item "registration_id"
  let source ← requiredText item "source"
  let leaseId ← requiredText item "lease_id"
  let delivery ← requiredText item "delivery"
  let delivery ← deliveryFromStr delivery
  let template ← stringsFromAv "template" item["template"]?
  pure
    { registrationId, source, template, delivery, leaseId,
      handback := item.blob "handback",
      initialSeqNum := (item.number "initial_seq_num").getD 0 }

variable (fmt : Rfc3339)

/-- The item that `enqueue` writes. -/
def eventToItem (registrationId : String) (seq : Nat) (event : EventRecord) :
    Item :=
  let item : Item := (((((((∅ : Item).insert
    "registration_id" (.s registrationId)).insert
    "seq_num" (.n seq)).insert
    "event_id" (.s event.eventId)).insert
    "source" (.s event.source)).insert
    "event_type" (.s event.eventType)).insert
    "emitted_at" (.s (fmt.print event.emittedAt))).insert
    "attrs" (stringsToAv event.attrs)
  insertSome item "payload" (blobToAv event.payload)

def eventFromItem (item : Item) : Except Error EventRecord := do
  let eventId ← requiredText item "event_id"
  let source ← requiredText item "source"
  let eventType ← requiredText item "event_type"
  let seqNum ← requiredU64 item "seq_num"
  let emittedAt ← requiredTime fmt item "emitted_at"
  let attrs ← stringsFromAv "attrs" item["attrs"]?
  pure
    { eventId, source, eventType, seqNum, attrs,
      payload := item.blob "payload", emittedAt }

/-! ## Operations -/

def createSubscription (sub : SubscriptionRecord) : EventStoreCall Unit :=
  send (.putItem .subscriptions (subToItem sub) .always) "put_item"

def getSubscription (registrationId : String) :
    EventStoreCall (Option SubscriptionRecord) := do
  match ← send (.getItem .subscriptions (registrationId, none)) "get_item" with
  | none => pure none
  | some item =>
      let sub ← propagate (subFromItem item)
      pure (some sub)

def enqueue (registrationId : String) (event : EventRecord) :
    EventStoreCall Nat := do
  -- The number is taken first; the entry is written with another request.
  match ← attempt (.addOne .subscriptions (registrationId, none)
      "mailbox_seq") with
  | .error .conditionalCheckFailed =>
      throw (.subscriptionNotFound registrationId)
  | .error e => throw (failed "update_item (mailbox_seq)" e.display)
  | .ok attributes =>
      match attributes.bind fun a => a.number "mailbox_seq" with
      | none => throw (.storage "update_item returned no mailbox_seq")
      | some seq =>
          send (.putItem .mailbox (eventToItem fmt registrationId seq event)
            .itemAbsent) ("put_item (mailbox seq " ++ toString seq ++ ")")
          pure seq

/-- The largest `limit` of a query. -/
def maxLimit : Nat := 2 ^ 31 - 1

/-- The loop of `peek`, for a `limit` that is not zero. -/
def peekPages (registrationId : String) (afterSeq limit : Nat) :
    EventStoreCall (List EventRecord) :=
  readPages .mailbox (.partition registrationId (some (afterSeq : Int))) "query"
    (fun events => some (min (limit - events.length) maxLimit))
    (fun events => events.length < limit)
    (fun events items => do
      let read ← propagate (items.mapM (eventFromItem fmt))
      pure (events ++ read))
    []

def peek (registrationId : String) (afterSeq limit : Nat) :
    EventStoreCall (List EventRecord) :=
  if limit = 0 then
    pure []
  else do
    let events ← peekPages fmt registrationId afterSeq limit
    pure (events.take limit)

/-! ## Reading back what was written -/

theorem deliveryFromStr_deliveryToStr (mode : DeliveryMode) :
    deliveryFromStr (deliveryToStr mode) = .ok mode := by
  cases mode <;> rfl

/-- The item holds the subscription. -/
structure SubRow (item : Item) (sub : SubscriptionRecord) : Prop where
  registrationId : item["registration_id"]? = some (.s sub.registrationId)
  source : item["source"]? = some (.s sub.source)
  leaseId : item["lease_id"]? = some (.s sub.leaseId)
  delivery : item["delivery"]? = some (.s (deliveryToStr sub.delivery))
  template : item["template"]? = some (stringsToAv sub.template)
  handback : item.blob "handback" = sub.handback
  initialSeqNum : item["initial_seq_num"]? = some (.n sub.initialSeqNum)

theorem SubRow.read {item : Item} {sub : SubscriptionRecord}
    (h : SubRow item sub) (hseq : sub.initialSeqNum < 2 ^ 64) :
    subFromItem item = .ok sub := by
  rw [subFromItem, requiredText_of_get h.registrationId,
    requiredText_of_get h.source, requiredText_of_get h.leaseId,
    requiredText_of_get h.delivery, h.template, h.handback,
    number_of_get h.initialSeqNum hseq]
  simp only [bind, Except.bind, deliveryFromStr_deliveryToStr, stringsFromAv,
    readStrings_stringsToAv]
  rfl

theorem subRow_subToItem (sub : SubscriptionRecord) :
    SubRow (subToItem sub) sub := by
  constructor
  case handback => exact blob_insertSome_blobToAv _ (by simp)
  all_goals simp only [subToItem, get_insertSome, DashMap.get_insert,
    String.reduceEq, if_true, if_false]

theorem SubRow.insert_mailbox_seq {item : Item} {sub : SubscriptionRecord}
    (h : SubRow item sub) (value : AttributeValue) :
    SubRow (item.insert "mailbox_seq" value) sub := by
  have hget : ∀ attr, "mailbox_seq" ≠ attr →
      (item.insert "mailbox_seq" value)[attr]? = item[attr]? :=
    fun attr hne => by rw [DashMap.get_insert, if_neg hne]
  exact {
    registrationId := (hget _ (by decide)).trans h.registrationId
    source := (hget _ (by decide)).trans h.source
    leaseId := (hget _ (by decide)).trans h.leaseId
    delivery := (hget _ (by decide)).trans h.delivery
    template := (hget _ (by decide)).trans h.template
    handback := (blob_insert_of_ne value (by decide)).trans h.handback
    initialSeqNum := (hget _ (by decide)).trans h.initialSeqNum }

/-- The counter starts without an attribute and counts up. -/
def Counter (item : Item) : Prop :=
  item["mailbox_seq"]? = none ∨ ∃ v, item["mailbox_seq"]? = some (.n v)

theorem addOne_eq_some {item item' : Item} {attr : String}
    (h : item.addOne attr = some item') : ∃ v, item' = item.insert attr (.n v) := by
  unfold Item.addOne at h
  split at h
  · exact ⟨1, (Option.some.inj h).symm⟩
  · next value _ => exact ⟨value + 1, (Option.some.inj h).symm⟩
  · cases h

variable {fmt}

/-- The item holds the event under the number. -/
structure EventRow (fmt : Rfc3339) (item : Item) (seq : Nat)
    (event : EventRecord) : Prop where
  eventId : item["event_id"]? = some (.s event.eventId)
  source : item["source"]? = some (.s event.source)
  eventType : item["event_type"]? = some (.s event.eventType)
  seqNum : item["seq_num"]? = some (.n seq)
  emittedAt : item["emitted_at"]? = some (.s (fmt.print event.emittedAt))
  attrs : item["attrs"]? = some (stringsToAv event.attrs)
  payload : item.blob "payload" = event.payload

theorem EventRow.read {item : Item} {seq : Nat} {event : EventRecord}
    (h : EventRow fmt item seq event) (hseq : seq < 2 ^ 64) :
    eventFromItem fmt item = .ok { event with seqNum := seq } := by
  rw [eventFromItem, requiredText_of_get h.eventId,
    requiredText_of_get h.source, requiredText_of_get h.eventType,
    requiredU64_of_get h.seqNum hseq, requiredTime_of_get h.emittedAt, h.attrs,
    h.payload]
  simp only [bind, Except.bind, stringsFromAv, readStrings_stringsToAv]
  rfl

theorem eventRow_eventToItem (registrationId : String) (seq : Nat)
    (event : EventRecord) :
    EventRow fmt (eventToItem fmt registrationId seq event) seq event := by
  constructor
  case payload => exact blob_insertSome_blobToAv _ (by simp)
  all_goals simp only [eventToItem, get_insertSome, DashMap.get_insert,
    String.reduceEq, if_true, if_false]

theorem keyOf_eventToItem (fmt : Rfc3339) (reg : String) (n : Nat)
    (event : EventRecord) :
    eventSchema.keyOf .mailbox (eventToItem fmt reg n event) =
      some (reg, some (n : Int)) := by
  have hget : (eventToItem fmt reg n event)["registration_id"]? =
        some (.s reg) ∧
      (eventToItem fmt reg n event)["seq_num"]? = some (.n n) := by
    simp only [eventToItem, get_insertSome, DashMap.get_insert, String.reduceEq,
      if_true, if_false, and_self]
  simp only [Schema.keyOf, eventSchema, Item.text, hget]
  rfl

/-! ## What the calls leave behind -/

section Calls

open Fallible

variable {order : EventTable → Listing (Key Int) Item} {sub : SubscriptionRecord}
  {s : EventTables} {last : Option (Request EventTable Int × Choice)}

/-- The table has the subscription, whatever numbers were taken from it. -/
def Holds (sub : SubscriptionRecord) (s : EventTables) : Prop :=
  ∃ item, s.get .subscriptions (sub.registrationId, none) = some item ∧
    SubRow item sub ∧ Counter item

theorem keyOf_subscription {item : Item} {reg : String}
    (h : item["registration_id"]? = some (.s reg)) :
    eventSchema.keyOf .subscriptions item = some (reg, none) := by
  simp [Schema.keyOf, eventSchema, Item.text, h, AttributeValue.asS]

theorem Holds.insert_mailbox {item : Item} (h : Holds sub s) {k : Key Int}
    (hkey : eventSchema.keyOf .mailbox item = some k) :
    Holds sub (s.insert .mailbox item) := by
  obtain ⟨row, hget, hrow⟩ := h
  exact ⟨row, by rw [Tables.get_insert hkey, if_neg (by simp)]; exact hget, hrow⟩

theorem yields_createSubscription (sub : SubscriptionRecord) :
    Yields (alone eventSchema order fun _ => True) true (createSubscription sub)
      (fun _ g => Holds sub g.1) (fun _ g => g.1 = s) (s, last) := by
  have hrow := subRow_subToItem sub
  have hkey := keyOf_subscription hrow.registrationId
  refine yields_put hkey (fun _ _ _ _ => rfl) fun _ _ _ => ?_
  refine ⟨subToItem sub, ?_, hrow, .inl ?_⟩
  · rw [Tables.get_insert hkey, if_pos ⟨rfl, rfl⟩]
  · simp [subToItem, get_insertSome]

theorem yields_getSubscription (h : Holds sub s)
    (hseq : sub.initialSeqNum < 2 ^ 64) :
    Yields (alone eventSchema order fun _ => True) true
      (getSubscription sub.registrationId)
      (fun got g => got = some sub ∧ g.1 = s)
      (fun e g => g.1 = s ∧ ∃ r i text, g.2 = some (r, i) ∧
        i.fault = some text ∧ e = .storage ("get_item failed: " ++ text))
      (s, last) := by
  obtain ⟨item, hget, hrow, -⟩ := h
  refine yields_bind (yields_send
    (fun i text _ hfault => ⟨rfl, _, i, text, rfl, hfault, rfl⟩) fun i _ _ => ?_)
  simp only [perform, hget]
  refine yields_bind (yields_propagate (fun got hgot => ?_) fun e he => ?_)
  · obtain rfl := Except.ok.inj ((hrow.read hseq).symm.trans hgot)
    exact yields_pure ⟨rfl, rfl⟩
  · cases (hrow.read hseq).symm.trans he

theorem Holds.addOne (h : Holds sub s) (reg : String) (i : Choice) :
    Holds sub (serve order s
      (.addOne .subscriptions (reg, none) "mailbox_seq") i).1 := by
  cases hfault : i.fault with
  | some text =>
      rw [serve_of_fault hfault]
      exact h
  | none =>
      rw [serve_of_none hfault]
      simp only [perform]
      cases hold : s.get .subscriptions (reg, none) with
      | none => exact h
      | some old =>
          cases hadd : old.addOne "mailbox_seq" with
          | none =>
              simp only [hadd]
              exact h
          | some item =>
              obtain ⟨v, rfl⟩ := addOne_eq_some hadd
              obtain ⟨row, hget, hrow, hcounter⟩ := h
              have hkey : eventSchema.keyOf .subscriptions
                  (old.insert "mailbox_seq" (.n v)) = some (reg, none) := by
                rw [← s.keyed .subscriptions _ old hold]
                simp [Schema.keyOf, eventSchema, Item.text, DashMap.get_insert]
              simp only [hadd]
              rw [Holds, Tables.get_insert hkey]
              by_cases heq : reg = sub.registrationId
              · subst heq
                obtain rfl := Option.some.inj (hget.symm.trans hold)
                rw [if_pos ⟨rfl, rfl⟩]
                exact ⟨_, rfl, hrow.insert_mailbox_seq _, .inr ⟨v, by simp⟩⟩
              · rw [if_neg (by simp [heq])]
                exact ⟨row, hget, hrow, hcounter⟩

theorem lt_of_number {attributes : Option Item} {attr : String} {n : Nat}
    (h : (attributes.bind fun a => a.number attr) = some n) : n < 2 ^ 64 := by
  obtain ⟨item, -, hnumber⟩ := Option.bind_eq_some_iff.mp h
  obtain ⟨value, -, hvalue⟩ := Option.bind_eq_some_iff.mp hnumber
  cases value with
  | n v =>
      simp only [AttributeValue.asU64, AttributeValue.parseU64] at hvalue
      split at hvalue
      · cases hvalue
      · split at hvalue
        · obtain rfl := Option.some.inj hvalue
          omega
        · cases hvalue
  | _ => cases hvalue

theorem yields_enqueue (h : Holds sub s) (reg : String) (event : EventRecord) :
    Yields (alone eventSchema order fun _ => True) true (enqueue fmt reg event)
      (fun n g => Holds sub g.1 ∧
        ∃ item, g.1.get .mailbox (reg, some (n : Int)) = some item ∧
          eventFromItem fmt item = .ok { event with seqNum := n })
      (fun _ g => Holds sub g.1) (s, last) := by
  refine yields_bind (yields_attempt fun i _ => ?_)
  have hkept : Holds sub (serve order s
      (.addOne .subscriptions (reg, none) "mailbox_seq") i).1 := h.addOne reg i
  generalize serve order s (.addOne .subscriptions (reg, none) "mailbox_seq") i =
    out at hkept ⊢
  obtain ⟨s', answer⟩ := out
  cases answer with
  | error e => cases e <;> exact yields_throw hkept
  | ok attributes =>
      dsimp only
      cases hseq : attributes.bind fun a => a.number "mailbox_seq" with
      | none => exact yields_throw hkept
      | some seq =>
          have hkey := keyOf_eventToItem fmt reg seq event
          refine yields_bind (yields_send (fun _ _ _ _ => hkept) fun i _ _ => ?_)
          simp only [perform, hkey]
          by_cases habsent : Condition.itemAbsent.holds
            (s'.get .mailbox (reg, some (seq : Int))) = true
          · simp only [if_pos habsent]
            refine yields_pure ⟨hkept.insert_mailbox hkey, _,
              by rw [Tables.get_insert hkey, if_pos ⟨rfl, rfl⟩], ?_⟩
            exact (eventRow_eventToItem reg seq event).read (lt_of_number hseq)
          · simp only [if_neg habsent]
            exact hkept

end Calls

end DynamoEventStore

end Coordin8
