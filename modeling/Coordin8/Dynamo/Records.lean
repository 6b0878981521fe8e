import Coordin8.Dynamo.EventStore

/-!
# Registry entries and transactions as items

The items of `DynamoRegistryStore` and `DynamoTxnStore`.  A registry entry
without a transport leaves out two attributes, and a transaction keeps its
participants as a list of maps.  At the end, for the four kinds of records that
the providers keep, reading back the item that was written gives the record.
-/

namespace Coordin8

open Support Dynamo

/-! ## Registry entries -/

namespace DynamoRegistryStore

def stringsOf (what : String) : Option AttributeValue → Except Error Attrs :=
  readStrings fun key =>
    .storage (what ++ " value for key '" ++ key ++ "' is not a string")

def entryToItem (entry : RegistryEntry) : Item :=
  let item : Item := ((((∅ : Item).insert
    "capability_id" (.s entry.capabilityId)).insert
    "lease_id" (.s entry.leaseId)).insert
    "interface" (.s entry.interface)).insert
    "attrs" (stringsToAv entry.attrs)
  match entry.transport with
  | none => item
  | some transport =>
      (item.insert "transport_type" (.s transport.transportType)).insert
        "transport_config" (stringsToAv transport.config)

/-- A transport is there when both of its attributes are. -/
def transportFromItem (item : Item) : Except Error (Option TransportConfig) :=
  match item["transport_type"]?, item["transport_config"]? with
  | some (.s transportType), some (.m config) => do
      let config ← stringsOf "transport_config" (some (.m config))
      pure (some { transportType, config })
  | _, _ => pure none

def entryFromItem (item : Item) : Except Error RegistryEntry := do
  let capabilityId ← requiredText item "capability_id"
  let leaseId ← requiredText item "lease_id"
  let interface ← requiredText item "interface"
  let attrs ← stringsOf "attrs" item["attrs"]?
  let transport ← transportFromItem item
  pure { capabilityId, leaseId, interface, attrs, transport }

theorem transportFromItem_entryToItem (entry : RegistryEntry) :
    transportFromItem (entryToItem entry) = .ok entry.transport := by
  obtain ⟨capabilityId, leaseId, interface, attrs, transport⟩ := entry
  cases transport with
  | none =>
      simp only [transportFromItem, entryToItem, DashMap.get_insert,
        String.reduceEq, if_false]
      rfl
  | some transport =>
      have hconfig := readStrings_stringsToAv (fun key => .storage
        ("transport_config" ++ " value for key '" ++ key ++ "' is not a string"))
        transport.config
      simp only [transportFromItem, entryToItem, DashMap.get_insert,
        String.reduceEq, if_false, if_true, stringsToAv] at hconfig ⊢
      simp only [stringsOf, hconfig]
      rfl

theorem entryFromItem_entryToItem (entry : RegistryEntry) :
    entryFromItem (entryToItem entry) = .ok entry := by
  have hget : (entryToItem entry)["capability_id"]? =
        some (.s entry.capabilityId) ∧
      (entryToItem entry)["lease_id"]? = some (.s entry.leaseId) ∧
      (entryToItem entry)["interface"]? = some (.s entry.interface) ∧
      (entryToItem entry)["attrs"]? = some (stringsToAv entry.attrs) := by
    simp only [entryToItem]
    split <;> simp only [DashMap.get_insert, String.reduceEq, if_true, if_false,
      and_self]
  obtain ⟨hid, hlease, hinterface, hattrs⟩ := hget
  rw [entryFromItem, requiredText_of_get hid, requiredText_of_get hlease,
    requiredText_of_get hinterface, hattrs, transportFromItem_entryToItem]
  simp only [bind, Except.bind, stringsOf, readStrings_stringsToAv]
  rfl

end DynamoRegistryStore

/-! ## Transactions -/

namespace DynamoTxnStore

def stateToStr : TransactionState → String
  | .active => "Active"
  | .voting => "Voting"
  | .prepared => "Prepared"
  | .committed => "Committed"
  | .aborted => "Aborted"

def stateFromStr : String → Except Error TransactionState
  | "Active" => .ok .active
  | "Voting" => .ok .voting
  | "Prepared" => .ok .prepared
  | "Committed" => .ok .committed
  | "Aborted" => .ok .aborted
  | other => .error (.storage ("unknown transaction state: " ++ other))

def participantToAv (p : ParticipantRecord) : AttributeValue :=
  .m (((∅ : Item).insert "endpoint" (.s p.endpoint)).insert
    "crash_count" (.n p.crashCount.toNat)).toList

def participantFromAv : AttributeValue → Except Error ParticipantRecord
  | .m fields =>
      let map : Item := DashMap.insertAll Prod.fst Prod.snd ∅ fields
      match map.text "endpoint" with
      | none => .error (.storage "missing participant endpoint")
      | some endpoint =>
          match (map["crash_count"]?).bind AttributeValue.asN with
          | none => .error (.storage "missing participant crash_count")
          | some value => do
              let crashCount ← (AttributeValue.parseU64 value).mapError fun e =>
                .storage ("bad crash_count: " ++ e)
              pure { endpoint, crashCount := UInt64.ofNat crashCount }
  | _ => .error (.storage "participant is not a map")

def participantsToAv (participants : List ParticipantRecord) : AttributeValue :=
  .l (participants.map participantToAv)

variable (fmt : Rfc3339)

/-- The item that `create` writes. -/
def recordToItem (record : TransactionRecord) : Item :=
  (((((∅ : Item).insert "txn_id" (.s record.txnId)).insert
    "lease_id" (.s record.leaseId)).insert
    "state" (.s (stateToStr record.state))).insert
    "begun_at" (.s (fmt.print record.begunAt))).insert
    "participants" (participantsToAv record.participants)

def recordFromItem (item : Item) : Except Error TransactionRecord := do
  let txnId ← requiredText item "txn_id"
  let leaseId ← requiredText item "lease_id"
  let state ← requiredText item "state"
  let state ← stateFromStr state
  let begunAt ← requiredTime fmt item "begun_at"
  let participants ←
    match item["participants"]? with
    | some (.l list) => list.mapM participantFromAv
    | _ => pure []
  pure { txnId, leaseId, state, participants, begunAt }

theorem stateFromStr_stateToStr (state : TransactionState) :
    stateFromStr (stateToStr state) = .ok state := by
  cases state <;> rfl

theorem participantFromAv_participantToAv (p : ParticipantRecord) :
    participantFromAv (participantToAv p) = .ok p := by
  have htext : Item.text (((∅ : Item).insert "endpoint" (.s p.endpoint)).insert
      "crash_count" (.n p.crashCount.toNat)) "endpoint" = some p.endpoint := by
    simp [AttributeValue.asS]
  have hcount : (((∅ : Item).insert "endpoint" (.s p.endpoint)).insert
      "crash_count" (.n p.crashCount.toNat))["crash_count"]? =
        some (.n p.crashCount.toNat) := by
    simp only [DashMap.get_insert, if_true]
  simp only [participantFromAv, participantToAv, DashMap.insertAll_toList, htext,
    hcount, Option.bind_some, AttributeValue.asN,
    parseU64_natCast p.crashCount.toNat_lt]
  change Except.ok _ = _
  rw [UInt64.ofNat_toNat]

theorem recordFromItem_recordToItem (record : TransactionRecord) :
    recordFromItem fmt (recordToItem fmt record) = .ok record := by
  have hget : (recordToItem fmt record)["txn_id"]? = some (.s record.txnId) ∧
      (recordToItem fmt record)["lease_id"]? = some (.s record.leaseId) ∧
      (recordToItem fmt record)["state"]? =
        some (.s (stateToStr record.state)) ∧
      (recordToItem fmt record)["begun_at"]? =
        some (.s (fmt.print record.begunAt)) ∧
      (recordToItem fmt record)["participants"]? =
        some (participantsToAv record.participants) := by
    simp only [recordToItem, DashMap.get_insert, String.reduceEq, if_true,
      if_false, and_self]
  obtain ⟨hid, hlease, hstate, hbegun, hparticipants⟩ := hget
  have hlist : (record.participants.map participantToAv).mapM
      participantFromAv = .ok record.participants := by
    rw [List.mapM_map]
    simp only [Function.comp_def, participantFromAv_participantToAv]
    exact List.mapM_pure.trans (by rw [List.map_id']; rfl)
  rw [recordFromItem, requiredText_of_get hid, requiredText_of_get hlease,
    requiredText_of_get hstate, requiredTime_of_get hbegun, hparticipants]
  simp only [bind, Except.bind, stateFromStr_stateToStr, participantsToAv, hlist]
  rfl

end DynamoTxnStore

/-! ## All records -/

open Fallible DynamoEventStore

/-- Every record is read back from the item that is written for it, a
subscription with any counter.  For the calls this means: `create_subscription`
puts the subscription into the table, or fails and changes nothing; calls of
`enqueue` keep it there, whether they succeed or not, and what one has written
is read as the event under the number returned; `get_subscription` returns it,
unless its request fails.  The numbers are 64 bits wide. -/
theorem records_read_back (fmt : Rfc3339)
    (order : EventTable → Listing (Key Int) Item) :
    (∀ entry, DynamoRegistryStore.entryFromItem
      (DynamoRegistryStore.entryToItem entry) = .ok entry) ∧
    (∀ record, DynamoTxnStore.recordFromItem fmt
      (DynamoTxnStore.recordToItem fmt record) = .ok record) ∧
    (∀ registrationId seq event, seq < 2 ^ 64 →
      eventFromItem fmt (eventToItem fmt registrationId seq event) =
        .ok { event with seqNum := seq }) ∧
    ∀ sub : SubscriptionRecord, sub.initialSeqNum < 2 ^ 64 →
      subFromItem (subToItem sub) = .ok sub ∧
      (∀ counter, subFromItem ((subToItem sub).insert "mailbox_seq" counter) =
        .ok sub) ∧
      ∀ s last,
        Yields (alone eventSchema order fun _ => True) true
          (createSubscription sub) (fun _ g => Holds sub g.1)
          (fun _ g => g.1 = s) (s, last) ∧
        (Holds sub s →
          (∀ reg event,
            Yields (alone eventSchema order fun _ => True) true
              (enqueue fmt reg event)
              (fun n g => Holds sub g.1 ∧
                ∃ item, g.1.get .mailbox (reg, some (n : Int)) = some item ∧
                  eventFromItem fmt item = .ok { event with seqNum := n })
              (fun _ g => Holds sub g.1) (s, last)) ∧
          Yields (alone eventSchema order fun _ => True) true
            (getSubscription sub.registrationId)
            (fun got g => got = some sub ∧ g.1 = s)
            (fun e g => g.1 = s ∧ ∃ r i text, g.2 = some (r, i) ∧
              i.fault = some text ∧ e = .storage ("get_item failed: " ++ text))
            (s, last)) := by
  refine ⟨DynamoRegistryStore.entryFromItem_entryToItem,
    DynamoTxnStore.recordFromItem_recordToItem fmt, fun reg seq event hseq => ?_,
    fun sub hseq => ⟨?_, fun counter => ?_, fun s last =>
      ⟨yields_createSubscription sub, fun h => ⟨?_, ?_⟩⟩⟩⟩
  · exact (eventRow_eventToItem reg seq event).read hseq
  · exact (subRow_subToItem sub).read hseq
  · exact ((subRow_subToItem sub).insert_mailbox_seq counter).read hseq
  · exact yields_enqueue h
  · exact yields_getSubscription h hseq

def chime : SubscriptionRecord where
  registrationId := "r"
  source := "door"
  template := ∅
  delivery := .durable
  leaseId := "l"
  handback := []
  initialSeqNum := 7

/-- A subscription put into empty tables. -/
theorem records_read_back_chime :
    Yields (alone eventSchema (fun _ => .byKey) fun _ => True) true
      (createSubscription chime) (fun _ g => Holds chime g.1)
      (fun _ g => g.1 = Tables.empty) (Tables.empty, none) :=
  (((records_read_back epochFormat fun _ => .byKey).2.2.2 chime
    (by decide)).2.2 Tables.empty none).1

end Coordin8
