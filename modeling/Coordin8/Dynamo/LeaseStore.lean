import Coordin8.Dynamo.Call
import Coordin8.Dynamo.Expression
import Coordin8.Dynamo.Item
import Coordin8.Lease.KeepAlive
import Mathlib.Data.PNat.Basic

/-!
# The DynamoDB lease store

`DynamoLeaseStore` keeps a lease as an item.  The expiry stands in the item up
to four times: exactly, as text, in `expires_at`; as a term in `ttl_seconds`; in
whole seconds in `expires_epoch`, for the filter of `list_expired`; and an hour
later in `ttl`, where DynamoDB itself looks for rows to delete.  A lease without
end has neither of the last two, and a row that was written before
`expires_epoch` existed has its expiry in `ttl`.

Requests are atomic, so `renew` is two steps: it reads the row, and writes it
with an update expression.  A request that fails changes nothing.  `list_expired`
is a loop over the pages of a scan.
-/

namespace Coordin8

open Support Dynamo

inductive LeaseTable where
  | leases
deriving DecidableEq, Repr

def leaseSchema : Schema LeaseTable String where
  partitionKey _ := "lease_id"
  sortKey _ := none
  scalar := AttributeValue.asS

/-- The table of leases. -/
abbrev DynamoLeaseStore := Tables leaseSchema

/-- `i64::saturating_add`. -/
def saturatingAdd (a b : Int) : Int :=
  max (-2 ^ 63) (min (2 ^ 63 - 1) (a + b))

namespace DynamoLeaseStore

/-! ## Items -/

def expiresEpoch (expiresAt : Timestamp) (ttlSeconds : UInt64) : Option Int :=
  if ttlSeconds = leaseForever then none else some (timestamp expiresAt)

/-- How long after the expiry DynamoDB may delete a row. -/
def ttlGraceSecs : Int := 3600

def ttlEpoch (expiresAt : Timestamp) (ttlSeconds : UInt64) : Option Int :=
  (expiresEpoch expiresAt ttlSeconds).map fun e => saturatingAdd e ttlGraceSecs

variable (fmt : Rfc3339)

def recordFromItem (item : Item) : Except Error LeaseRecord := do
  let leaseId ← requiredText item "lease_id"
  let resourceId ← requiredText item "resource_id"
  let grantedAt ← requiredTime fmt item "granted_at"
  let expiresAt ← requiredTime fmt item "expires_at"
  let ttlSeconds ← requiredU64 item "ttl_seconds"
  pure
    { leaseId, resourceId, grantedAt, expiresAt,
      ttlSeconds := UInt64.ofNat ttlSeconds }

/-- The attributes that every row has. -/
def baseItem (record : LeaseRecord) : Item :=
  (((((∅ : Item).insert "lease_id" (.s record.leaseId)).insert
    "resource_id" (.s record.resourceId)).insert
    "granted_at" (.s (fmt.print record.grantedAt))).insert
    "expires_at" (.s (fmt.print record.expiresAt))).insert
    "ttl_seconds" (.n record.ttlSeconds.toNat)

/-- The item that `create` puts. -/
def recordToItem (record : LeaseRecord) : Item :=
  insertSome
    (insertSome (baseItem fmt record) "expires_epoch"
      ((expiresEpoch record.expiresAt record.ttlSeconds).map .n))
    "ttl" ((ttlEpoch record.expiresAt record.ttlSeconds).map .n)

/-- The item that was put before there was `expires_epoch`. -/
def legacyItem (record : LeaseRecord) : Item :=
  insertSome (baseItem fmt record) "ttl"
    ((expiresEpoch record.expiresAt record.ttlSeconds).map .n)

/-- The update expression of `renew`. -/
def renewUpdate (newExpiresAt : Timestamp) (ttlSecs : UInt64) : Update :=
  match ttlEpoch newExpiresAt ttlSecs with
  | some epoch =>
      { set := [
          ("expires_at", .s (fmt.print newExpiresAt)),
          ("ttl_seconds", .n ttlSecs.toNat),
          ("ttl", .n epoch),
          ("expires_epoch", .n (timestamp newExpiresAt))]
        remove := [] }
  | none =>
      { set := [
          ("expires_at", .s (fmt.print newExpiresAt)),
          ("ttl_seconds", .n ttlSecs.toNat)]
        remove := ["ttl", "expires_epoch"] }

/-- The filter expression of `list_expired`. -/
def expiredFilter (now : Timestamp) : Filter :=
  .or
    (.and (.attributeExists "expires_epoch")
      (.atMost "expires_epoch" (timestamp now)))
    (.and (.attributeNotExists "expires_epoch")
      (.and (.attributeExists "ttl") (.atMost "ttl" (timestamp now))))

/-! ## Operations -/

def row (s : DynamoLeaseStore) (leaseId : String) : Option Item :=
  Tables.get s .leases (leaseId, none)

def put (s : DynamoLeaseStore) (item : Item) : DynamoLeaseStore :=
  s.insert .leases item

def delete (s : DynamoLeaseStore) (leaseId : String) : DynamoLeaseStore :=
  s.erase .leases (leaseId, none)

def create (s : DynamoLeaseStore) (now : Timestamp) (uuid resourceId : String)
    (ttlSecs : UInt64) : Except Error (LeaseRecord × DynamoLeaseStore) := do
  let expiresAt ← expiryFor now ttlSecs
  let record : LeaseRecord := {
    leaseId := uuid
    resourceId := resourceId
    grantedAt := now
    expiresAt := expiresAt
    ttlSeconds := ttlSecs }
  pure (record, s.put (recordToItem fmt record))

def get (s : DynamoLeaseStore) (leaseId : String) :
    Except Error (Option LeaseRecord) :=
  match s.row leaseId with
  | none => .ok none
  | some item => (recordFromItem fmt item).map some

/-- The first request of `renew`. -/
def renewRead (s : DynamoLeaseStore) (leaseId : String) :
    Except Error LeaseRecord := do
  match ← s.get fmt leaseId with
  | none => throw (.leaseNotFound leaseId)
  | some existing => pure existing

/-- The second request of `renew`, for the record that was read; the row must
still exist. -/
def renewWrite (s : DynamoLeaseStore) (existing : LeaseRecord)
    (now : Timestamp) (leaseId : String) (ttlSecs : UInt64) :
    Except Error (LeaseRecord × DynamoLeaseStore) := do
  let newExpiresAt ← expiryFor now ttlSecs
  match s.row leaseId with
  | none => throw (.leaseNotFound leaseId)
  | some item =>
      pure ({ existing with expiresAt := newExpiresAt, ttlSeconds := ttlSecs },
        s.put ((renewUpdate fmt newExpiresAt ttlSecs).apply item))

def cancel (s : DynamoLeaseStore) (leaseId : String) : DynamoLeaseStore :=
  s.delete leaseId

/-- The filter is evaluated with the time `now` of the beginning, each record is
tested later, at the time `tested`.  DynamoDB refuses a page limit of zero. -/
def listExpired (scanPageLimit : Option ℕ+) (now : Timestamp)
    (tested : LeaseRecord → Timestamp) :
    Call LeaseTable String (List LeaseRecord) :=
  readPages .leases (.filtered (expiredFilter now)) "scan"
    (fun _ => scanPageLimit.map (·.val)) (fun _ => true)
    (fun records items => propagate do
      let page ← items.mapM (recordFromItem fmt)
      pure (records ++ page.filter fun r => r.isExpired (tested r)))
    []

/-- Delete the row unless its expiry is no longer the one listed. -/
def removeIfUnchanged (s : DynamoLeaseStore) (record : LeaseRecord) :
    Bool × DynamoLeaseStore :=
  if (s.row record.leaseId).bind (fun item => item.text "expires_at") =
      some (fmt.print record.expiresAt) then
    (true, s.delete record.leaseId)
  else
    (false, s)

/-! ## Rows -/

section Rows

variable {s : DynamoLeaseStore} {leaseId : String} {item : Item}

theorem row_put (h : item["lease_id"]? = some (.s leaseId)) (id : String) :
    (s.put item).row id = if leaseId = id then some item else s.row id := by
  have hkey : leaseSchema.keyOf .leases item = some (leaseId, none) := by
    simp [Schema.keyOf, leaseSchema, Item.text, h, AttributeValue.asS]
  simp [row, put, Tables.get_insert hkey]

theorem row_delete (leaseId id : String) :
    (s.delete leaseId).row id = if leaseId = id then none else s.row id := by
  simp [row, delete, Tables.get_erase]

theorem leaseId_of_row (h : s.row leaseId = some item) :
    item["lease_id"]? = some (.s leaseId) := by
  have hkey := s.keyed .leases _ item h
  simp only [Schema.keyOf, leaseSchema, Item.text] at hkey
  cases hget : item["lease_id"]? with
  | none => simp [hget] at hkey
  | some value => cases value <;> simp_all [AttributeValue.asS]

end Rows

/-! ## What a row says -/

/-- The row holds the record. -/
structure Row (item : Item) (record : LeaseRecord) : Prop where
  leaseId : item["lease_id"]? = some (.s record.leaseId)
  resourceId : item["resource_id"]? = some (.s record.resourceId)
  grantedAt : item["granted_at"]? = some (.s (fmt.print record.grantedAt))
  expiresAt : item["expires_at"]? = some (.s (fmt.print record.expiresAt))
  ttlSeconds : item["ttl_seconds"]? = some (.n record.ttlSeconds.toNat)

/-- The epochs as `create` and `renew` write them. -/
structure Current (item : Item) (record : LeaseRecord) : Prop where
  inCalendar : record.expiresAt ≤ maxUtc
  epoch : item["expires_epoch"]? =
    (expiresEpoch record.expiresAt record.ttlSeconds).map .n
  ttl : item["ttl"]? = (ttlEpoch record.expiresAt record.ttlSeconds).map .n

/-- The epochs of a row from before `expires_epoch`. -/
structure Legacy (item : Item) (record : LeaseRecord) : Prop where
  noEpoch : item["expires_epoch"]? = none
  ttl : item["ttl"]? = (expiresEpoch record.expiresAt record.ttlSeconds).map .n

variable {fmt} {item : Item} {record : LeaseRecord}

theorem Row.read (h : Row fmt item record) :
    recordFromItem fmt item = .ok record := by
  rw [recordFromItem, requiredText_of_get h.leaseId,
    requiredText_of_get h.resourceId, requiredTime_of_get h.grantedAt,
    requiredTime_of_get h.expiresAt,
    requiredU64_of_get h.ttlSeconds record.ttlSeconds.toNat_lt]
  simp only [bind, Except.bind, pure, Except.pure, UInt64.ofNat_toNat]

theorem row_baseItem (fmt : Rfc3339) (record : LeaseRecord) :
    Row fmt (baseItem fmt record) record := by
  constructor <;> simp only [baseItem, DashMap.get_insert, String.reduceEq,
    if_true, if_false]

theorem Row.insertSome {attr : String} {value : Option AttributeValue}
    (h : Row fmt item record) (hattr : attr = "expires_epoch" ∨ attr = "ttl") :
    Row fmt (insertSome item attr value) record := by
  have hget : ∀ other, attr ≠ other →
      (Dynamo.insertSome item attr value)[other]? = item[other]? :=
    fun other hne => by rw [get_insertSome, if_neg hne]
  have hne : ∀ other, "expires_epoch" ≠ other → "ttl" ≠ other → attr ≠ other := by
    rcases hattr with rfl | rfl
    · exact fun _ h _ => h
    · exact fun _ _ h => h
  exact {
    leaseId := (hget _ (hne _ (by decide) (by decide))).trans h.leaseId
    resourceId := (hget _ (hne _ (by decide) (by decide))).trans h.resourceId
    grantedAt := (hget _ (hne _ (by decide) (by decide))).trans h.grantedAt
    expiresAt := (hget _ (hne _ (by decide) (by decide))).trans h.expiresAt
    ttlSeconds := (hget _ (hne _ (by decide) (by decide))).trans h.ttlSeconds }

theorem row_recordToItem (fmt : Rfc3339) (record : LeaseRecord) :
    Row fmt (recordToItem fmt record) record :=
  ((row_baseItem fmt record).insertSome (.inl rfl)).insertSome (.inr rfl)

theorem row_legacyItem (fmt : Rfc3339) (record : LeaseRecord) :
    Row fmt (legacyItem fmt record) record :=
  (row_baseItem fmt record).insertSome (.inr rfl)

theorem current_recordToItem (fmt : Rfc3339) (h : record.expiresAt ≤ maxUtc) :
    Current (recordToItem fmt record) record := by
  refine ⟨h, ?_, ?_⟩ <;> simp [recordToItem, get_insertSome, baseItem]

theorem legacy_legacyItem (fmt : Rfc3339) (record : LeaseRecord) :
    Legacy (legacyItem fmt record) record := by
  constructor <;> simp [legacyItem, get_insertSome, baseItem]

/-! ### Renewal -/

section Renewal

variable {newExpiresAt : Timestamp} {ttlSecs : UInt64}

/-- The record of a row after its renewal. -/
def renewed (record : LeaseRecord) (newExpiresAt : Timestamp)
    (ttlSecs : UInt64) : LeaseRecord :=
  { record with expiresAt := newExpiresAt, ttlSeconds := ttlSecs }

theorem renewUpdate_finite (hfinite : ttlSecs ≠ leaseForever) :
    renewUpdate fmt newExpiresAt ttlSecs =
      { set := [
          ("expires_at", .s (fmt.print newExpiresAt)),
          ("ttl_seconds", .n ttlSecs.toNat),
          ("ttl", .n (saturatingAdd (timestamp newExpiresAt) ttlGraceSecs)),
          ("expires_epoch", .n (timestamp newExpiresAt))]
        remove := [] } := by
  simp only [renewUpdate, ttlEpoch, expiresEpoch, if_neg hfinite, Option.map_some]

theorem renewUpdate_forever :
    renewUpdate fmt newExpiresAt leaseForever =
      { set := [
          ("expires_at", .s (fmt.print newExpiresAt)),
          ("ttl_seconds", .n leaseForever.toNat)]
        remove := ["ttl", "expires_epoch"] } := by
  simp only [renewUpdate, ttlEpoch, expiresEpoch, if_true, Option.map_none]

theorem get_renewUpdate_of_unnamed {attr : String}
    (hattr : attr ∉ ["expires_at", "ttl_seconds", "ttl", "expires_epoch"]) :
    ((renewUpdate fmt newExpiresAt ttlSecs).apply item)[attr]? = item[attr]? := by
  simp only [List.mem_cons, List.not_mem_nil, or_false, not_or, ← Ne.eq_def] at hattr
  obtain ⟨hexpires, hseconds, httl, hepoch⟩ := hattr
  by_cases hforever : ttlSecs = leaseForever
  · subst hforever
    rw [renewUpdate_forever]
    exact Update.get_apply_of_unnamed
      (by simp [hexpires.symm, hseconds.symm]) (by simp [httl, hepoch])
  · rw [renewUpdate_finite hforever]
    exact Update.get_apply_of_unnamed
      (by simp [hexpires.symm, hseconds.symm, httl.symm, hepoch.symm]) (by simp)

theorem get_renewUpdate_of_named {attr : String} {value : AttributeValue}
    (hset : (attr, value) ∈ [("expires_at", .s (fmt.print newExpiresAt)),
      ("ttl_seconds", .n ttlSecs.toNat)]) :
    ((renewUpdate fmt newExpiresAt ttlSecs).apply item)[attr]? = some value := by
  by_cases hforever : ttlSecs = leaseForever
  · subst hforever
    rw [renewUpdate_forever]
    refine Update.get_apply_of_set (by simp) hset ?_
    rcases List.mem_pair.mp hset with heq | heq <;> simp [Prod.mk.inj heq]
  · rw [renewUpdate_finite hforever]
    exact Update.get_apply_of_set (by simp)
      (List.mem_append_left _ hset) (by simp)

/-- Both update expressions write the new expiry and term, and nothing else of
the record. -/
theorem Row.renew (h : Row fmt item record) :
    Row fmt ((renewUpdate fmt newExpiresAt ttlSecs).apply item)
      (renewed record newExpiresAt ttlSecs) where
  leaseId := (get_renewUpdate_of_unnamed (by decide)).trans h.leaseId
  resourceId := (get_renewUpdate_of_unnamed (by decide)).trans h.resourceId
  grantedAt := (get_renewUpdate_of_unnamed (by decide)).trans h.grantedAt
  expiresAt := get_renewUpdate_of_named (by simp [renewed])
  ttlSeconds := get_renewUpdate_of_named (by simp [renewed])

/-- Whatever epochs a row had, a renewal leaves those of the new expiry. -/
theorem current_renew (item : Item) (record : LeaseRecord)
    (h : newExpiresAt ≤ maxUtc) :
    Current ((renewUpdate fmt newExpiresAt ttlSecs).apply item)
      (renewed record newExpiresAt ttlSecs) := by
  by_cases hforever : ttlSecs = leaseForever
  · subst hforever
    rw [renewUpdate_forever]
    refine ⟨h, ?_, ?_⟩ <;> exact Update.get_apply_of_removed (by simp)
  · rw [renewUpdate_finite hforever]
    have hepoch : expiresEpoch newExpiresAt ttlSecs =
        some (timestamp newExpiresAt) := if_neg hforever
    have httl : ttlEpoch newExpiresAt ttlSecs =
        some (saturatingAdd (timestamp newExpiresAt) ttlGraceSecs) := by
      rw [ttlEpoch, hepoch, Option.map_some]
    refine ⟨h, ?_, ?_⟩
    · rw [renewed, hepoch]
      exact Update.get_apply_of_set (by simp) (by simp) (by simp)
    · rw [renewed, httl]
      exact Update.get_apply_of_set (by simp) (by simp) (by simp)

end Renewal

end DynamoLeaseStore

end Coordin8
