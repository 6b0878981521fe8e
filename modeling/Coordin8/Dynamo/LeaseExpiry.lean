import Coordin8.Dynamo.LeaseStore
import Mathlib.Data.List.Induction

/-!
# Finding the expired leases

`list_expired` filters the rows by whole seconds, page by page, and then tests
each record.  The filter lets every expired record through: rounding down keeps
the order.  A row changes its shape with every renewal, so that has to be shown
of all the rows that calls may leave behind.

The calls are followed on the table and on the in-memory store at once.  A row
holds the record that the in-memory store holds, and its epochs are those of its
expiry.
-/

namespace Coordin8

open Support Dynamo

namespace DynamoLeaseStore

variable {fmt : Rfc3339} {item : Item} {record : LeaseRecord} {now : Timestamp}

/-! ## The filter -/

theorem timestamp_mono {a b : Int} (h : a ≤ b) : timestamp a ≤ timestamp b :=
  Int.ediv_le_ediv (by decide) h

/-- What the filter says of a row with the epochs written today. -/
theorem Current.filter (h : Current item record) :
    (expiredFilter now).holds item =
      (expiresEpoch record.expiresAt record.ttlSeconds).any
        fun e => e ≤ timestamp now := by
  simp only [expiredFilter, Filter.holds, h.epoch, h.ttl, ttlEpoch]
  cases expiresEpoch record.expiresAt record.ttlSeconds with
  | none => rfl
  | some e => simp [AttributeValue.asN]

/-- The same of a row from before `expires_epoch`, by its `ttl`. -/
theorem Legacy.filter (h : Legacy item record) :
    (expiredFilter now).holds item =
      (expiresEpoch record.expiresAt record.ttlSeconds).any
        fun e => e ≤ timestamp now := by
  simp only [expiredFilter, Filter.holds, h.noEpoch, h.ttl]
  cases expiresEpoch record.expiresAt record.ttlSeconds with
  | none => rfl
  | some e => simp [AttributeValue.asN]

/-! ## `ttl` -/

theorem le_saturatingAdd {e : Int} (h : e ≤ timestamp maxUtc) :
    e + ttlGraceSecs ≤ saturatingAdd e ttlGraceSecs := by
  have hmax : timestamp maxUtc = 8210266876799 := by decide
  unfold saturatingAdd ttlGraceSecs
  omega

theorem lt_of_timestamp_add_le {time ttl : Int}
    (h : timestamp time + 3600 ≤ ttl) : time + 3599 * second < ttl * second := by
  have hmod := Int.emod_lt_of_pos time (show 0 < second by decide)
  have hdiv := Int.mul_ediv_add_emod time second
  unfold timestamp at h
  unfold second at h hmod hdiv ⊢
  omega

theorem Current.exists_ttl (h : Current item record)
    (hfinite : record.ttlSeconds ≠ leaseForever) :
    ∃ ttl, item["ttl"]? = some (.n ttl) ∧
      timestamp record.expiresAt + ttlGraceSecs ≤ ttl := by
  refine ⟨_, ?_, le_saturatingAdd (timestamp_mono h.inCalendar)⟩
  rw [h.ttl, ttlEpoch, expiresEpoch, if_neg hfinite]
  rfl

end DynamoLeaseStore

/-! ## The calls -/

/-- The requests that change the table.  A renewal is seen at its second
request; `existing` is what its first request has read, at whatever time. -/
inductive LeaseWrite where
  | create (now : Timestamp) (uuid resourceId : String) (ttlSecs : UInt64)
  | renew (existing : LeaseRecord) (now : Timestamp) (leaseId : String)
      (ttlSecs : UInt64)
  | cancel (leaseId : String)
  | removeIfUnchanged (record : LeaseRecord)

namespace LeaseWrite

/-- The request writes the row of the lease, if it finds it. -/
def Writes (leaseId : String) : LeaseWrite → Prop
  | .create now uuid _ ttlSecs =>
      uuid = leaseId ∧ ∃ expiry, expiryFor now ttlSecs = .ok expiry
  | .renew _ now id ttlSecs =>
      id = leaseId ∧ ∃ expiry, expiryFor now ttlSecs = .ok expiry
  | .cancel _ | .removeIfUnchanged _ => False

/-- The table after a request; one that fails changes nothing. -/
def onTable (fmt : Rfc3339) (s : DynamoLeaseStore) :
    LeaseWrite → DynamoLeaseStore
  | .create now uuid resourceId ttlSecs =>
      match s.create fmt now uuid resourceId ttlSecs with
      | .ok (_, s') => s'
      | .error _ => s
  | .renew existing now leaseId ttlSecs =>
      match s.renewWrite fmt existing now leaseId ttlSecs with
      | .ok (_, s') => s'
      | .error _ => s
  | .cancel leaseId => s.cancel leaseId
  | .removeIfUnchanged record => (s.removeIfUnchanged fmt record).2

/-- The same call on the in-memory store. -/
def onMemory (t : InMemoryLeaseStore) : LeaseWrite → InMemoryLeaseStore
  | .create now uuid resourceId ttlSecs =>
      match t.create now uuid resourceId ttlSecs with
      | .ok (_, t') => t'
      | .error _ => t
  | .renew _ now leaseId ttlSecs =>
      match t.renew now leaseId ttlSecs with
      | .ok (_, t') => t'
      | .error _ => t
  | .cancel leaseId => t.cancel leaseId
  | .removeIfUnchanged record => (t.removeIfUnchanged record).2

end LeaseWrite

namespace DynamoLeaseStore

/-- The rows that an older version has left behind. -/
def ofLegacy (fmt : Rfc3339) (legacy : List LeaseRecord) : DynamoLeaseStore :=
  legacy.foldl (fun s record => s.put (legacyItem fmt record)) Tables.empty

/-- The table after the requests. -/
def after (fmt : Rfc3339) (legacy : List LeaseRecord)
    (writes : List LeaseWrite) : DynamoLeaseStore :=
  writes.foldl (LeaseWrite.onTable fmt) (ofLegacy fmt legacy)

/-- The in-memory store with the same leases, after the same calls. -/
def memoryAfter (legacy : List LeaseRecord) (writes : List LeaseWrite) :
    InMemoryLeaseStore :=
  writes.foldl LeaseWrite.onMemory
    ⟨DashMap.insertAll LeaseRecord.leaseId id ∅ legacy⟩

/-- A row for the record, as the requests so far may have left it: with the
epochs of today, or as it was found if no request has written it. -/
structure Kept (fmt : Rfc3339) (done : List LeaseWrite) (leaseId : String)
    (item : Item) (record : LeaseRecord) : Prop where
  row : Row fmt item record
  epochs : Current item record ∨
    Legacy item record ∧ ∀ w ∈ done, ¬ w.Writes leaseId

/-- The table and the in-memory store hold the same leases. -/
def Agree (fmt : Rfc3339) (done : List LeaseWrite) (s : DynamoLeaseStore)
    (t : InMemoryLeaseStore) : Prop :=
  ∀ leaseId, Option.Rel (Kept fmt done leaseId) (s.row leaseId)
    (t.leases[leaseId]?)

theorem le_maxUtc_of_expiryFor {now expiry : Timestamp} {ttlSecs : UInt64}
    (h : expiryFor now ttlSecs = .ok expiry) : expiry ≤ maxUtc := by
  unfold expiryFor at h
  split at h
  · exact (Except.ok.inj h).symm.le
  · split at h
    · next e hchecked =>
      obtain rfl := Except.ok.inj h
      unfold checkedExpiry at hchecked
      dsimp only at hchecked
      split at hchecked
      · split at hchecked
        · next hle => exact Option.some.inj hchecked ▸ hle
        · cases hchecked
      · cases hchecked
    · cases h

namespace Agree

variable {fmt : Rfc3339} {done : List LeaseWrite} {w : LeaseWrite}
  {s : DynamoLeaseStore} {t : InMemoryLeaseStore} {leaseId : String}

theorem kept_snoc {item : Item} {record : LeaseRecord}
    (h : Kept fmt done leaseId item record) (hw : ¬ w.Writes leaseId) :
    Kept fmt (done ++ [w]) leaseId item record where
  row := h.row
  epochs := h.epochs.imp_right fun ⟨hlegacy, hdone⟩ =>
    ⟨hlegacy, fun w' hw' => by
      rcases List.mem_append.mp hw' with hw' | hw'
      · exact hdone w' hw'
      · exact List.mem_singleton.mp hw' ▸ hw⟩

theorem rel_snoc (h : Agree fmt done s t)
    (hw : s.row leaseId ≠ none → ¬ w.Writes leaseId) :
    Option.Rel (Kept fmt (done ++ [w]) leaseId) (s.row leaseId)
      (t.leases[leaseId]?) := by
  have hrel := h leaseId
  generalize s.row leaseId = row at hrel hw ⊢
  generalize t.leases[leaseId]? = lease at hrel ⊢
  cases hrel with
  | none => exact .none
  | some hkept => exact .some (kept_snoc hkept (hw (by simp)))

theorem same (h : Agree fmt done s t)
    (hw : ∀ id, s.row id ≠ none → ¬ w.Writes id) :
    Agree fmt (done ++ [w]) s t :=
  fun id => h.rel_snoc (hw id)

theorem put {item : Item} {record : LeaseRecord}
    (hkey : item["lease_id"]? = some (.s leaseId))
    (hkept : Kept fmt done leaseId item record)
    (h : ∀ id, leaseId ≠ id →
      Option.Rel (Kept fmt done id) (s.row id) (t.leases[id]?)) :
    Agree fmt done (s.put item) ⟨t.leases.insert leaseId record⟩ := by
  intro id
  rw [row_put hkey, DashMap.get_insert]
  split
  · next heq => exact .some (heq ▸ hkept)
  · next hne => exact h id hne

theorem write {item : Item} {record : LeaseRecord} (h : Agree fmt done s t)
    (hkey : item["lease_id"]? = some (.s leaseId))
    (hw : ∀ id, leaseId ≠ id → ¬ w.Writes id)
    (hrow : Row fmt item record) (hcurrent : Current item record) :
    Agree fmt (done ++ [w]) (s.put item) ⟨t.leases.insert leaseId record⟩ :=
  put hkey ⟨hrow, .inl hcurrent⟩ fun id hne => h.rel_snoc fun _ => hw id hne

theorem delete (h : Agree fmt done s t) (hw : ∀ id, ¬ w.Writes id)
    (leaseId : String) :
    Agree fmt (done ++ [w]) (s.delete leaseId) ⟨t.leases.erase leaseId⟩ := by
  intro id
  rw [row_delete, DashMap.get_erase]
  split
  · exact .none
  · exact h.rel_snoc fun _ => hw id

theorem create (h : Agree fmt done s t) (now : Timestamp)
    (uuid resourceId : String) (ttlSecs : UInt64) :
    Agree fmt (done ++ [.create now uuid resourceId ttlSecs])
      (LeaseWrite.onTable fmt s (.create now uuid resourceId ttlSecs))
      (LeaseWrite.onMemory t (.create now uuid resourceId ttlSecs)) := by
  cases hexpiry : expiryFor now ttlSecs with
  | error e =>
      simp only [LeaseWrite.onTable, LeaseWrite.onMemory, DynamoLeaseStore.create,
        InMemoryLeaseStore.create, hexpiry, bind, Except.bind]
      refine h.same ?_
      rintro id - ⟨-, expiry, hok⟩
      rw [hexpiry] at hok
      cases hok
  | ok expiry =>
      simp only [LeaseWrite.onTable, LeaseWrite.onMemory, DynamoLeaseStore.create,
        InMemoryLeaseStore.create, hexpiry, bind, Except.bind, pure, Except.pure]
      have hrow := row_recordToItem fmt ⟨uuid, resourceId, now, expiry, ttlSecs⟩
      exact h.write hrow.leaseId (fun id hne hw => hne hw.1) hrow
        (current_recordToItem fmt (le_maxUtc_of_expiryFor hexpiry))

theorem renew (h : Agree fmt done s t) (existing : LeaseRecord)
    (now : Timestamp) (leaseId : String) (ttlSecs : UInt64) :
    Agree fmt (done ++ [.renew existing now leaseId ttlSecs])
      (LeaseWrite.onTable fmt s (.renew existing now leaseId ttlSecs))
      (LeaseWrite.onMemory t (.renew existing now leaseId ttlSecs)) := by
  cases hexpiry : expiryFor now ttlSecs with
  | error e =>
      simp only [LeaseWrite.onTable, LeaseWrite.onMemory, renewWrite,
        InMemoryLeaseStore.renew, hexpiry, bind, Except.bind]
      refine h.same ?_
      rintro id - ⟨-, expiry, hok⟩
      rw [hexpiry] at hok
      cases hok
  | ok expiry =>
      have hrel := h leaseId
      simp only [LeaseWrite.onTable, LeaseWrite.onMemory, renewWrite,
        InMemoryLeaseStore.renew, hexpiry, bind, Except.bind]
      cases hitem : s.row leaseId with
      | none =>
          rw [hitem] at hrel
          cases hlease : t.leases[leaseId]? with
          | none =>
              -- the row was removed after it was read
              refine h.same ?_
              rintro id hsome ⟨rfl, -⟩
              exact hsome hitem
          | some record =>
              rw [hlease] at hrel
              cases hrel
      | some item =>
          rw [hitem] at hrel
          cases hlease : t.leases[leaseId]? with
          | none =>
              rw [hlease] at hrel
              cases hrel
          | some record =>
              rw [hlease] at hrel
              cases hrel with
              | some hkept =>
                  refine h.write ?_ (fun id hne hw => hne hw.1) hkept.row.renew
                    (current_renew item record (le_maxUtc_of_expiryFor hexpiry))
                  exact (get_renewUpdate_of_unnamed (by decide)).trans
                    (leaseId_of_row hitem)

theorem print_inj {a b : Timestamp} : fmt.print a = fmt.print b ↔ a = b := by
  refine ⟨fun h => ?_, fun h => h ▸ rfl⟩
  have hparse := congrArg fmt.parse h
  rw [fmt.parse_print, fmt.parse_print] at hparse
  exact Except.ok.inj hparse

theorem removeIfUnchanged (h : Agree fmt done s t) (record : LeaseRecord) :
    Agree fmt (done ++ [.removeIfUnchanged record])
      (LeaseWrite.onTable fmt s (.removeIfUnchanged record))
      (LeaseWrite.onMemory t (.removeIfUnchanged record)) := by
  have hsame : Agree fmt (done ++ [.removeIfUnchanged record]) s t :=
    h.same fun _ _ hw => hw
  have hrel := h record.leaseId
  simp only [LeaseWrite.onTable, LeaseWrite.onMemory,
    DynamoLeaseStore.removeIfUnchanged, InMemoryLeaseStore.removeIfUnchanged]
  cases hlease : t.leases[record.leaseId]? with
  | none =>
      rw [hlease] at hrel
      cases hitem : s.row record.leaseId with
      | none => simpa using hsame
      | some item =>
          rw [hitem] at hrel
          cases hrel
  | some cur =>
      rw [hlease] at hrel
      cases hitem : s.row record.leaseId with
      | none =>
          rw [hitem] at hrel
          cases hrel
      | some item =>
          rw [hitem] at hrel
          cases hrel with
          | some hkept =>
              have htext : item.text "expires_at" =
                  some (fmt.print cur.expiresAt) := by
                rw [Item.text, hkept.row.expiresAt]
                rfl
              simp only [Option.bind_some, htext, Option.some.injEq, print_inj]
              split
              · exact h.delete (w := .removeIfUnchanged record)
                  (fun _ hw => hw) record.leaseId
              · exact hsame

/-- Every request keeps the table and the in-memory store together. -/
theorem step (h : Agree fmt done s t) (w : LeaseWrite) :
    Agree fmt (done ++ [w]) (w.onTable fmt s) (w.onMemory t) := by
  cases w with
  | create now uuid resourceId ttlSecs =>
      exact h.create now uuid resourceId ttlSecs
  | renew existing now leaseId ttlSecs =>
      exact h.renew existing now leaseId ttlSecs
  | cancel leaseId =>
      exact h.delete (w := .cancel leaseId) (fun _ hw => hw) leaseId
  | removeIfUnchanged record => exact h.removeIfUnchanged record

theorem ofLegacy (fmt : Rfc3339) (legacy : List LeaseRecord) :
    Agree fmt [] (ofLegacy fmt legacy) (memoryAfter legacy []) := by
  induction legacy using List.reverseRecOn with
  | nil => exact fun id => .none
  | append_singleton legacy record ih =>
      simp only [DynamoLeaseStore.ofLegacy, memoryAfter, DashMap.insertAll,
        List.foldl_concat, List.foldl_nil]
      have hrow := row_legacyItem fmt record
      exact put hrow.leaseId
        ⟨hrow, .inr ⟨legacy_legacyItem fmt record, by simp⟩⟩ fun id _ => ih id

theorem after (fmt : Rfc3339) (legacy : List LeaseRecord)
    (writes : List LeaseWrite) :
    Agree fmt writes (after fmt legacy writes) (memoryAfter legacy writes) := by
  induction writes using List.reverseRecOn with
  | nil => exact ofLegacy fmt legacy
  | append_singleton writes w ih =>
      rw [DynamoLeaseStore.after, memoryAfter, List.foldl_concat,
        List.foldl_concat]
      exact ih.step w

end Agree

variable {fmt : Rfc3339} {leaseId : String} {done : List LeaseWrite}
  {item : Item} {record : LeaseRecord}

theorem Kept.filter (h : Kept fmt done leaseId item record) (now : Timestamp) :
    (expiredFilter now).holds item =
      (expiresEpoch record.expiresAt record.ttlSeconds).any
        fun e => e ≤ timestamp now := by
  rcases h.epochs with hcurrent | ⟨hlegacy, -⟩
  · exact hcurrent.filter
  · exact hlegacy.filter

/-- Once the record passes its test, the filter only compares whole seconds. -/
theorem Kept.filter_iff {time : Timestamp}
    (h : Kept fmt done leaseId item record)
    (hexpired : record.isExpired time = true) (now : Timestamp) :
    (expiredFilter now).holds item = true ↔
      timestamp record.expiresAt ≤ timestamp now := by
  have hfinite : record.ttlSeconds ≠ leaseForever := by
    intro hforever
    simp [LeaseRecord.isExpired, hforever] at hexpired
  rw [h.filter now, expiresEpoch, if_neg hfinite]
  simp

theorem Kept.forever (h : Kept fmt done leaseId item record)
    (hforever : record.ttlSeconds = leaseForever) :
    item["expires_epoch"]? = none ∧ item["ttl"]? = none := by
  have hnone : expiresEpoch record.expiresAt record.ttlSeconds = none :=
    if_pos hforever
  rcases h.epochs with hcurrent | ⟨hlegacy, -⟩
  · refine ⟨?_, ?_⟩
    · rw [hcurrent.epoch, hnone]
      rfl
    · rw [hcurrent.ttl, ttlEpoch, hnone]
      rfl
  · refine ⟨hlegacy.noEpoch, ?_⟩
    rw [hlegacy.ttl, hnone]
    rfl

/-- The `ttl` of a row that was written since: an hour after the whole seconds
of the expiry, and so more than `3599` seconds after the expiry. -/
theorem Kept.exists_ttl {w : LeaseWrite} (h : Kept fmt done leaseId item record)
    (hmem : w ∈ done) (hw : w.Writes leaseId)
    (hfinite : record.ttlSeconds ≠ leaseForever) :
    ∃ ttl, item["ttl"]? = some (.n ttl) ∧
      timestamp record.expiresAt + 3600 ≤ ttl ∧
      record.expiresAt + 3599 * second < ttl * second := by
  rcases h.epochs with hcurrent | ⟨-, hdone⟩
  · obtain ⟨ttl, hget, hle⟩ := hcurrent.exists_ttl hfinite
    exact ⟨ttl, hget, hle, lt_of_timestamp_add_le hle⟩
  · exact absurd hw (hdone w hmem)

/-! ## `list_expired` -/

theorem exists_kept (legacy : List LeaseRecord) (writes : List LeaseWrite)
    (h : (after fmt legacy writes).row leaseId = some item) :
    ∃ record, (memoryAfter legacy writes).leases[leaseId]? = some record ∧
      Kept fmt writes leaseId item record := by
  have hrel := Agree.after fmt legacy writes leaseId
  rw [h] at hrel
  cases hlease : (memoryAfter legacy writes).leases[leaseId]? with
  | none =>
      rw [hlease] at hrel
      cases hrel
  | some record =>
      rw [hlease] at hrel
      cases hrel with
      | some hkept => exact ⟨record, rfl, hkept⟩

section Scan

variable (fmt : Rfc3339) (legacy : List LeaseRecord) (writes : List LeaseWrite)
  (order : LeaseTable → Listing (Key String) Item) (now : Timestamp)

end Scan

/-- Whatever calls were made on the table, a row is read by `renew` as the lease
that the in-memory store holds, and it passes the filter of `list_expired` and
the test of its record exactly when the lease is not without end and its expiry
has come.  The row of a lease without end has neither epoch.
A row written by `create` or `renew` has a `ttl` at least an hour after its
expiry in whole seconds, and so more than `3599` seconds after the expiry. -/
theorem row_listed_iff_expired (fmt : Rfc3339) (legacy : List LeaseRecord)
    (writes : List LeaseWrite) (leaseId : String) (item : Item)
    (hrow : (after fmt legacy writes).row leaseId = some item) :
    ∃ record, (memoryAfter legacy writes).leases[leaseId]? = some record ∧
      recordFromItem fmt item = .ok record ∧
      (after fmt legacy writes).renewRead fmt leaseId = .ok record ∧
      (∀ now, (expiredFilter now).holds item = true ∧
          record.isExpired now = true ↔
        record.ttlSeconds ≠ leaseForever ∧ record.expiresAt ≤ now) ∧
      (record.ttlSeconds = leaseForever →
        item["expires_epoch"]? = none ∧ item["ttl"]? = none) ∧
      ((∃ w ∈ writes, w.Writes leaseId) → record.ttlSeconds ≠ leaseForever →
        ∃ ttl, item["ttl"]? = some (.n ttl) ∧
          timestamp record.expiresAt + 3600 ≤ ttl ∧
          record.expiresAt + 3599 * second < ttl * second) := by
  obtain ⟨record, hlease, hkept⟩ := exists_kept legacy writes hrow
  have hplain : ∀ now, record.isExpired now = true ↔
      record.ttlSeconds ≠ leaseForever ∧ record.expiresAt ≤ now := by
    intro now
    unfold LeaseRecord.isExpired
    split
    · next hforever => simp [hforever]
    · next hfinite => simp [hfinite]
  refine ⟨record, hlease, hkept.row.read, ?_, ?_, hkept.forever, ?_⟩
  · simp only [renewRead, get, hrow, hkept.row.read]
    rfl
  · intro now
    rw [← hplain now]
    refine ⟨And.right, fun h => ⟨(hkept.filter_iff h now).mpr ?_, h⟩⟩
    exact timestamp_mono ((hplain now).mp h).2
  · rintro ⟨w, hmem, hw⟩ hfinite
    exact hkept.exists_ttl hmem hw hfinite

/-- A lease of one minute, granted half a second after the epoch. -/
def minuteLease : LeaseRecord where
  leaseId := "l"
  resourceId := "r"
  grantedAt := 500000000
  expiresAt := 60500000000
  ttlSeconds := 60

theorem row_minuteLease :
    (after epochFormat [] [.create 500000000 "l" "r" 60]).row "l" =
      some (recordToItem epochFormat minuteLease) := by
  have hexpiry : expiryFor 500000000 60 = .ok 60500000000 := by decide
  simp only [after, List.foldl_cons, List.foldl_nil, LeaseWrite.onTable, create,
    hexpiry, bind, Except.bind, pure, Except.pure]
  exact row_put (row_recordToItem epochFormat minuteLease).leaseId "l"

/-- A row of that lease from before `expires_epoch`, renewed half a minute
later. -/
def renewedRow : Item :=
  (renewUpdate epochFormat 90500000000 60).apply
    (legacyItem epochFormat minuteLease)

theorem row_renewedRow :
    (after epochFormat [minuteLease] [.renew minuteLease 30500000000 "l" 60]).row
      "l" = some renewedRow := by
  have hexpiry : expiryFor 30500000000 60 = .ok 90500000000 := by decide
  have hrow := row_legacyItem epochFormat minuteLease
  have hput : (put Tables.empty (legacyItem epochFormat minuteLease)).row "l" =
      some (legacyItem epochFormat minuteLease) := row_put hrow.leaseId "l"
  simp only [after, ofLegacy, List.foldl_cons, List.foldl_nil,
    LeaseWrite.onTable, renewWrite, hexpiry, bind, Except.bind, hput, pure,
    Except.pure]
  exact row_put hrow.renew.leaseId "l"

/-- The renewed row is found once the new minute is over. -/
theorem row_listed_iff_expired_renewed :
    ∃ record, recordFromItem epochFormat renewedRow = .ok record ∧
      (∀ now, (expiredFilter now).holds renewedRow = true ∧
          record.isExpired now = true ↔
        record.ttlSeconds ≠ leaseForever ∧ record.expiresAt ≤ now) := by
  obtain ⟨record, -, hread, -, hlisted, -⟩ := row_listed_iff_expired epochFormat
    [minuteLease] [.renew minuteLease 30500000000 "l" 60] "l" _ row_renewedRow
  exact ⟨record, hread, hlisted⟩

/-- Its `ttl` comes half a second before an hour has passed since its expiry. -/
theorem ttl_before_grace :
    ∃ item, (after epochFormat [] [.create 500000000 "l" "r" 60]).row "l" =
        some item ∧
      recordFromItem epochFormat item = .ok minuteLease ∧
      item["ttl"]? = some (.n 3660) ∧
      3660 * second < minuteLease.expiresAt + 3600 * second := by
  refine ⟨_, row_minuteLease, (row_recordToItem epochFormat minuteLease).read,
    ?_, by decide⟩
  rw [(current_recordToItem epochFormat (by decide)).ttl]
  rfl

end DynamoLeaseStore

end Coordin8
