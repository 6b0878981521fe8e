import Coordin8.Provider.LeaseStore

/-!
# The lease manager

Every service embeds one `LeaseManager` over its own lease store, with a reaper
task and a broadcast of reclaimed leases.  A call of the manager makes several
store calls, and other calls run in between; `LeasePc` says where a call stands
and `LeasePc.advance` makes its next atomic move.  The reaper's sweep is a call
like the others: it may start at any time.
-/

namespace Coordin8

open Support

/-- What the calls of a lease manager share: the clock, the source of UUIDs
(as the list of those drawn so far), the store, and everything sent on
`expiry_tx`, oldest first. -/
structure Landlord where
  now : Timestamp
  uuids : List String
  leases : InMemoryLeaseStore
  sent : List LeaseReclaimed
deriving DecidableEq

namespace Landlord

def new : Landlord where
  now := 0
  uuids := []
  leases := .new
  sent := []

def grant (config : LeaseConfig) (l : Landlord) (uuid resourceId : String)
    (ttlSecs : UInt64) : Except Error (LeaseRecord × Landlord) :=
  match l.leases.create l.now uuid resourceId (config.negotiate ttlSecs) with
  | .error e => .error e
  | .ok (record, leases) =>
      .ok (record, { l with uuids := uuid :: l.uuids, leases := leases })

def send (l : Landlord) (record : LeaseRecord) (reason : ReclaimReason) :
    Landlord :=
  { l with sent := l.sent ++ [{ record := record, reason := reason }] }

end Landlord

/-- Where a call of the lease manager stands. -/
inductive LeasePc where
  | grant (resourceId : String) (ttlSecs : UInt64)
  | renew (leaseId : String) (ttlSecs : UInt64)
  /-- The lease was found alive, the store is asked to renew it. -/
  | renewStore (leaseId : String) (ttlSecs : UInt64)
  | cancel (leaseId : String)
  | cancelStore (leaseId : String) (record : Option LeaseRecord)
  | cancelSend (record : LeaseRecord)
  | drainExpired
  | drainRemove (todo removed : List LeaseRecord)
  | announce (removed : List LeaseRecord)
  | returned (result : Except Error (Option LeaseRecord))
deriving DecidableEq

/-- What the outside decides in a move: nothing, the UUID drawn, or the order
of a scan. -/
inductive LeaseChoice where
  | go
  | uuid (u : String)
  | order (it : LeaseIteration)

namespace LeasePc

/-- The calls a client or the reaper may start. -/
def entry : LeasePc → Bool
  | .grant .. | .renew .. | .cancel _ | .drainExpired => true
  | _ => false

/-- The next move of a call. -/
def advance (config : LeaseConfig) (l : Landlord) :
    LeasePc → LeaseChoice → Option (Landlord × LeasePc)
  | .grant resourceId ttlSecs, .uuid u =>
      if u ∈ l.uuids then
        none
      else
        match l.grant config u resourceId ttlSecs with
        | .error e => some (l, .returned (.error e))
        | .ok (record, l) => some (l, .returned (.ok (some record)))
  | .renew leaseId ttlSecs, .go =>
      match l.leases.get leaseId with
      | none => some (l, .returned (.error (.leaseNotFound leaseId)))
      | some record =>
          if record.isExpired l.now then
            some (l, .returned (.error (.leaseExpired leaseId)))
          else
            some (l, .renewStore leaseId ttlSecs)
  | .renewStore leaseId ttlSecs, .go =>
      match l.leases.renew l.now leaseId (config.negotiate ttlSecs) with
      | .error e => some (l, .returned (.error e))
      | .ok (record, leases) =>
          some ({ l with leases := leases }, .returned (.ok (some record)))
  | .cancel leaseId, .go =>
      some (l, .cancelStore leaseId (l.leases.get leaseId))
  | .cancelStore leaseId record, .go =>
      let l := { l with leases := l.leases.cancel leaseId }
      match record with
      | none => some (l, .returned (.ok none))
      | some record => some (l, .cancelSend record)
  | .cancelSend record, .go =>
      some (l.send record .cancelled, .returned (.ok none))
  | .drainExpired, .order it =>
      some (l, .drainRemove (l.leases.listExpired it l.now) [])
  | .drainRemove [] removed, .go => some (l, .announce removed)
  | .drainRemove (record :: todo) removed, .go =>
      let (gone, leases) := l.leases.removeIfUnchanged record
      some ({ l with leases := leases },
        .drainRemove todo (if gone then removed ++ [record] else removed))
  | .announce [], .go => some (l, .returned (.ok none))
  | .announce (record :: removed), .go =>
      some (l.send record .expired, .announce removed)
  | _, _ => none

end LeasePc

/-! ## The moves of a call -/

/-- What one move of a call of the lease manager can do. -/
inductive LeaseMove (config : LeaseConfig) (l : Landlord) :
    LeasePc → Landlord → LeasePc → Prop where
  | grant {resourceId u : String} {ttlSecs : UInt64} {record : LeaseRecord}
      {l' : Landlord} (hu : u ∉ l.uuids)
      (hgrant : l.grant config u resourceId ttlSecs = .ok (record, l')) :
      LeaseMove config l (.grant resourceId ttlSecs) l'
        (.returned (.ok (some record)))
  | grantFailed {resourceId : String} {ttlSecs : UInt64} {e : Error} :
      LeaseMove config l (.grant resourceId ttlSecs) l (.returned (.error e))
  | renewRefused {leaseId : String} {ttlSecs : UInt64} {e : Error} :
      LeaseMove config l (.renew leaseId ttlSecs) l (.returned (.error e))
  | renewRead {leaseId : String} {ttlSecs : UInt64} {record : LeaseRecord}
      (hget : l.leases.leases[leaseId]? = some record)
      (halive : record.isExpired l.now = false) :
      LeaseMove config l (.renew leaseId ttlSecs) l
        (.renewStore leaseId ttlSecs)
  | renewFailed {leaseId : String} {ttlSecs : UInt64} {e : Error} :
      LeaseMove config l (.renewStore leaseId ttlSecs) l (.returned (.error e))
  | renewed {leaseId : String} {ttlSecs : UInt64} {record : LeaseRecord}
      {expiry : Timestamp}
      (hget : l.leases.leases[leaseId]? = some record)
      (hexpiry : expiryFor l.now (config.negotiate ttlSecs) = .ok expiry) :
      LeaseMove config l (.renewStore leaseId ttlSecs)
        { l with leases := ⟨l.leases.leases.insert leaseId { record with
            expiresAt := expiry
            ttlSeconds := config.negotiate ttlSecs }⟩ }
        (.returned (.ok (some { record with
          expiresAt := expiry
          ttlSeconds := config.negotiate ttlSecs })))
  | cancelRead {leaseId : String} :
      LeaseMove config l (.cancel leaseId) l
        (.cancelStore leaseId l.leases.leases[leaseId]?)
  | cancelled {leaseId : String} {record : LeaseRecord} :
      LeaseMove config l (.cancelStore leaseId (some record))
        { l with leases := ⟨l.leases.leases.erase leaseId⟩ }
        (.cancelSend record)
  | cancelledUnknown {leaseId : String} :
      LeaseMove config l (.cancelStore leaseId none)
        { l with leases := ⟨l.leases.leases.erase leaseId⟩ }
        (.returned (.ok none))
  | cancelSent {record : LeaseRecord} :
      LeaseMove config l (.cancelSend record) (l.send record .cancelled)
        (.returned (.ok none))
  | listed {it : LeaseIteration} :
      LeaseMove config l .drainExpired l
        (.drainRemove (l.leases.listExpired it l.now) [])
  | removed {record cur : LeaseRecord} {todo removed : List LeaseRecord}
      (hget : l.leases.leases[record.leaseId]? = some cur)
      (hsame : cur.expiresAt = record.expiresAt) :
      LeaseMove config l (.drainRemove (record :: todo) removed)
        { l with leases := ⟨l.leases.leases.erase record.leaseId⟩ }
        (.drainRemove todo (removed ++ [record]))
  | kept {record : LeaseRecord} {todo removed : List LeaseRecord}
      (hchanged : ∀ cur, l.leases.leases[record.leaseId]? = some cur →
        cur.expiresAt ≠ record.expiresAt) :
      LeaseMove config l (.drainRemove (record :: todo) removed) l
        (.drainRemove todo removed)
  | drained {removed : List LeaseRecord} :
      LeaseMove config l (.drainRemove [] removed) l (.announce removed)
  | announced {record : LeaseRecord} {removed : List LeaseRecord} :
      LeaseMove config l (.announce (record :: removed))
        (l.send record .expired) (.announce removed)
  | swept : LeaseMove config l (.announce []) l (.returned (.ok none))

variable {config : LeaseConfig} {l l' : Landlord} {pc pc' : LeasePc}

theorem LeaseMove.of_advance {c : LeaseChoice}
    (hmove : pc.advance config l c = some (l', pc')) :
    LeaseMove config l pc l' pc' := by
  unfold LeasePc.advance at hmove
  split at hmove
  · split at hmove
    · cases hmove
    · next hu =>
      split at hmove <;> cases hmove
      · exact .grantFailed
      · next hgrant => exact .grant hu hgrant
  · split at hmove
    · cases hmove
      exact .renewRefused
    · next hget =>
      split at hmove <;> cases hmove
      · exact .renewRefused
      · next halive => exact .renewRead hget (by simpa using halive)
  · next leaseId ttlSecs =>
    unfold InMemoryLeaseStore.renew at hmove
    cases hexpiry : expiryFor l.now (config.negotiate ttlSecs) with
    | error e =>
        simp only [hexpiry] at hmove
        cases hmove
        exact .renewFailed
    | ok expiry =>
        cases hget : l.leases.leases[leaseId]? with
        | none =>
            simp only [hexpiry, hget] at hmove
            cases hmove
            exact .renewFailed
        | some record =>
            simp only [hexpiry, hget] at hmove
            cases hmove
            exact .renewed hget hexpiry
  · cases hmove
    exact .cancelRead
  · next leaseId record =>
    cases record <;> cases hmove
    · exact .cancelledUnknown
    · exact .cancelled
  · cases hmove
    exact .cancelSent
  · cases hmove
    exact .listed
  · cases hmove
    exact .drained
  · next record todo removed =>
    unfold InMemoryLeaseStore.removeIfUnchanged at hmove
    cases hget : l.leases.leases[record.leaseId]? with
    | none =>
        simp only [hget] at hmove
        cases hmove
        exact .kept (by simp [hget])
    | some cur =>
        by_cases hsame : cur.expiresAt = record.expiresAt
        · simp only [hget, hsame, if_true] at hmove
          cases hmove
          exact .removed hget hsame
        · simp only [hget, hsame, if_false] at hmove
          cases hmove
          exact .kept (by simp [hget, hsame])
  · cases hmove
    exact .swept
  · cases hmove
    exact .announced
  · cases hmove

section Grant

variable {u resourceId : String} {ttlSecs : UInt64} {record : LeaseRecord}

theorem Landlord.grant_eq_ok
    (h : l.grant config u resourceId ttlSecs = .ok (record, l')) :
    record.leaseId = u ∧ record.resourceId = resourceId ∧
      l' = { l with
        uuids := u :: l.uuids
        leases := ⟨l.leases.leases.insert u record⟩ } := by
  unfold Landlord.grant InMemoryLeaseStore.create at h
  cases hexpiry : expiryFor l.now (config.negotiate ttlSecs) with
  | error e => simp [hexpiry] at h
  | ok expiry =>
      simp only [hexpiry, Except.ok.injEq, Prod.mk.injEq] at h
      obtain ⟨rfl, rfl⟩ := h
      exact ⟨rfl, rfl, rfl⟩

theorem Landlord.grant_expiry
    (h : l.grant config u resourceId ttlSecs = .ok (record, l')) :
    record.ttlSeconds = config.negotiate ttlSecs ∧
      expiryFor l.now (config.negotiate ttlSecs) = .ok record.expiresAt := by
  unfold Landlord.grant InMemoryLeaseStore.create at h
  cases hexpiry : expiryFor l.now (config.negotiate ttlSecs) with
  | error e => simp [hexpiry] at h
  | ok expiry =>
      simp only [hexpiry, Except.ok.injEq, Prod.mk.injEq] at h
      obtain ⟨rfl, -⟩ := h
      exact ⟨rfl, rfl⟩

end Grant

/-- A cancellation under way. -/
def LeasePc.Cancelling : LeasePc → Prop
  | .cancel _ | .cancelStore .. | .cancelSend _ => True
  | _ => False

theorem LeaseMove.cancelling {config : LeaseConfig} {l l' : Landlord}
    {pc pc' : LeasePc} (hmove : LeaseMove config l pc l' pc')
    (hpc : pc.Cancelling) :
    pc'.Cancelling ∨ ∃ result, pc' = .returned result := by
  cases hmove with
  | cancelRead | cancelled => exact Or.inl trivial
  | cancelledUnknown | cancelSent => exact Or.inr ⟨_, rfl⟩
  | _ => exact False.elim hpc

theorem LeaseMove.uuids_subset (hmove : LeaseMove config l pc l' pc') :
    l.uuids ⊆ l'.uuids := by
  cases hmove with
  | grant _ hgrant =>
      obtain ⟨-, -, rfl⟩ := Landlord.grant_eq_ok hgrant
      exact List.subset_cons_self _ _
  | _ => exact List.Subset.refl _

theorem LeaseMove.now_eq (hmove : LeaseMove config l pc l' pc') :
    l'.now = l.now := by
  cases hmove with
  | grant hu hgrant =>
      obtain ⟨-, -, rfl⟩ := Landlord.grant_eq_ok hgrant
      rfl
  | _ => rfl

end Coordin8
