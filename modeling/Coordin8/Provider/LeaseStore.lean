import Coordin8.Core.Records

/-!
# The in-memory lease store

`InMemoryLeaseStore` of the local provider.  The time of a call and the
identifier `Uuid::new_v4` draws are arguments.
-/

namespace Coordin8

open Support

structure InMemoryLeaseStore where
  leases : DashMap String LeaseRecord
deriving DecidableEq

/-- An order in which a scan visits the leases. -/
abbrev LeaseIteration := Iteration String LeaseRecord

/-- The expiry of a lease granted at `now`; a lease without end has the last
representable instant. -/
def expiryFor (now : Timestamp) (ttlSecs : UInt64) : Except Error Timestamp :=
  if ttlSecs = leaseForever then
    .ok maxUtc
  else
    match checkedExpiry now ttlSecs with
    | some expiry => .ok expiry
    | none =>
        .error (.storage s!"lease ttl out of range: {toString ttlSecs.toNat}s")

namespace InMemoryLeaseStore

def new : InMemoryLeaseStore where
  leases := ∅

def create (s : InMemoryLeaseStore) (now : Timestamp) (uuid resourceId : String)
    (ttlSecs : UInt64) : Except Error (LeaseRecord × InMemoryLeaseStore) :=
  match expiryFor now ttlSecs with
  | .error e => .error e
  | .ok expiresAt =>
      let record : LeaseRecord := {
        leaseId := uuid
        resourceId := resourceId
        grantedAt := now
        expiresAt := expiresAt
        ttlSeconds := ttlSecs }
      .ok (record, { leases := s.leases.insert uuid record })

def renew (s : InMemoryLeaseStore) (now : Timestamp) (leaseId : String)
    (ttlSecs : UInt64) : Except Error (LeaseRecord × InMemoryLeaseStore) :=
  match expiryFor now ttlSecs with
  | .error e => .error e
  | .ok newExpiry =>
      match s.leases[leaseId]? with
      | none => .error (.leaseNotFound leaseId)
      | some entry =>
          let entry := { entry with
            expiresAt := newExpiry
            ttlSeconds := ttlSecs }
          .ok (entry, { leases := s.leases.insert leaseId entry })

def cancel (s : InMemoryLeaseStore) (leaseId : String) : InMemoryLeaseStore :=
  { leases := s.leases.erase leaseId }

def get (s : InMemoryLeaseStore) (leaseId : String) : Option LeaseRecord :=
  s.leases[leaseId]?

def listExpired (s : InMemoryLeaseStore) (it : LeaseIteration)
    (now : Timestamp) : List LeaseRecord :=
  ((it.entries s.leases).map Prod.snd).filter fun r => r.isExpired now

/-- Remove the lease unless it was renewed, or removed, since `record` was
read. -/
def removeIfUnchanged (s : InMemoryLeaseStore) (record : LeaseRecord) :
    Bool × InMemoryLeaseStore :=
  match s.leases[record.leaseId]? with
  | none => (false, s)
  | some cur =>
      if cur.expiresAt = record.expiresAt then
        (true, { leases := s.leases.erase record.leaseId })
      else
        (false, s)

end InMemoryLeaseStore

end Coordin8
