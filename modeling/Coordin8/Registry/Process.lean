import Coordin8.Lease.Manager
import Coordin8.Registry.Service
import Coordin8.Support.Pool

/-!
# The Registry as a process

The operations of the Registry service as calls that interleave: a step is one
call to the index, one move of the lease manager, or one broadcast.  The process
has the Registry's own lease manager with `LeaseService` and the reaper, and the
cascade, which starts a handler for every lease that is reclaimed.

A call reads an entry in one step and writes it back in a later one.
`RegistryPc` says where a call stands and what it has read.
-/

namespace Coordin8

open Support

/-- What a call returns when it succeeds. -/
inductive RegistryReply where
  | unit
  | registered (response : RegisterResponse)
  | capability (c : Capability)
  | capabilities (cs : List Capability)
deriving DecidableEq

abbrev RegistryAnswer := Except Status RegistryReply

/-- Where a call stands. -/
inductive RegistryPc where
  | register (r : RegisterRequest)
  | insert (entry : RegistryEntry) (lease : LeaseRecord)
  /-- The owner is known, the lease of the entry is renewed. -/
  | renew (r : RegisterRequest) (existing : RegistryEntry) (pc : LeasePc)
  | updateEntry (r : RegisterRequest) (existing : RegistryEntry)
      (lease : LeaseRecord)
  | modifyAttrs (r : ModifyAttrsRequest)
  | updateAttrs (r : ModifyAttrsRequest) (existing : RegistryEntry)
  | send (event : RegistryChangedEvent) (reply : RegistryReply)
  | lookup (template : Attrs)
  | lookupAll (template : Attrs)
  | watch (template : Attrs)
  /-- A watch at the position `cursor`, and what it has delivered. -/
  | watching (template : Attrs) (cursor : Nat)
      (delivered : List (Except Status RegistryEvent))
  /-- The handler of a reclaimed lease. -/
  | unregister (leaseId : String)
  /-- A call of `LeaseService`, or a sweep of the reaper. -/
  | lease (pc : LeasePc)
  | returned (answer : RegistryAnswer)
deriving DecidableEq

/-- What the outside decides in a move. -/
inductive RegistryChoice where
  | go
  /-- The identifiers drawn for a capability and for its lease. -/
  | uuids (capabilityId leaseId : String)
  | order (it : RegistryIteration)
  | lease (c : LeaseChoice)

/-- What happened in the process: the identifiers a registration drew, the
update of a call, with whether the capability is in the store right after it,
and what a call broadcast. -/
inductive RegistryLog where
  | drawn (task : Nat) (capabilityId leaseId : String)
  | updated (task : Nat) (capabilityId : String) (present : Bool)
  | sent (task : Nat) (event : RegistryChangedEvent)
deriving DecidableEq

structure RegistryConfig where
  lease : LeaseConfig
  /-- Capacity of the broadcast of reclaimed leases. -/
  capacity : Nat

/-- What the calls share.  `sent` holds everything broadcast, `cursor` is the
position of the cascade in the broadcast of reclaimed leases. -/
structure RegistryShared where
  store : InMemoryRegistryStore
  landlord : Landlord
  sent : List RegistryChangedEvent
  cursor : Nat
deriving DecidableEq

def RegistryShared.new : RegistryShared where
  store := .new
  landlord := .new
  sent := []
  cursor := 0

/-- A re-registration that changes more than the lease. -/
def RegisterRequest.changes (r : RegisterRequest) (existing : RegistryEntry) :
    Bool :=
  let entry := RegistryHost.reregistered r existing
  existing.interface != entry.interface || existing.attrs != entry.attrs ||
    !transportEq existing.transport entry.transport

namespace RegistryPc

/-! ## Moves -/

/-- A move that leaves the shared state as it is. -/
def stay (h : RegistryShared) (pc : RegistryPc) :
    Option (RegistryShared × RegistryPc × List RegistryLog) :=
  some (h, pc, [])

/-- `get` and the ownership check. -/
def claim (h : RegistryShared) (capabilityId leaseId : String)
    (owned : RegistryEntry → RegistryPc) :
    Option (RegistryShared × RegistryPc × List RegistryLog) :=
  match h.store.get capabilityId with
  | none => stay h (.returned (.error (capabilityNotFound capabilityId)))
  | some existing =>
      match checkOwner existing leaseId with
      | .error status => stay h (.returned (.error status))
      | .ok () => stay h (owned existing)

/-- `index.update`, whose result is not looked at. -/
def update (task : Nat) (h : RegistryShared) (entry : RegistryEntry)
    (reply : RegistryReply) :
    Option (RegistryShared × RegistryPc × List RegistryLog) :=
  let store := (h.store.update entry).2
  some ({ h with store := store }, .send ⟨.modified, entry⟩ reply,
    [.updated task entry.capabilityId
      (store.entries.contains entry.capabilityId)])

/-- What a re-registration does with the answer to its renewal. -/
def afterRenew (r : RegisterRequest) (existing : RegistryEntry) :
    LeasePc → Option RegistryPc
  | .returned (.error e) =>
      some (.returned (.error ⟨.failedPrecondition, e.display⟩))
  | .returned (.ok (some renewed)) =>
      if r.changes existing then
        some (.updateEntry r existing renewed)
      else
        some (.returned (.ok (.registered ⟨r.capabilityId, some renewed⟩)))
  | .returned (.ok none) => none
  | pc => some (.renew r existing pc)

/-- The next move of a call that depends on nothing outside. -/
def go (task : Nat) (h : RegistryShared) :
    RegistryPc → Option (RegistryShared × RegistryPc × List RegistryLog)
  | .register r =>
      if r.capabilityId ≠ "" then
        claim h r.capabilityId r.leaseId fun existing =>
          .renew r existing (.renew existing.leaseId r.ttlSeconds)
      else
        none
  | .insert entry granted =>
      stay { h with store := h.store.insert entry }
        (.send ⟨.registered, entry⟩
          (.registered ⟨entry.capabilityId, some granted⟩))
  | .updateEntry r existing renewed =>
      update task h (RegistryHost.reregistered r existing)
        (.registered ⟨r.capabilityId, some renewed⟩)
  | .modifyAttrs r =>
      claim h r.capabilityId r.leaseId (.updateAttrs r)
  | .updateAttrs r existing =>
      let entry := RegistryHost.modified r existing
      update task h entry (.capability (entryToCapability entry))
  | .send event reply =>
      some ({ h with sent := h.sent ++ [event] }, .returned (.ok reply),
        [.sent task event])
  | .watch template => stay h (.watching template h.sent.length [])
  | .watching template cursor delivered =>
      match recv registryCapacity h.sent cursor with
      | none => none
      | some (item, cursor) =>
          stay h (.watching template cursor
            (delivered ++ (watchFilter template item).toList))
  | .unregister leaseId =>
      let (removed, store) := h.store.removeByLease leaseId
      stay { h with store := store }
        (match removed with
          | some entry => .send ⟨.expired, entry⟩ .unit
          | none => .returned (.ok .unit))
  | _ => none

/-- A new registration draws its identifiers and is granted its lease. -/
def draw (config : RegistryConfig) (task : Nat) (h : RegistryShared)
    (capabilityId leaseId : String) :
    RegistryPc → Option (RegistryShared × RegistryPc × List RegistryLog)
  | .register r =>
      if r.capabilityId ≠ "" ∨ capabilityId ∈ h.landlord.uuids ∨
          leaseId ∈ capabilityId :: h.landlord.uuids then
        none
      else
        let landlord :=
          { h.landlord with uuids := capabilityId :: h.landlord.uuids }
        match landlord.grant config.lease leaseId ("registry:" ++ capabilityId)
            r.ttlSeconds with
        | .error e =>
            stay { h with landlord := landlord }
              (.returned (.error ⟨.internal, e.display⟩))
        | .ok (granted, landlord) =>
            let entry : RegistryEntry := {
              capabilityId := capabilityId
              leaseId := granted.leaseId
              interface := r.interface
              attrs := r.attrs
              transport := r.transport }
            some ({ h with landlord := landlord }, .insert entry granted,
              [.drawn task capabilityId leaseId])
  | _ => none

/-- A move that lists the entries. -/
def scan (h : RegistryShared) (it : RegistryIteration) :
    RegistryPc → Option (RegistryShared × RegistryPc × List RegistryLog)
  | .lookup template =>
      stay h (.returned ((RegistryHost.lookup ⟨h.store, h.sent⟩ it template).map
        .capability))
  | .lookupAll template =>
      stay h (.returned (.ok (.capabilities
        (RegistryHost.lookupAll ⟨h.store, h.sent⟩ it template))))
  | _ => none

/-- A move of the lease manager, inside a re-registration or for a client. -/
def leaseStep (config : RegistryConfig) (h : RegistryShared) (c : LeaseChoice) :
    RegistryPc → Option (RegistryShared × RegistryPc × List RegistryLog)
  | .renew r existing pc =>
      match pc.advance config.lease h.landlord c with
      | none => none
      | some (landlord, pc) =>
          (afterRenew r existing pc).bind (stay { h with landlord := landlord })
  | .lease pc =>
      match pc.advance config.lease h.landlord c with
      | none => none
      | some (landlord, pc) => stay { h with landlord := landlord } (.lease pc)
  | _ => none

/-- The next move of a call. -/
def advance (config : RegistryConfig) (task : Nat) (h : RegistryShared)
    (pc : RegistryPc) :
    RegistryChoice → Option (RegistryShared × RegistryPc × List RegistryLog)
  | .go => pc.go task h
  | .uuids capabilityId leaseId => pc.draw config task h capabilityId leaseId
  | .order it => pc.scan h it
  | .lease c => leaseStep config h c pc

/-- The calls a client or the reaper may start. -/
def entry : RegistryPc → Bool
  | .register _ | .modifyAttrs _ | .lookup _ | .lookupAll _ | .watch _ => true
  | .lease pc => pc.entry
  | _ => false

end RegistryPc

/-! ## The process -/

/-- The clock moves, or the cascade takes the next reclaimed lease. -/
inductive RegistryAmbient where
  | tick (nanoseconds : Nat)
  | cascade
deriving DecidableEq, Repr

def RegistryShared.ambient (config : RegistryConfig) (h : RegistryShared) :
    RegistryAmbient → Option (RegistryShared × List RegistryPc)
  | .tick d =>
      some ({ h with landlord := { h.landlord with
        now := h.landlord.now + d } }, [])
  | .cascade =>
      match recv config.capacity h.landlord.sent h.cursor with
      | none => none
      | some (.lagged _, cursor) => some ({ h with cursor := cursor }, [])
      | some (.message e, cursor) =>
          some ({ h with cursor := cursor }, [.unregister e.record.leaseId])

abbrev RegistryAct := PoolAct RegistryPc RegistryChoice RegistryAmbient

abbrev RegistryProc := Pool RegistryShared RegistryPc RegistryLog

/-- The Registry's process. -/
def registryProgram (config : RegistryConfig) :
    Program RegistryShared RegistryPc RegistryLog RegistryChoice
      RegistryAmbient where
  entry := RegistryPc.entry
  advance := RegistryPc.advance config
  ambient := RegistryShared.ambient config

def RegistryProc.new : RegistryProc where
  shared := .new
  tasks := []
  log := []

/-- The states of the process that some interleaving of calls reaches. -/
def RegistryReachable (config : RegistryConfig) (s : RegistryProc) : Prop :=
  Reachable (registryProgram config).step RegistryProc.new s

end Coordin8
