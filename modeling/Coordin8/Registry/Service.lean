import Coordin8.Core.Matcher
import Coordin8.Provider.RegistryStore
import Coordin8.Support.Broadcast

/-!
# The Registry service

`RegistryIndex` and `RegistryServiceImpl` over the in-memory store.  An
operation runs to its end before the next one begins; the ids that are drawn
and the answers of the lease manager come from outside.  Whatever changes an
entry is broadcast, and `watch` passes on the events whose entry matches its
template.
-/

namespace Coordin8

open Support

structure RegisterRequest where
  interface : String
  attrs : Attrs
  ttlSeconds : UInt64
  transport : Option TransportConfig
  capabilityId : String
  leaseId : String
deriving DecidableEq

structure RegisterResponse where
  capabilityId : String
  lease : Option LeaseRecord
deriving DecidableEq

structure ModifyAttrsRequest where
  capabilityId : String
  addAttrs : Attrs
  removeAttrs : List String
  leaseId : String
deriving DecidableEq

structure Capability where
  capabilityId : String
  interface : String
  attrs : Attrs
  transport : Option TransportConfig
deriving DecidableEq

inductive RegistryEventType where
  | registered
  | expired
  | modified
deriving DecidableEq, Repr

/-- What is broadcast when an entry changes. -/
structure RegistryChangedEvent where
  eventType : RegistryEventType
  entry : RegistryEntry
deriving DecidableEq

/-- What a watch delivers. -/
structure RegistryEvent where
  type : RegistryEventType
  capability : Capability
deriving DecidableEq

/-- The answers of the lease manager. -/
structure Leasing where
  grant : String → UInt64 → Except Error LeaseRecord
  renew : String → UInt64 → Except Error LeaseRecord

/-- The store and everything that has been broadcast. -/
structure RegistryHost where
  store : InMemoryRegistryStore
  sent : List RegistryChangedEvent
deriving DecidableEq

def RegistryHost.new : RegistryHost where
  store := .new
  sent := []

def entryToCapability (e : RegistryEntry) : Capability where
  capabilityId := e.capabilityId
  interface := e.interface
  attrs := e.attrs
  transport := e.transport

/-! ## Matching -/

/-- The template is matched against the attributes with the interface among
them. -/
def entryMatches (template : Attrs) (e : RegistryEntry) : Bool :=
  templateMatches (parseTemplate template)
    (e.attrs.insert "interface" e.interface)

/-! ## The operations -/

/-- The caller must present the current lease of the entry. -/
def checkOwner (existing : RegistryEntry) (presented : String) :
    Except Status Unit :=
  if presented = "" ∨ presented ≠ existing.leaseId then
    .error ⟨.permissionDenied,
      "lease_id does not match the entry's current lease"⟩
  else
    .ok ()

def transportEq : Option TransportConfig → Option TransportConfig → Bool
  | none, none => true
  | some a, some b => a.transportType == b.transportType && a.config == b.config
  | _, _ => false

def capabilityNotFound (capabilityId : String) : Status where
  code := .notFound
  message := "capability not found: " ++ capabilityId

namespace RegistryHost

/-- The entry a re-registration leaves in the place of `existing`. -/
def reregistered (r : RegisterRequest) (existing : RegistryEntry) :
    RegistryEntry where
  capabilityId := r.capabilityId
  leaseId := existing.leaseId
  interface := r.interface
  attrs := r.attrs
  transport := r.transport

/-- A re-registration updates the entry in place.  A pure renewal is not a
registry change. -/
def reregister (h : RegistryHost) (leasing : Leasing) (r : RegisterRequest) :
    Except Status RegisterResponse × RegistryHost :=
  match h.store.get r.capabilityId with
  | none => (.error (capabilityNotFound r.capabilityId), h)
  | some existing =>
      match checkOwner existing r.leaseId with
      | .error status => (.error status, h)
      | .ok () =>
          match leasing.renew existing.leaseId r.ttlSeconds with
          | .error e => (.error ⟨.failedPrecondition, e.display⟩, h)
          | .ok lease =>
              let entry := reregistered r existing
              let changed :=
                existing.interface != entry.interface ||
                  existing.attrs != entry.attrs ||
                  !transportEq existing.transport entry.transport
              (.ok ⟨r.capabilityId, some lease⟩,
                if changed then
                  { store := (h.store.update entry).2
                    sent := h.sent ++ [⟨.modified, entry⟩] }
                else
                  h)

/-- A new registration draws a capability id. -/
def registerNew (h : RegistryHost) (uuid : String) (leasing : Leasing)
    (r : RegisterRequest) : Except Status RegisterResponse × RegistryHost :=
  match leasing.grant ("registry:" ++ uuid) r.ttlSeconds with
  | .error e => (.error ⟨.internal, e.display⟩, h)
  | .ok lease =>
      let entry : RegistryEntry :=
        { capabilityId := uuid
          leaseId := lease.leaseId
          interface := r.interface
          attrs := r.attrs
          transport := r.transport }
      (.ok ⟨uuid, some lease⟩,
        { store := h.store.insert entry
          sent := h.sent ++ [⟨.registered, entry⟩] })

def register (h : RegistryHost) (uuid : String) (leasing : Leasing)
    (r : RegisterRequest) : Except Status RegisterResponse × RegistryHost :=
  if r.capabilityId ≠ "" then
    h.reregister leasing r
  else
    h.registerNew uuid leasing r

/-- The entry with its attributes modified: removals first, so that an addition
of the same key wins. -/
def modified (r : ModifyAttrsRequest) (existing : RegistryEntry) :
    RegistryEntry :=
  let attrs := DashMap.eraseAll id existing.attrs r.removeAttrs
  { existing with
    attrs := DashMap.insertAll Prod.fst Prod.snd attrs r.addAttrs.toList }

def modifyAttrs (h : RegistryHost) (r : ModifyAttrsRequest) :
    Except Status Capability × RegistryHost :=
  match h.store.get r.capabilityId with
  | none => (.error (capabilityNotFound r.capabilityId), h)
  | some existing =>
      match checkOwner existing r.leaseId with
      | .error status => (.error status, h)
      | .ok () =>
          let entry := modified r existing
          (.ok (entryToCapability entry),
            { store := (h.store.update entry).2
              sent := h.sent ++ [⟨.modified, entry⟩] })

/-- The registry's part of the reclaim cascade. -/
def reclaim (h : RegistryHost) (leaseId : String) : RegistryHost :=
  let (removed, store) := h.store.removeByLease leaseId
  match removed with
  | some entry => { store := store, sent := h.sent ++ [⟨.expired, entry⟩] }
  | none => { h with store := store }

/-- The first matching capability. -/
def lookup (h : RegistryHost) (it : RegistryIteration) (template : Attrs) :
    Except Status Capability :=
  match (h.store.listAll it).find? (entryMatches template) with
  | some entry => .ok (entryToCapability entry)
  | none => .error ⟨.notFound, "no matching capability"⟩

/-- All matching capabilities. -/
def lookupAll (h : RegistryHost) (it : RegistryIteration) (template : Attrs) :
    List Capability :=
  ((h.store.listAll it).filter (entryMatches template)).map entryToCapability

theorem lookup_eq (h : RegistryHost) (it : RegistryIteration)
    (template : Attrs) :
    h.lookup it template =
      match (h.lookupAll it template).head? with
      | some capability => .ok capability
      | none => .error ⟨.notFound, "no matching capability"⟩ := by
  rw [lookup, lookupAll, List.head?_map, List.head?_filter]
  cases (h.store.listAll it).find? (entryMatches template) with
  | none | some entry => rfl

end RegistryHost

/-! ## Watching -/

/-- Capacity of the broadcast channel. -/
def registryCapacity : Nat := 256

/-- The event for the client, when the entry matches. -/
def forwarded (template : Attrs) (evt : RegistryChangedEvent) :
    Option RegistryEvent :=
  if entryMatches template evt.entry then
    some ⟨evt.eventType, entryToCapability evt.entry⟩
  else
    none

/-- What a watch makes of an item of the broadcast. -/
def watchFilter (template : Attrs) :
    Recv RegistryChangedEvent → Option (Except Status RegistryEvent)
  | .message evt => (forwarded template evt).map .ok
  | .lagged _ =>
      some (.error ⟨.dataLoss, "watcher lagged; resubscribe and re-snapshot"⟩)

/-! ## Calls one after another -/

inductive RegistryCall where
  | register (uuid : String) (leasing : Leasing) (r : RegisterRequest)
  | modifyAttrs (r : ModifyAttrsRequest)
  | reclaim (leaseId : String)

/-- The registry after a call. -/
def RegistryHost.exec (h : RegistryHost) : RegistryCall → RegistryHost
  | .register uuid leasing r => (h.register uuid leasing r).2
  | .modifyAttrs r => (h.modifyAttrs r).2
  | .reclaim leaseId => h.reclaim leaseId

namespace RegistryHost

variable {h : RegistryHost}

theorem exec_keyed (hkeyed : h.store.Keyed) (call : RegistryCall) :
    (h.exec call).store.Keyed := by
  cases call with
  | register uuid leasing r =>
      simp only [exec, register]
      split
      · unfold reregister
        split
        · exact hkeyed
        split
        · exact hkeyed
        split
        · exact hkeyed
        dsimp only
        split
        · exact hkeyed.update _
        · exact hkeyed
      · unfold registerNew
        split
        · exact hkeyed
        · exact hkeyed.insert _
  | modifyAttrs r =>
      simp only [exec, modifyAttrs]
      split
      · exact hkeyed
      split
      · exact hkeyed
      · exact hkeyed.update _
  | reclaim leaseId =>
      have hremoved := hkeyed.removeByLease leaseId
      simp only [exec, reclaim]
      split
      · exact hremoved
      · exact hremoved

theorem keyed_history (calls : List RegistryCall) :
    (calls.foldl exec new).store.Keyed := by
  induction calls using List.reverseRecOn with
  | nil => exact InMemoryRegistryStore.keyed_new
  | append_singleton calls call ih =>
      rw [List.foldl_append]
      exact exec_keyed ih call

end RegistryHost

end Coordin8
