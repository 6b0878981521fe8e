import Coordin8.Registry.Service
import Coordin8.Support.Replica
import Coordin8.Support.Transition

/-!
# Following the registry

A client takes the snapshot `lookup_all` returns for a template and applies the
events of a `watch` for the same template.  The watch looks at one version of an
entry only, the one the event carries.  So the client's view follows the
registry as long as no entry that matches the template is changed into one that
does not; such a change, and whatever happens to the entry afterwards, is not
delivered.
-/

namespace Coordin8

open Support

/-! ## What a call changes -/

/-- The call succeeds and replaces an entry that matches the template by one that
does not.  (A new registration writes over an entry only if it draws an id in
use.) -/
def stopsMatching (template : Attrs) (h : RegistryHost) : RegistryCall → Bool
  | .register uuid leasing r =>
      match (h.register uuid leasing r).1 with
      | .error _ => false
      | .ok response =>
          (h.store.get response.capabilityId).any fun e =>
            entryMatches template e &&
              !entryMatches template (RegistryHost.reregistered r e)
  | .modifyAttrs r =>
      match (h.modifyAttrs r).1 with
      | .error _ => false
      | .ok _ =>
          (h.store.get r.capabilityId).any fun e =>
            entryMatches template e &&
              !entryMatches template (RegistryHost.modified r e)
  | .reclaim _ => false

/-- What a call does to the entries and to the broadcast, when it replaces no
entry that satisfies `p` by one that does not. -/
inductive RegistryChange (p : RegistryEntry → Bool) (h h' : RegistryHost) :
    Prop where
  | unchanged (hentries : h'.store.entries = h.store.entries)
      (hsent : h'.sent = h.sent)
  | written (type : RegistryEventType) (entry : RegistryEntry)
      (htype : type ≠ .expired)
      (hkeep : ∀ old, h.store.entries[entry.capabilityId]? = some old →
        p old = true → p entry = true)
      (hentries : h'.store.entries =
        h.store.entries.insert entry.capabilityId entry)
      (hsent : h'.sent = h.sent ++ [⟨type, entry⟩])
  | removed (k : String) (entry : RegistryEntry)
      (hget : h.store.entries[k]? = some entry)
      (hentries : h'.store.entries = h.store.entries.erase k)
      (hsent : h'.sent = h.sent ++ [⟨.expired, entry⟩])

theorem checkOwner_ok {e : RegistryEntry} {presented : String}
    (h : checkOwner e presented = .ok ()) : presented = e.leaseId := by
  unfold checkOwner at h
  split at h
  · cases h
  · next hnot =>
    push Not at hnot
    exact hnot.2

namespace RegistryHost

variable {template : Attrs} {h : RegistryHost}

theorem register_change {uuid : String} {leasing : Leasing}
    {r : RegisterRequest}
    (hkeep : stopsMatching template h (.register uuid leasing r) = false) :
    RegistryChange (entryMatches template) h (h.register uuid leasing r).2 := by
  unfold stopsMatching register at hkeep
  unfold register
  by_cases hid : r.capabilityId ≠ ""
  · simp only [if_pos hid] at hkeep ⊢
    unfold reregister at hkeep ⊢
    split
    · exact .unchanged rfl rfl
    next existing hget =>
    split
    · exact .unchanged rfl rfl
    next howner =>
    split
    · exact .unchanged rfl rfl
    next lease hrenew =>
    simp only [hget, howner, hrenew] at hkeep
    dsimp only
    split
    · refine .written .modified (reregistered r existing) (by decide) ?_
        (InMemoryRegistryStore.entries_update hget) rfl
      intro old hold hp
      obtain rfl : existing = old := Option.some.inj (hget.symm.trans hold)
      simpa [hp] using hkeep
    · exact .unchanged rfl rfl
  · simp only [if_neg hid] at hkeep ⊢
    unfold registerNew at hkeep ⊢
    split
    · exact .unchanged rfl rfl
    · next lease hgrant =>
      refine .written .registered _ (by decide) ?_ rfl rfl
      intro old hold hp
      have hget : h.store.get uuid = some old := hold
      simp only [hgrant, hget] at hkeep
      have hmatches : entryMatches template (reregistered r old) = true := by
        simpa [hp] using hkeep
      exact hmatches

theorem modifyAttrs_change (hkeyed : h.store.Keyed) {r : ModifyAttrsRequest}
    (hkeep : stopsMatching template h (.modifyAttrs r) = false) :
    RegistryChange (entryMatches template) h (h.modifyAttrs r).2 := by
  unfold stopsMatching modifyAttrs at hkeep
  unfold modifyAttrs
  split
  · exact .unchanged rfl rfl
  next existing hget =>
  split
  · exact .unchanged rfl rfl
  next howner =>
  simp only [hget, howner] at hkeep
  have hid : (modified r existing).capabilityId = r.capabilityId :=
    hkeyed r.capabilityId existing hget
  have hat : h.store.get (modified r existing).capabilityId = some existing := by
    rw [hid]
    exact hget
  refine .written .modified (modified r existing) (by decide) ?_
    (InMemoryRegistryStore.entries_update hat) rfl
  intro old hold hp
  obtain rfl : existing = old := Option.some.inj (hat.symm.trans hold)
  simpa [hp] using hkeep

theorem reclaim_change (leaseId : String) :
    RegistryChange (entryMatches template) h (h.reclaim leaseId) := by
  unfold reclaim
  rcases InMemoryRegistryStore.entries_removeByLease (s := h.store) leaseId with
    ⟨k, e, hget, hremoved, hentries⟩ | ⟨hremoved, hentries⟩
  · refine .removed k e hget ?_ ?_
    · simp only [hremoved]
      exact hentries
    · simp only [hremoved]
  · refine .unchanged ?_ ?_
    · simp only [hremoved]
      exact hentries
    · simp only [hremoved]

theorem exec_change (hkeyed : h.store.Keyed) {call : RegistryCall}
    (hkeep : stopsMatching template h call = false) :
    RegistryChange (entryMatches template) h (h.exec call) := by
  cases call with
  | register uuid leasing r => exact register_change hkeep
  | modifyAttrs r => exact modifyAttrs_change hkeyed hkeep
  | reclaim leaseId => exact reclaim_change leaseId

end RegistryHost

/-! ## The client -/

/-- The client applies an event to its view. -/
def applyEvent (view : DashMap String Capability) (e : RegistryEvent) :
    DashMap String Capability :=
  match e.type with
  | .registered | .modified => view.insert e.capability.capabilityId e.capability
  | .expired => view.erase e.capability.capabilityId

/-- The view the snapshot gives. -/
def ofSnapshot (snapshot : List Capability) : DashMap String Capability :=
  DashMap.insertAll Capability.capabilityId id ∅ snapshot

/-- A registry and one watch on it. -/
structure WatchSession where
  host : RegistryHost
  cursor : Nat
  delivered : List (Except Status RegistryEvent)
deriving DecidableEq

inductive WatchAct where
  | call (c : RegistryCall)
  | poll

namespace WatchSession

/-- A watch begins with what is sent after it has subscribed. -/
def watch (host : RegistryHost) : WatchSession where
  host := host
  cursor := host.sent.length
  delivered := []

def step (template : Attrs) (s : WatchSession) : WatchAct → Option WatchSession
  | .call c => some { s with host := s.host.exec c }
  | .poll =>
      (recv registryCapacity s.host.sent s.cursor).map fun (item, cursor) =>
        { s with
          cursor := cursor
          delivered := s.delivered ++ (watchFilter template item).toList }

/-- The events delivered. -/
def received (s : WatchSession) : List RegistryEvent :=
  s.delivered.filterMap Except.toOption

/-- The events the watch is still to deliver. -/
def pending (template : Attrs) (s : WatchSession) : List RegistryEvent :=
  (s.host.sent.drop s.cursor).filterMap (forwarded template)

/-- The view of a client that began with `base`. -/
def view (s : WatchSession) (base : DashMap String Capability) :
    DashMap String Capability :=
  s.received.foldl applyEvent base

/-- The condition on a call: it replaces no entry that matches the template by
one that does not, and the watch is not a full channel behind. -/
def KeepsMatching (template : Attrs) (s : WatchSession) : WatchAct → Prop
  | .call c =>
      stopsMatching template s.host c = false ∧
        s.host.sent.length < s.cursor + registryCapacity
  | .poll => True

instance KeepsMatching.decidable (template : Attrs) (s : WatchSession) :
    ∀ act, Decidable (KeepsMatching template s act)
  | .call c =>
      inferInstanceAs (Decidable (stopsMatching template s.host c = false ∧
        s.host.sent.length < s.cursor + registryCapacity))
  | .poll => inferInstanceAs (Decidable True)

/-- The view, once the pending events are applied to it, shows the registry. -/
structure Follows (template : Attrs) (base : DashMap String Capability)
    (s : WatchSession) : Prop where
  keyed : s.host.store.Keyed
  bounded : s.cursor ≤ s.host.sent.length
  pace : s.host.sent.length ≤ s.cursor + registryCapacity
  mirrors :
    Mirrors (entryMatches template) entryToCapability s.host.store.entries
      ((s.received ++ s.pending template).foldl applyEvent base)

section Follows

variable {template : Attrs} {base : DashMap String Capability}
  {s : WatchSession}

theorem bounds_call {host : RegistryHost} {evt : RegistryChangedEvent}
    (hbound : s.cursor ≤ s.host.sent.length)
    (hroom : s.host.sent.length < s.cursor + registryCapacity)
    (hsent : host.sent = s.host.sent ++ [evt]) :
    s.cursor ≤ host.sent.length ∧
      host.sent.length ≤ s.cursor + registryCapacity := by
  rw [hsent, List.length_append, List.length_singleton]
  omega

theorem pending_call {host : RegistryHost} {evt : RegistryChangedEvent}
    (hbound : s.cursor ≤ s.host.sent.length)
    (hsent : host.sent = s.host.sent ++ [evt]) :
    ({ s with host := host } : WatchSession).pending template =
      s.pending template ++ (forwarded template evt).toList := by
  simp only [pending, hsent]
  rw [List.drop_append_of_le_length hbound, List.filterMap_append]
  cases hforwarded : forwarded template evt with
  | none | some e => simp [hforwarded]

theorem foldl_written {type : RegistryEventType} {entry : RegistryEntry}
    (htype : type ≠ .expired) (view : DashMap String Capability) :
    (forwarded template ⟨type, entry⟩).toList.foldl applyEvent view =
      if entryMatches template entry then
        view.insert entry.capabilityId (entryToCapability entry)
      else
        view := by
  unfold forwarded
  split
  · cases type with
    | expired => exact absurd rfl htype
    | registered | modified => rfl
  · rfl

theorem foldl_removed {entry : RegistryEntry}
    (view : DashMap String Capability) :
    (forwarded template ⟨.expired, entry⟩).toList.foldl applyEvent view =
      if entryMatches template entry then
        view.erase entry.capabilityId
      else
        view := by
  unfold forwarded
  split
  · rfl
  · rfl

theorem Follows.call (hfollows : s.Follows template base) {c : RegistryCall}
    (hkeep : KeepsMatching template s (.call c)) :
    ({ s with host := s.host.exec c } : WatchSession).Follows template base := by
  obtain ⟨hmatching, hroom⟩ := hkeep
  have hkeyed := RegistryHost.exec_keyed hfollows.keyed c
  have hbound := hfollows.bounded
  have hmirrors := hfollows.mirrors
  cases RegistryHost.exec_change hfollows.keyed hmatching with
  | unchanged hentries hsent =>
      refine ⟨hkeyed, ?_, ?_, ?_⟩
      · simpa only [hsent] using hbound
      · simpa only [hsent] using hfollows.pace
      · simpa only [received, pending, hentries, hsent] using hmirrors
  | written type entry htype hmatch hentries hsent =>
      obtain ⟨hbound', hpace'⟩ := bounds_call hbound hroom hsent
      refine ⟨hkeyed, hbound', hpace', ?_⟩
      rw [pending_call hbound hsent, ← List.append_assoc, List.foldl_append,
        foldl_written htype]
      dsimp only
      rw [hentries]
      exact hmirrors.insert hmatch
  | removed k entry hget hentries hsent =>
      obtain ⟨hbound', hpace'⟩ := bounds_call hbound hroom hsent
      refine ⟨hkeyed, hbound', hpace', ?_⟩
      have hid : entry.capabilityId = k := hfollows.keyed k entry hget
      rw [pending_call hbound hsent, ← List.append_assoc, List.foldl_append,
        foldl_removed, hid]
      dsimp only
      rw [hentries]
      exact hmirrors.erase hget

theorem Follows.poll (hfollows : s.Follows template base)
    {item : Recv RegistryChangedEvent} {cursor : Nat}
    (hrecv : recv registryCapacity s.host.sent s.cursor = some (item, cursor)) :
    ({ s with
      cursor := cursor
      delivered := s.delivered ++ (watchFilter template item).toList } :
      WatchSession).Follows template base := by
  obtain ⟨hforward, hbound⟩ := recv_bounds hrecv
  refine ⟨hfollows.keyed, hbound,
    hfollows.pace.trans (Nat.add_le_add_right hforward _), ?_⟩
  cases item with
  | lagged missed => exact absurd hrecv (recv_ne_lagged hfollows.pace)
  | message evt =>
      obtain ⟨hget, rfl⟩ := recv_eq_message hrecv
      have hmirrors := hfollows.mirrors
      have hnext : s.pending template =
          (forwarded template evt).toList ++
            (s.host.sent.drop (s.cursor + 1)).filterMap (forwarded template) := by
        obtain ⟨hlt, hevt⟩ := List.getElem?_eq_some_iff.mp hget
        rw [pending, List.drop_eq_getElem_cons hlt, hevt, List.filterMap_cons]
        cases forwarded template evt with
        | none | some e => rfl
      have hreceived :
          (s.delivered ++ (watchFilter template (.message evt)).toList).filterMap
              Except.toOption =
            s.received ++ (forwarded template evt).toList := by
        rw [List.filterMap_append, watchFilter]
        cases forwarded template evt with
        | none | some e => rfl
      rw [hnext, ← List.append_assoc, ← hreceived] at hmirrors
      exact hmirrors

theorem follows_watch {host : RegistryHost} (hkeyed : host.store.Keyed)
    (it : RegistryIteration) :
    (watch host).Follows template (ofSnapshot (host.lookupAll it template)) := by
  refine ⟨hkeyed, Nat.le_refl _, Nat.le_add_right _ _, ?_⟩
  have hpending : (watch host).pending template = [] := by
    simp [pending, watch]
  have hmirrors : Mirrors (entryMatches template) entryToCapability
      host.store.entries (ofSnapshot (host.lookupAll it template)) :=
    Mirrors.ofSelect (f := entryToCapability) Capability.capabilityId hkeyed it
  rw [hpending]
  exact hmirrors

end Follows

/-- Along a run that keeps matching entries matching, the view with the pending
events follows the registry. -/
theorem follows_run {template : Attrs} {host : RegistryHost}
    (hkeyed : host.store.Keyed) (it : RegistryIteration) {acts : List WatchAct}
    {s : WatchSession} (hrun : run (step template) (watch host) acts = some s)
    (hmeet : StepsMeet (step template) (KeepsMatching template) (watch host)
      acts) :
    s.Follows template (ofSnapshot (host.lookupAll it template)) := by
  apply run_invariant_of_stepsMeet (follows_watch hkeyed it) _ hrun hmeet
  intro s act s' _ hfollows hkeep hstep
  cases act with
  | call c =>
      obtain rfl := Option.some.inj hstep
      exact hfollows.call hkeep
  | poll =>
      obtain ⟨⟨item, cursor⟩, hrecv, rfl⟩ := Option.map_eq_some_iff.mp hstep
      exact hfollows.poll hrecv

/-- Whatever calls have made the registry: the client that takes the snapshot
and applies the events of the watch holds, once it has got them all, exactly
what `lookup_all` returns, provided that no call since the snapshot has turned a
matching entry into one that does not match, and the watch has kept pace. -/
theorem watch_tracks_lookupAll (template : Attrs) (history : List RegistryCall)
    (it₀ it : RegistryIteration) (acts : List WatchAct) (s : WatchSession)
    (hrun : run (step template)
      (watch (history.foldl RegistryHost.exec .new)) acts = some s)
    (hmeet : StepsMeet (step template) (KeepsMatching template)
      (watch (history.foldl RegistryHost.exec .new)) acts)
    (hdelivered : s.cursor = s.host.sent.length) :
    DashMap.values (s.view (ofSnapshot
        ((history.foldl RegistryHost.exec .new).lookupAll it₀ template))) =
      (s.host.lookupAll it template : List Capability) := by
  have hkeyed := RegistryHost.keyed_history history
  have hfollows := follows_run hkeyed it₀ hrun hmeet
  have hpending : s.pending template = [] := by
    simp [pending, hdelivered]
  have hmirrors := hfollows.mirrors
  rw [hpending, List.append_nil] at hmirrors
  exact hmirrors.values_eq it

end WatchSession

/-! ## A capability that moves from one zone to another -/

section Moving

open WatchSession

def leaseOne : Leasing where
  grant resourceId ttl := .ok ⟨"lease-1", resourceId, 0, 60, ttl⟩
  renew leaseId ttl := .ok ⟨leaseId, "registry:cap-1", 0, 60, ttl⟩

def greeterIn (zone capabilityId leaseId : String) : RegisterRequest where
  interface := "Greeter"
  attrs := (∅ : Attrs).insert "zone" zone
  ttlSeconds := 60
  transport := none
  capabilityId := capabilityId
  leaseId := leaseId

def greeterAt (zone : String) : Capability where
  capabilityId := "cap-1"
  interface := "Greeter"
  attrs := (∅ : Attrs).insert "zone" zone
  transport := none

def zoneTemplate (zone : String) : Attrs :=
  (∅ : Attrs).insert "zone" zone

/-- A Greeter is registered in the zone east. -/
def greeterHistory : List RegistryCall :=
  [.register "cap-1" leaseOne (greeterIn "east" "" "")]

def moveWest : RegistryCall :=
  .register "" leaseOne (greeterIn "west" "cap-1" "lease-1")

/-- A client that watches the zone west sees it arrive. -/
def seenInWest : WatchSession :=
  (run (step (zoneTemplate "west"))
    (watch (greeterHistory.foldl RegistryHost.exec .new))
    [.call moveWest, .poll]).get (by decide +kernel)

theorem watch_tracks_lookupAll_west :
    DashMap.values (seenInWest.view (ofSnapshot
      ((greeterHistory.foldl RegistryHost.exec .new).lookupAll .sorted
        (zoneTemplate "west")))) = {greeterAt "west"} :=
  watch_tracks_lookupAll (zoneTemplate "west") greeterHistory .sorted .sorted
    [.call moveWest, .poll] seenInWest (Option.some_get _).symm
    (by decide +kernel) rfl

/-- A client that watches the zone east is told nothing, neither of the move nor
of the end of the lease. -/
def unseenInEast : WatchSession :=
  (run (step (zoneTemplate "east"))
    (watch (greeterHistory.foldl RegistryHost.exec .new))
    [.call moveWest, .poll, .call (.reclaim "lease-1"), .poll]).get
    (by decide +kernel)

/-- It holds the capability for good, and `lookup_all` returns none. -/
theorem view_keeps_moved_capability :
    run (step (zoneTemplate "east"))
        (watch (greeterHistory.foldl RegistryHost.exec .new))
        [.call moveWest, .poll, .call (.reclaim "lease-1"), .poll] =
      some unseenInEast ∧
    unseenInEast.cursor = unseenInEast.host.sent.length ∧
    unseenInEast.delivered = [] ∧
    (unseenInEast.view (ofSnapshot
      ((greeterHistory.foldl RegistryHost.exec .new).lookupAll .sorted
        (zoneTemplate "east"))))["cap-1"]? = some (greeterAt "east") ∧
    unseenInEast.host.lookupAll .sorted (zoneTemplate "east") = [] := by
  refine ⟨(Option.some_get _).symm, ?_⟩
  decide +kernel

end Moving

end Coordin8
