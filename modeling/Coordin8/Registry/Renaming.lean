import Coordin8.Lease.Renaming
import Coordin8.Registry.Process

/-!
# The Registry under other lease ids

Lease ids occur in entries, in the index, in the lease manager, in what is
broadcast, and in the requests and answers of the calls.  Renaming them all, and
letting scans visit the entries in the same order, every call makes the renamed
move, as long as the ids that callers present and those that are drawn keep
their names.
-/

namespace Coordin8

open Support Support.DashMap

section Rename

variable (g : Equiv.Perm String)

def RegistryEntry.rename (e : RegistryEntry) : RegistryEntry :=
  { e with leaseId := g e.leaseId }

/-- Renaming an entry, undone by renaming back. -/
def registryEntryPerm : Equiv.Perm RegistryEntry where
  toFun := RegistryEntry.rename g
  invFun := RegistryEntry.rename g.symm
  left_inv e := by simp [RegistryEntry.rename]
  right_inv e := by simp [RegistryEntry.rename]

def InMemoryRegistryStore.rename (s : InMemoryRegistryStore) :
    InMemoryRegistryStore where
  entries := DashMap.rename (Equiv.refl _) (RegistryEntry.rename g) s.entries
  leaseIndex := DashMap.rename g id s.leaseIndex

def RegistryIteration.rename (it : RegistryIteration) : RegistryIteration :=
  Iteration.rename (Equiv.refl _) (registryEntryPerm g) it

def RegistryChangedEvent.rename (e : RegistryChangedEvent) :
    RegistryChangedEvent :=
  { e with entry := e.entry.rename g }

def RegisterRequest.rename (r : RegisterRequest) : RegisterRequest :=
  { r with leaseId := g r.leaseId }

def ModifyAttrsRequest.rename (r : ModifyAttrsRequest) : ModifyAttrsRequest :=
  { r with leaseId := g r.leaseId }

def RegisterResponse.rename (r : RegisterResponse) : RegisterResponse :=
  { r with lease := r.lease.map (LeaseRecord.rename g) }

def RegistryReply.rename : RegistryReply → RegistryReply
  | .registered response => .registered (response.rename g)
  | reply => reply

def RegistryPc.rename : RegistryPc → RegistryPc
  | .register r => .register (r.rename g)
  | .insert entry granted => .insert (entry.rename g) (granted.rename g)
  | .renew r existing pc =>
      .renew (r.rename g) (existing.rename g) (pc.rename g)
  | .updateEntry r existing renewed =>
      .updateEntry (r.rename g) (existing.rename g) (renewed.rename g)
  | .modifyAttrs r => .modifyAttrs (r.rename g)
  | .updateAttrs r existing => .updateAttrs (r.rename g) (existing.rename g)
  | .send event reply => .send (event.rename g) (reply.rename g)
  | .lookup template => .lookup template
  | .lookupAll template => .lookupAll template
  | .watch template => .watch template
  | .watching template cursor delivered => .watching template cursor delivered
  | .unregister leaseId => .unregister (g leaseId)
  | .lease pc => .lease (pc.rename g)
  | .returned answer => .returned (answer.map (RegistryReply.rename g))

def RegistryShared.rename (h : RegistryShared) : RegistryShared where
  store := h.store.rename g
  landlord := h.landlord.rename g
  sent := h.sent.map (RegistryChangedEvent.rename g)
  cursor := h.cursor

/-- The same choice; a scan visits the renamed entries in the same order. -/
def RegistryChoice.rename : RegistryChoice → RegistryChoice
  | .order it => .order (RegistryIteration.rename g it)
  | .lease c => .lease (c.rename g)
  | choice => choice

/-- The same action, with the scans in the same order. -/
def RegistryAct.rename : RegistryAct → RegistryAct
  | .step i choice => .step i (choice.rename g)
  | act => act

end Rename

/-- The lease ids that a call was given by its caller. -/
def RegistryPc.presented : RegistryPc → List String
  | .register r | .updateEntry r _ _ => [r.leaseId]
  | .renew r _ pc => r.leaseId :: pc.presented
  | .modifyAttrs r | .updateAttrs r _ => [r.leaseId]
  | .lease pc => pc.presented
  | _ => []

def RegistryReply.leaseIds : RegistryReply → List String
  | .registered response => response.lease.toList.map LeaseRecord.leaseId
  | _ => []

/-- All lease ids in a call's state. -/
def RegistryPc.leaseIds : RegistryPc → List String
  | .register r => [r.leaseId]
  | .insert entry granted => [entry.leaseId, granted.leaseId]
  | .renew r existing pc => r.leaseId :: existing.leaseId :: pc.leaseIds
  | .updateEntry r existing renewed =>
      [r.leaseId, existing.leaseId, renewed.leaseId]
  | .modifyAttrs r => [r.leaseId]
  | .updateAttrs r existing => [r.leaseId, existing.leaseId]
  | .send event reply => event.entry.leaseId :: reply.leaseIds
  | .unregister leaseId => [leaseId]
  | .lease pc => pc.leaseIds
  | .returned (.ok reply) => reply.leaseIds
  | _ => []

/-- The identifiers drawn in a move. -/
def RegistryChoice.drawn : RegistryChoice → List String
  | .uuids capabilityId leaseId => [capabilityId, leaseId]
  | .lease c => c.drawn
  | _ => []

/-- The lease ids a client sends in an action, and the identifiers drawn. -/
def RegistryAct.names : RegistryAct → List String
  | .call pc => pc.presented
  | .step _ choice => choice.drawn
  | .ambient _ => []

variable {g : Equiv.Perm String}

/-! ## What a renaming does not touch -/

theorem RegistryEntry.rename_of_fixed {e : RegistryEntry}
    (h : g e.leaseId = e.leaseId) : e.rename g = e := by
  rw [RegistryEntry.rename, h]

theorem RegistryReply.rename_of_fixed {reply : RegistryReply}
    (h : ∀ l ∈ reply.leaseIds, g l = l) : reply.rename g = reply := by
  cases reply with
  | registered response =>
      rw [rename, RegisterResponse.rename, LeaseRecord.optionMap_rename_of_fixed h]
  | _ => rfl

theorem RegistryPc.rename_of_fixed {pc : RegistryPc}
    (h : ∀ l ∈ pc.leaseIds, g l = l) : pc.rename g = pc := by
  cases pc with
  | register r | modifyAttrs r =>
      simp only [leaseIds, List.mem_singleton, forall_eq] at h
      simp [rename, RegisterRequest.rename, ModifyAttrsRequest.rename, h]
  | insert entry granted =>
      simp only [leaseIds, List.forall_mem_cons] at h
      rw [rename, RegistryEntry.rename_of_fixed h.1,
        LeaseRecord.rename_of_fixed h.2.1]
  | renew r existing pc =>
      simp only [leaseIds, List.forall_mem_cons] at h
      rw [rename, RegisterRequest.rename, h.1, RegistryEntry.rename_of_fixed h.2.1,
        LeasePc.rename_of_fixed h.2.2]
  | updateEntry r existing renewed =>
      simp only [leaseIds, List.forall_mem_cons] at h
      rw [rename, RegisterRequest.rename, h.1, RegistryEntry.rename_of_fixed h.2.1,
        LeaseRecord.rename_of_fixed h.2.2.1]
  | updateAttrs r existing =>
      simp only [leaseIds, List.forall_mem_cons] at h
      rw [rename, ModifyAttrsRequest.rename, h.1,
        RegistryEntry.rename_of_fixed h.2.1]
  | send event reply =>
      simp only [leaseIds, List.forall_mem_cons] at h
      rw [rename, RegistryChangedEvent.rename, RegistryEntry.rename_of_fixed h.1,
        RegistryReply.rename_of_fixed h.2]
  | unregister l => rw [rename, h l (by simp [leaseIds])]
  | lease pc => rw [rename, LeasePc.rename_of_fixed h]
  | returned answer =>
      cases answer with
      | error status => rfl
      | ok reply =>
          exact congrArg (fun r => RegistryPc.returned (.ok r))
            (RegistryReply.rename_of_fixed h)
  | lookup | lookupAll | watch | watching => rfl

theorem RegistryPc.presented_subset (pc : RegistryPc) :
    pc.presented ⊆ pc.leaseIds := by
  cases pc with
  | renew r existing lpc =>
      exact List.cons_subset_cons _
        (List.subset_cons_of_subset _ lpc.presented_subset)
  | lease lpc => exact lpc.presented_subset
  | _ => simp [presented, leaseIds]

/-! ## The operations commute with a renaming -/

namespace InMemoryRegistryStore

theorem get_rename (s : InMemoryRegistryStore) (c : String) :
    (s.rename g).get c = (s.get c).map (RegistryEntry.rename g) :=
  DashMap.get_rename (Equiv.refl _) _ s.entries c

theorem insert_rename (s : InMemoryRegistryStore) (e : RegistryEntry) :
    (s.rename g).insert (e.rename g) = (s.insert e).rename g := by
  have hentries := rename_insert (Equiv.refl _) (RegistryEntry.rename g)
    s.entries e.capabilityId e
  have hindex := rename_insert g id s.leaseIndex e.leaseId e.capabilityId
  simp only [rename, insert, hentries, hindex]
  rfl

theorem update_rename (s : InMemoryRegistryStore) (e : RegistryEntry) :
    (s.rename g).update (e.rename g) =
      Prod.map (Option.map (RegistryEntry.rename g)) (rename g) (s.update e) := by
  have hcontains : (s.rename g).entries.contains (e.rename g).capabilityId =
      s.entries.contains e.capabilityId :=
    contains_rename (Equiv.refl _) (RegistryEntry.rename g) s.entries
      e.capabilityId
  have hentries := rename_insert (Equiv.refl _) (RegistryEntry.rename g)
    s.entries e.capabilityId e
  have hindex := rename_insert g id
    (s.leaseIndex.filter fun _ capId => capId ≠ e.capabilityId)
    e.leaseId e.capabilityId
  have hfilter := rename_filter g id s.leaseIndex
    (p := fun capId => capId ≠ e.capabilityId) fun _ => rfl
  unfold update
  by_cases hin : s.entries.contains e.capabilityId = true
  · rw [if_pos hin, if_pos (hcontains.trans hin)]
    simp only [Prod.map, Option.map_some, rename, hentries, hindex, hfilter]
    rfl
  · rw [if_neg hin, if_neg (by rwa [hcontains])]
    rfl

theorem removeByLease_rename (s : InMemoryRegistryStore) (l : String) :
    (s.rename g).removeByLease (g l) =
      Prod.map (Option.map (RegistryEntry.rename g)) (rename g)
        (s.removeByLease l) := by
  have hindex := DashMap.get_rename g id s.leaseIndex l
  have herase := rename_erase g id s.leaseIndex l
  unfold removeByLease
  have hrow : (s.rename g).leaseIndex[g l]? = s.leaseIndex[l]? := by
    rw [rename, hindex, Option.map_id, id]
  rw [hrow]
  cases s.leaseIndex[l]? with
  | none => rfl
  | some c =>
      have hentries := rename_erase (Equiv.refl _) (RegistryEntry.rename g)
        s.entries c
      have hget := s.get_rename (g := g) c
      simp only [Prod.map, rename, herase, hentries]
      exact congrArg (fun e => (e, _)) hget

theorem listAll_rename (s : InMemoryRegistryStore) (it : RegistryIteration) :
    (s.rename g).listAll (RegistryIteration.rename g it) =
      (s.listAll it).map (RegistryEntry.rename g) := by
  have hentries := Iteration.entries_rename (Equiv.refl _) (registryEntryPerm g)
    it s.entries
  unfold listAll RegistryIteration.rename
  have hrename : (s.rename g).entries =
      DashMap.rename (Equiv.refl _) (registryEntryPerm g) s.entries := rfl
  rw [hrename, hentries, List.map_map, List.map_map]
  rfl

end InMemoryRegistryStore

theorem checkOwner_rename {e : RegistryEntry} {l : String} (hl : g l = l) :
    checkOwner (e.rename g) l = checkOwner e l := by
  have hne : l ≠ g e.leaseId ↔ l ≠ e.leaseId := by
    rw [← hl, Ne, g.injective.eq_iff, hl]
  simp only [checkOwner, RegistryEntry.rename, hne]

theorem RegistryHost.lookupAll_rename (s : InMemoryRegistryStore)
    (sent : List RegistryChangedEvent) (it : RegistryIteration)
    (template : Attrs) :
    RegistryHost.lookupAll ⟨s.rename g, sent.map (RegistryChangedEvent.rename g)⟩
        (RegistryIteration.rename g it) template =
      RegistryHost.lookupAll ⟨s, sent⟩ it template := by
  simp only [RegistryHost.lookupAll, InMemoryRegistryStore.listAll_rename,
    List.filter_map, List.map_map]
  rfl

theorem RegistryHost.lookup_rename (s : InMemoryRegistryStore)
    (sent : List RegistryChangedEvent) (it : RegistryIteration)
    (template : Attrs) :
    RegistryHost.lookup ⟨s.rename g, sent.map (RegistryChangedEvent.rename g)⟩
        (RegistryIteration.rename g it) template =
      RegistryHost.lookup ⟨s, sent⟩ it template := by
  rw [RegistryHost.lookup_eq, RegistryHost.lookup_eq,
    RegistryHost.lookupAll_rename]

theorem watchFilter_rename (template : Attrs)
    (item : Recv RegistryChangedEvent) :
    watchFilter template (item.map (RegistryChangedEvent.rename g)) =
      watchFilter template item := by
  cases item with
  | message evt | lagged n => rfl

/-! ## The moves commute with a renaming -/

namespace RegistryPc

variable {config : RegistryConfig} {i : Nat} {h h' : RegistryShared}
  {pc pc' : RegistryPc} {events : List RegistryLog}

theorem claim_rename {c l : String} {owned owned' : RegistryEntry → RegistryPc}
    (hl : g l = l) (howned : ∀ e, owned' (e.rename g) = (owned e).rename g)
    (hstep : claim h c l owned = some (h', pc', events)) :
    claim (h.rename g) c l owned' = some (h'.rename g, pc'.rename g, []) := by
  have hget : (h.rename g).store.get c =
      (h.store.get c).map (RegistryEntry.rename g) := h.store.get_rename c
  unfold claim at hstep ⊢
  rw [hget]
  cases hentry : h.store.get c with
  | none =>
      rw [hentry] at hstep
      cases hstep
      rfl
  | some existing =>
      rw [hentry] at hstep
      simp only [Option.map_some, checkOwner_rename hl]
      cases howner : checkOwner existing l with
      | error status =>
          simp only [howner] at hstep
          cases hstep
          rfl
      | ok _ =>
          simp only [howner] at hstep
          cases hstep
          simp only [stay, howned]

theorem go_rename (hpresented : ∀ l ∈ pc.presented, g l = l)
    (hstep : pc.go i h = some (h', pc', events)) :
    ∃ events', (pc.rename g).go i (h.rename g) =
      some (h'.rename g, pc'.rename g, events') := by
  cases pc with
  | register r =>
      have hl : g r.leaseId = r.leaseId := hpresented _ (by simp [presented])
      simp only [go] at hstep
      split at hstep
      · next hid =>
        refine ⟨[], ?_⟩
        simp only [rename, go, RegisterRequest.rename, if_pos hid, hl]
        refine claim_rename hl (fun e => ?_) hstep
        simp [rename, RegisterRequest.rename, hl, LeasePc.rename,
          RegistryEntry.rename]
      · cases hstep
  | modifyAttrs r =>
      have hl : g r.leaseId = r.leaseId := hpresented _ (by simp [presented])
      refine ⟨[], ?_⟩
      simp only [rename, go, ModifyAttrsRequest.rename, hl]
      refine claim_rename hl (fun e => ?_) hstep
      simp [rename, ModifyAttrsRequest.rename, hl]
  | insert entry granted =>
      cases hstep
      have hinsert := h.store.insert_rename (g := g) entry
      refine ⟨[], ?_⟩
      simp only [rename, go, stay, RegistryShared.rename, hinsert]
      rfl
  | updateEntry r existing renewed =>
      cases hstep
      have hupdate := congrArg Prod.snd (h.store.update_rename (g := g)
        (RegistryHost.reregistered r existing))
      refine ⟨_, congrArg some (Prod.ext ?_ rfl)⟩
      exact congrArg (fun store => { h.rename g with store := store }) hupdate
  | updateAttrs r existing =>
      cases hstep
      have hupdate := congrArg Prod.snd (h.store.update_rename (g := g)
        (RegistryHost.modified r existing))
      refine ⟨_, congrArg some (Prod.ext ?_ rfl)⟩
      exact congrArg (fun store => { h.rename g with store := store }) hupdate
  | send event reply =>
      cases hstep
      refine ⟨_, congrArg some (Prod.ext ?_ rfl)⟩
      simp [RegistryShared.rename]
  | watch template =>
      cases hstep
      refine ⟨[], ?_⟩
      simp [rename, go, stay, RegistryShared.rename]
  | watching template cursor delivered =>
      refine ⟨[], ?_⟩
      simp only [go] at hstep
      simp only [rename, go, RegistryShared.rename, recv_map]
      split at hstep
      · cases hstep
      · next item cursor' hrecv =>
        cases hstep
        simp [hrecv, watchFilter_rename, stay]
  | unregister l =>
      have hremove : (h.rename g).store.removeByLease (g l) = _ :=
        h.store.removeByLease_rename l
      refine ⟨[], ?_⟩
      simp only [rename, go, hremove]
      cases hout : h.store.removeByLease l with
      | mk removed store =>
          simp only [go, hout] at hstep
          cases hstep
          cases removed <;> rfl
  | renew | lookup | lookupAll | lease | returned => cases hstep

theorem draw_rename {c l : String} (hc : g c = c) (hl : g l = l)
    (hstep : pc.draw config i h c l = some (h', pc', events)) :
    ∃ events', (pc.rename g).draw config i (h.rename g) c l =
      some (h'.rename g, pc'.rename g, events') := by
  cases pc with
  | register r =>
      simp only [draw] at hstep
      split at hstep
      · cases hstep
      next hfresh =>
      have hmemc : c ∈ (h.rename g).landlord.uuids ↔ c ∈ h.landlord.uuids :=
        Landlord.mem_uuids_rename hc
      have hmeml : l ∈ (h.rename g).landlord.uuids ↔ l ∈ h.landlord.uuids :=
        Landlord.mem_uuids_rename hl
      have hfresh' : ¬ ((r.rename g).capabilityId ≠ "" ∨
          c ∈ (h.rename g).landlord.uuids ∨
          l ∈ c :: (h.rename g).landlord.uuids) := by
        rw [List.mem_cons, hmemc, hmeml]
        rwa [List.mem_cons] at hfresh
      -- the landlord with the capability id drawn
      have hdrawn : { (h.rename g).landlord with
            uuids := c :: (h.rename g).landlord.uuids } =
          Landlord.rename g
            { h.landlord with uuids := c :: h.landlord.uuids } := by
        simp [RegistryShared.rename, Landlord.rename, hc]
      simp only [rename, draw, if_neg hfresh', hdrawn, Landlord.grant_rename hl]
      have hrequest : (r.rename g).ttlSeconds = r.ttlSeconds := rfl
      rw [hrequest]
      split at hstep
      · next heq =>
        cases hstep
        simp only [heq, Except.map]
        exact ⟨_, rfl⟩
      · next heq =>
        cases hstep
        simp only [heq, Except.map, Prod.map]
        exact ⟨_, rfl⟩
  | _ => cases hstep

theorem scan_rename {it : RegistryIteration}
    (hstep : pc.scan h it = some (h', pc', events)) :
    (pc.rename g).scan (h.rename g) (RegistryIteration.rename g it) =
      some (h'.rename g, pc'.rename g, []) := by
  cases pc with
  | lookup template =>
      cases hstep
      have hlookup := RegistryHost.lookup_rename (g := g) h.store h.sent it template
      simp only [rename, scan, RegistryShared.rename, hlookup, stay]
      cases RegistryHost.lookup ⟨h.store, h.sent⟩ it template <;> rfl
  | lookupAll template =>
      cases hstep
      have hlookup :=
        RegistryHost.lookupAll_rename (g := g) h.store h.sent it template
      simp only [rename, scan, RegistryShared.rename, hlookup, stay]
      rfl
  | _ => cases hstep

theorem afterRenew_rename {r : RegisterRequest} {existing : RegistryEntry}
    {lpc : LeasePc} (hafter : afterRenew r existing lpc = some pc') :
    afterRenew (r.rename g) (existing.rename g) (lpc.rename g) =
      some (pc'.rename g) := by
  have hchanges : (r.rename g).changes (existing.rename g) = r.changes existing :=
    rfl
  cases lpc with
  | returned result =>
      cases result with
      | error e =>
          cases hafter
          rfl
      | ok record =>
          cases record with
          | none => cases hafter
          | some renewed =>
              simp only [afterRenew] at hafter
              simp only [LeasePc.rename, Except.map, Option.map_some, afterRenew,
                hchanges]
              split at hafter <;> cases hafter <;>
                next hch => simp only [hch, if_true]; rfl
  | _ =>
      cases hafter
      rfl

theorem leaseStep_rename {c : LeaseChoice}
    (hpresented : ∀ l ∈ pc.presented, g l = l) (hdrawn : ∀ u ∈ c.drawn, g u = u)
    (hstep : leaseStep config h c pc = some (h', pc', events)) :
    leaseStep config (h.rename g) (c.rename g) (pc.rename g) =
      some (h'.rename g, pc'.rename g, []) := by
  cases pc with
  | renew r existing lpc =>
      simp only [leaseStep] at hstep
      split at hstep
      · cases hstep
      next landlord lpc' hlease =>
      obtain ⟨pc₁, hafter, heq⟩ := Option.bind_eq_some_iff.mp hstep
      cases heq
      have hlease' : (lpc.rename g).advance config.lease (h.rename g).landlord
          (c.rename g) = some (landlord.rename g, lpc'.rename g) :=
        LeasePc.advance_rename (fun l hl => hpresented l
          (List.mem_cons_of_mem _ hl)) hdrawn hlease
      simp only [rename, leaseStep, hlease', afterRenew_rename hafter]
      rfl
  | lease lpc =>
      simp only [leaseStep] at hstep
      split at hstep
      · cases hstep
      next landlord lpc' hlease =>
      cases hstep
      have hlease' : (lpc.rename g).advance config.lease (h.rename g).landlord
          (c.rename g) = some (landlord.rename g, lpc'.rename g) :=
        LeasePc.advance_rename hpresented hdrawn hlease
      simp only [rename, leaseStep, hlease']
      rfl
  | _ => cases hstep

/-- A call whose presented and drawn ids keep their names makes the renamed
move. -/
theorem advance_rename {choice : RegistryChoice}
    (hpresented : ∀ l ∈ pc.presented, g l = l)
    (hdrawn : ∀ u ∈ choice.drawn, g u = u)
    (hstep : pc.advance config i h choice = some (h', pc', events)) :
    ∃ events', (pc.rename g).advance config i (h.rename g) (choice.rename g) =
      some (h'.rename g, pc'.rename g, events') := by
  cases choice with
  | go => exact go_rename hpresented hstep
  | uuids c l =>
      exact draw_rename (hdrawn c (by simp [RegistryChoice.drawn]))
        (hdrawn l (by simp [RegistryChoice.drawn])) hstep
  | order it => exact ⟨[], scan_rename hstep⟩
  | lease c => exact ⟨[], leaseStep_rename hpresented hdrawn hstep⟩

theorem leaseIds_of_entry (pc : RegistryPc) (hentry : pc.entry = true) :
    pc.presented = pc.leaseIds := by
  cases pc with
  | lease lpc => cases lpc <;> first | rfl | cases hentry
  | register | modifyAttrs | lookup | lookupAll | watch => rfl
  | _ => cases hentry

end RegistryPc

theorem RegistryShared.ambient_rename {config : RegistryConfig}
    {h h' : RegistryShared} {event : RegistryAmbient} {spawned : List RegistryPc}
    (hamb : h.ambient config event = some (h', spawned)) :
    (h.rename g).ambient config event =
      some (h'.rename g, spawned.map (RegistryPc.rename g)) := by
  cases event with
  | tick d =>
      cases hamb
      rfl
  | cascade =>
      simp only [RegistryShared.ambient] at hamb
      have hrecv : recv config.capacity (h.rename g).landlord.sent
          (h.rename g).cursor =
            (recv config.capacity h.landlord.sent h.cursor).map
              (Prod.map (Recv.map (LeaseReclaimed.rename g)) id) :=
        recv_map (LeaseReclaimed.rename g)
      simp only [RegistryShared.ambient, hrecv]
      split at hamb
      · cases hamb
      · next heq =>
        cases hamb
        simp only [heq]
        rfl
      · next heq =>
        cases hamb
        simp only [heq]
        rfl

/-! ## Runs -/

/-- The two processes differ in the names of the leases only. -/
structure RegistryProc.Renamed (g : Equiv.Perm String) (s t : RegistryProc) :
    Prop where
  shared : t.shared = s.shared.rename g
  tasks : t.tasks = s.tasks.map (RegistryPc.rename g)

theorem RegistryProc.Renamed.step {config : RegistryConfig}
    {s s' t : RegistryProc} {act : RegistryAct} (hrenamed : s.Renamed g t)
    (hpresented : ∀ pc ∈ s.tasks, ∀ l ∈ pc.presented, g l = l)
    (hnames : ∀ l ∈ act.names, g l = l)
    (hstep : (registryProgram config).step s act = some s') :
    ∃ t', (registryProgram config).step t (act.rename g) = some t' ∧
      s'.Renamed g t' := by
  obtain ⟨hshared, htasks⟩ := hrenamed
  cases act with
  | call pc =>
      obtain ⟨hentry, rfl⟩ := Program.step_call.mp hstep
      refine ⟨_, Program.step_call.mpr ⟨hentry, rfl⟩, hshared, ?_⟩
      have hpc : pc.rename g = pc :=
        RegistryPc.rename_of_fixed (pc.leaseIds_of_entry hentry ▸ hnames)
      simp [htasks, hpc]
  | step i choice =>
      obtain ⟨pc, h', pc', events, hpc, hadv, rfl⟩ := Program.step_step.mp hstep
      obtain ⟨events', hadv'⟩ := RegistryPc.advance_rename
        (hpresented pc (List.mem_of_getElem? hpc)) hnames hadv
      refine ⟨_, Program.step_step.mpr ⟨pc.rename g, h'.rename g, pc'.rename g,
        events', ?_, ?_, rfl⟩, rfl, ?_⟩
      · simp [htasks, hpc]
      · rw [hshared]
        exact hadv'
      · simp [htasks, List.map_set]
  | ambient event =>
      obtain ⟨h', spawned, hamb, rfl⟩ := Program.step_ambient.mp hstep
      refine ⟨_, Program.step_ambient.mpr ⟨h'.rename g,
        spawned.map (RegistryPc.rename g), ?_, rfl⟩, rfl, ?_⟩
      · rw [hshared]
        exact RegistryShared.ambient_rename hamb
      · simp [htasks]

end Coordin8
