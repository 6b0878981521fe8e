import Coordin8.Lease.Manager
import Coordin8.Support.Renaming

/-!
# A lease manager under other lease ids

The lease manager with its lease ids renamed does the same, as long as the ids
its callers present, and those it draws, keep their names: an error repeats the
id that was presented.
-/

namespace Coordin8

open Support Support.DashMap

variable (g : Equiv.Perm String)

/-- The record under the new name of its lease. -/
def LeaseRecord.rename (r : LeaseRecord) : LeaseRecord :=
  { r with leaseId := g r.leaseId }

/-- Renaming a record, undone by renaming back. -/
def leaseRecordPerm : Equiv.Perm LeaseRecord where
  toFun := LeaseRecord.rename g
  invFun := LeaseRecord.rename g.symm
  left_inv r := by simp [LeaseRecord.rename]
  right_inv r := by simp [LeaseRecord.rename]

def InMemoryLeaseStore.rename (s : InMemoryLeaseStore) : InMemoryLeaseStore where
  leases := DashMap.rename g (LeaseRecord.rename g) s.leases

def LeaseReclaimed.rename (e : LeaseReclaimed) : LeaseReclaimed :=
  { e with record := e.record.rename g }

def Landlord.rename (l : Landlord) : Landlord where
  now := l.now
  uuids := l.uuids.map g
  leases := l.leases.rename g
  sent := l.sent.map (LeaseReclaimed.rename g)

def LeaseIteration.rename (it : LeaseIteration) : LeaseIteration :=
  Iteration.rename g (leaseRecordPerm g) it

/-- The same choice; a scan visits the renamed leases in the same order. -/
def LeaseChoice.rename : LeaseChoice → LeaseChoice
  | .order it => .order (LeaseIteration.rename g it)
  | c => c

namespace LeasePc

def rename : LeasePc → LeasePc
  | .grant resourceId ttlSecs => .grant resourceId ttlSecs
  | .renew leaseId ttlSecs => .renew (g leaseId) ttlSecs
  | .renewStore leaseId ttlSecs => .renewStore (g leaseId) ttlSecs
  | .cancel leaseId => .cancel (g leaseId)
  | .cancelStore leaseId record =>
      .cancelStore (g leaseId) (record.map (LeaseRecord.rename g))
  | .cancelSend record => .cancelSend (record.rename g)
  | .drainExpired => .drainExpired
  | .drainRemove todo removed =>
      .drainRemove (todo.map (LeaseRecord.rename g))
        (removed.map (LeaseRecord.rename g))
  | .announce removed => .announce (removed.map (LeaseRecord.rename g))
  | .returned result =>
      .returned (result.map (Option.map (LeaseRecord.rename g)))

/-- The lease id a call was given by its caller. -/
def presented : LeasePc → List String
  | .renew leaseId _ | .renewStore leaseId _ | .cancel leaseId
  | .cancelStore leaseId _ => [leaseId]
  | .cancelSend record => [record.leaseId]
  | _ => []

/-- All lease ids in a call's state. -/
def leaseIds : LeasePc → List String
  | .renew leaseId _ | .renewStore leaseId _ | .cancel leaseId => [leaseId]
  | .cancelStore leaseId record =>
      leaseId :: record.toList.map LeaseRecord.leaseId
  | .cancelSend record => [record.leaseId]
  | .drainRemove todo removed => (todo ++ removed).map LeaseRecord.leaseId
  | .announce removed => removed.map LeaseRecord.leaseId
  | .returned (.ok record) => record.toList.map LeaseRecord.leaseId
  | _ => []

end LeasePc

/-- The identifier drawn in a move. -/
def LeaseChoice.drawn : LeaseChoice → List String
  | .uuid u => [u]
  | _ => []

variable {g}

/-! ## What a renaming does not touch -/

theorem LeaseRecord.rename_of_fixed {r : LeaseRecord}
    (h : g r.leaseId = r.leaseId) : r.rename g = r := by
  rw [LeaseRecord.rename, h]

theorem LeaseRecord.map_rename_of_fixed {rs : List LeaseRecord}
    (h : ∀ l ∈ rs.map LeaseRecord.leaseId, g l = l) :
    rs.map (LeaseRecord.rename g) = rs := by
  refine (List.map_congr_left fun r hr => ?_).trans (List.map_id rs)
  exact LeaseRecord.rename_of_fixed (h _ (List.mem_map_of_mem hr))

theorem LeaseRecord.optionMap_rename_of_fixed {r : Option LeaseRecord}
    (h : ∀ l ∈ r.toList.map LeaseRecord.leaseId, g l = l) :
    r.map (LeaseRecord.rename g) = r := by
  cases r with
  | none => rfl
  | some r => exact congrArg some (LeaseRecord.rename_of_fixed (h _ (by simp)))

theorem LeasePc.rename_of_fixed {pc : LeasePc} (h : ∀ l ∈ pc.leaseIds, g l = l) :
    pc.rename g = pc := by
  cases pc with
  | renew l ttl | renewStore l ttl | cancel l => simp [rename, h l (by simp [leaseIds])]
  | cancelStore l record =>
      rw [rename, h l (by simp [leaseIds]), LeaseRecord.optionMap_rename_of_fixed]
      exact fun l' hl' => h l' (List.mem_cons_of_mem _ hl')
  | cancelSend record =>
      rw [rename, LeaseRecord.rename_of_fixed (h _ (by simp [leaseIds]))]
  | drainRemove todo removed =>
      simp only [leaseIds, List.map_append, List.mem_append] at h
      rw [rename, LeaseRecord.map_rename_of_fixed fun l hl => h l (.inl hl),
        LeaseRecord.map_rename_of_fixed fun l hl => h l (.inr hl)]
  | announce removed => rw [rename, LeaseRecord.map_rename_of_fixed h]
  | returned result =>
      cases result with
      | error e => rfl
      | ok record =>
          rw [rename]
          exact congrArg (fun r => LeasePc.returned (.ok r))
            (LeaseRecord.optionMap_rename_of_fixed h)
  | grant | drainExpired => rfl

theorem LeasePc.presented_subset (pc : LeasePc) : pc.presented ⊆ pc.leaseIds := by
  cases pc <;> simp [presented, leaseIds]

/-! ## The operations commute with a renaming -/

theorem InMemoryLeaseStore.get_rename (s : InMemoryLeaseStore) (l : String) :
    (s.rename g).leases[g l]? = s.leases[l]?.map (LeaseRecord.rename g) :=
  DashMap.get_rename g _ s.leases l

theorem Landlord.mem_uuids_rename {a : Landlord} {u : String} (hu : g u = u) :
    u ∈ (a.rename g).uuids ↔ u ∈ a.uuids := by
  constructor
  · intro hmem
    obtain ⟨v, hv, heq⟩ := List.mem_map.mp hmem
    rwa [← g.injective (heq.trans hu.symm)]
  · intro hmem
    exact List.mem_map.mpr ⟨u, hmem, hu⟩

theorem Landlord.grant_rename {config : LeaseConfig} {a : Landlord}
    {u resourceId : String} {ttlSecs : UInt64} (hu : g u = u) :
    (a.rename g).grant config u resourceId ttlSecs =
      (a.grant config u resourceId ttlSecs).map
        (Prod.map (LeaseRecord.rename g) (Landlord.rename g)) := by
  unfold Landlord.grant InMemoryLeaseStore.create
  simp only [Landlord.rename]
  cases expiryFor a.now (config.negotiate ttlSecs) with
  | error e => rfl
  | ok expiry =>
      simp [Except.map, LeaseRecord.rename, Landlord.rename,
        InMemoryLeaseStore.rename, rename_insert, hu]

theorem InMemoryLeaseStore.listExpired_rename (s : InMemoryLeaseStore)
    (it : LeaseIteration) (now : Timestamp) :
    (s.rename g).listExpired (LeaseIteration.rename g it) now =
      (s.listExpired it now).map (LeaseRecord.rename g) := by
  have hentries := Iteration.entries_rename g (leaseRecordPerm g) it s.leases
  unfold InMemoryLeaseStore.listExpired LeaseIteration.rename
  have hrename : (s.rename g).leases = DashMap.rename g (leaseRecordPerm g) s.leases :=
    rfl
  rw [hrename, hentries, List.map_map, List.filter_map, List.filter_map,
    List.map_map]
  rfl

theorem Landlord.send_rename (a : Landlord) (r : LeaseRecord)
    (reason : ReclaimReason) :
    (a.rename g).send (r.rename g) reason = (a.send r reason).rename g := by
  simp [Landlord.send, Landlord.rename, LeaseReclaimed.rename]

theorem InMemoryLeaseStore.cancel_rename (s : InMemoryLeaseStore) (l : String) :
    (s.rename g).cancel (g l) = (s.cancel l).rename g := by
  simp [InMemoryLeaseStore.cancel, InMemoryLeaseStore.rename, rename_erase]

theorem InMemoryLeaseStore.renew_rename {s : InMemoryLeaseStore} {l : String}
    (hl : g l = l) (now : Timestamp) (ttlSecs : UInt64) :
    (s.rename g).renew now l ttlSecs = (s.renew now l ttlSecs).map
      (Prod.map (LeaseRecord.rename g) (InMemoryLeaseStore.rename g)) := by
  have hget := s.get_rename (g := g) l
  rw [hl] at hget
  unfold InMemoryLeaseStore.renew
  cases expiryFor now ttlSecs with
  | error e => rfl
  | ok expiry =>
      rw [hget]
      cases s.leases[l]? with
      | none => rfl
      | some record =>
          simp [Except.map, LeaseRecord.rename, InMemoryLeaseStore.rename,
            rename_insert, hl]

theorem InMemoryLeaseStore.removeIfUnchanged_rename (s : InMemoryLeaseStore)
    (r : LeaseRecord) :
    (s.rename g).removeIfUnchanged (r.rename g) =
      Prod.map id (InMemoryLeaseStore.rename g) (s.removeIfUnchanged r) := by
  have hget := s.get_rename (g := g) r.leaseId
  unfold InMemoryLeaseStore.removeIfUnchanged
  have hid : (r.rename g).leaseId = g r.leaseId := rfl
  rw [hid, hget]
  cases s.leases[r.leaseId]? with
  | none => rfl
  | some cur =>
      by_cases hsame : cur.expiresAt = r.expiresAt <;>
        simp [hsame, LeaseRecord.rename, InMemoryLeaseStore.rename, rename_erase]

/-- A call whose presented and drawn ids keep their names makes the renamed
move. -/
theorem LeasePc.advance_rename {config : LeaseConfig} {a a' : Landlord}
    {pc pc' : LeasePc} {c : LeaseChoice}
    (hpresented : ∀ l ∈ pc.presented, g l = l) (hdrawn : ∀ u ∈ c.drawn, g u = u)
    (hstep : pc.advance config a c = some (a', pc')) :
    (pc.rename g).advance config (a.rename g) (c.rename g) =
      some (a'.rename g, pc'.rename g) := by
  unfold LeasePc.advance at hstep
  split at hstep
  · -- grant
    next resourceId ttlSecs u =>
    have hu := hdrawn u (by simp [LeaseChoice.drawn])
    split at hstep
    · cases hstep
    next hfresh =>
    simp only [rename, LeaseChoice.rename, advance, Landlord.mem_uuids_rename hu,
      if_neg hfresh, Landlord.grant_rename hu]
    split at hstep <;> cases hstep <;> next heq => simp [heq, Except.map]
  · -- renew
    next l ttlSecs =>
    have hl := hpresented l (by simp [presented])
    have hget : (a.rename g).leases.get l =
        (a.leases.get l).map (LeaseRecord.rename g) := by
      have hget := a.leases.get_rename (g := g) l
      rwa [hl] at hget
    simp only [rename, LeaseChoice.rename, advance, hl, hget]
    split at hstep
    · next heq =>
      cases hstep
      simp [heq, Except.map]
    · next record heq =>
      rw [heq]
      have hexpired : (record.rename g).isExpired (a.rename g).now =
          record.isExpired a.now := rfl
      simp only [Option.map_some, hexpired]
      split at hstep <;> cases hstep <;> next hdue => simp [hdue, hl, Except.map]
  · -- renewStore
    next l ttlSecs =>
    have hl := hpresented l (by simp [presented])
    simp only [rename, LeaseChoice.rename, advance, hl]
    have hrenew := InMemoryLeaseStore.renew_rename (s := a.leases) hl a.now
      (config.negotiate ttlSecs)
    have hsame : (a.rename g).leases.renew (a.rename g).now l
        (config.negotiate ttlSecs) = _ := hrenew
    rw [hsame]
    split at hstep <;> cases hstep <;> next heq => simp [heq, Except.map, Landlord.rename]
  · -- cancel
    next l =>
    cases hstep
    exact congrArg (fun r => some (a.rename g, LeasePc.cancelStore (g l) r))
      (a.leases.get_rename l)
  · -- cancelStore
    next l record =>
    have hcancel := a.leases.cancel_rename (g := g) l
    simp only [rename, LeaseChoice.rename, advance]
    cases record with
    | none =>
        cases hstep
        simp [Landlord.rename, hcancel, Except.map]
    | some record =>
        cases hstep
        simp [Landlord.rename, hcancel]
  · -- cancelSend
    next record =>
    cases hstep
    simp only [rename, LeaseChoice.rename, advance, Landlord.send_rename]
    rfl
  · -- drainExpired
    next it =>
    cases hstep
    have hlist := a.leases.listExpired_rename (g := g) it a.now
    simp only [rename, LeaseChoice.rename, advance, List.map_nil]
    exact congrArg (fun rs => some (a.rename g, LeasePc.drainRemove rs [])) hlist
  · -- drainRemove
    cases hstep
    rfl
  · next record todo removed =>
    have hremove : (a.rename g).leases.removeIfUnchanged (record.rename g) = _ :=
      a.leases.removeIfUnchanged_rename record
    simp only [rename, LeaseChoice.rename, advance, List.map_cons, hremove]
    cases hout : a.leases.removeIfUnchanged record with
    | mk gone leases =>
        rw [hout] at hstep
        cases hstep
        cases gone <;> simp [Landlord.rename]
  · cases hstep
    rfl
  · -- announce
    next record removed =>
    cases hstep
    simp only [rename, LeaseChoice.rename, advance, List.map_cons,
      Landlord.send_rename]
  · cases hstep

end Coordin8
