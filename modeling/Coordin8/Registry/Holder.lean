import Coordin8.Registry.Ownership
import Coordin8.Registry.Renaming
import Coordin8.Registry.Updates

/-!
# The holder of an entry's lease

Only a caller that presents the lease of an entry can change the entry, and
nobody else can tell what the lease is called.  As long as the lease runs, a run
of calls that do not present it leaves the entry and its row in the index as they
are.  The same run from the state with the lease under another name gives these
callers the same answers and events.
-/

namespace Coordin8

open Support Support.DashMap InMemoryRegistryStore

/-! ## What calls present -/

variable {a a' : Landlord} {pc pc' : LeasePc} {Q : String → String → Prop}
  {existing : RegistryEntry} {l x : String}

theorem LeaseMove.presented_subset {config : LeaseConfig}
    (hmove : LeaseMove config a pc a' pc') (hpc : pc.Sound Q a) :
    pc'.presented ⊆ pc.presented := by
  cases hmove with
  | @cancelled leaseId record =>
      obtain ⟨hid, -⟩ := hpc record rfl
      simp [LeasePc.presented, hid]
  | _ => simp [LeasePc.presented]

section Moves

variable {config : RegistryConfig} {i : Nat} {h h' : RegistryShared}
  {pc pc' : RegistryPc} {log events : List RegistryLog} {c l : String}
  {e : RegistryEntry} {record : LeaseRecord}

theorem RegistryPc.afterRenew_presented {r : RegisterRequest} {lpc : LeasePc}
    (hafter : afterRenew r existing lpc = some pc') :
    pc'.presented ⊆ r.leaseId :: lpc.presented := by
  unfold afterRenew at hafter
  split at hafter
  · cases hafter
    simp [presented]
  · split at hafter <;> cases hafter <;> simp [presented]
  · cases hafter
  · cases hafter
    exact List.Subset.refl _

theorem RegistryMove.presented_subset
    (hmove : RegistryMove config i h pc h' pc' events) (hpc : pc.Owned h log i) :
    pc'.presented ⊆ pc.presented := by
  cases hmove with
  | claim hclaims hget howner =>
      have hlease := checkOwner_ok howner
      cases hclaims with
      | register r => simp [RegistryPc.presented, LeasePc.presented, hlease]
      | modifyAttrs r => simp [RegistryPc.presented]
  | read hreads => cases hreads <;> simp [RegistryPc.presented]
  | renew hstep hafter =>
      have hsub := (LeaseMove.of_advance hstep).presented_subset
        (Q := fun _ _ => True) (by cases hpc.2 <;> trivial)
      exact List.Subset.trans (RegistryPc.afterRenew_presented hafter)
        (List.cons_subset_cons _ hsub)
  | lease hstep => exact (LeaseMove.of_advance hstep).presented_subset hpc.1
  | _ => simp [RegistryPc.presented]

end Moves

/-- No call under way was given the lease id. -/
def RegistryProc.Spared (l : String) (s : RegistryProc) : Prop :=
  ∀ pc ∈ s.tasks, l ∉ pc.presented

theorem RegistryProc.Spared.step {config : RegistryConfig} {l : String}
    {s s' : RegistryProc} {act : RegistryAct} (hspared : s.Spared l)
    (hreach : RegistryReachable config s) (hnames : l ∉ act.names)
    (hstep : (registryProgram config).step s act = some s') : s'.Spared l := by
  intro pc hpc
  obtain ⟨j, hj⟩ := List.mem_iff_getElem?.mp hpc
  rcases Program.task_origin hstep hj with
    hold | ⟨choice, old, events, rfl, hold, hadv⟩ | ⟨rfl, -⟩ |
      ⟨event, spawned, rfl, hamb, hspawned⟩
  · exact hspared pc (List.mem_of_getElem? hold)
  · intro hmem
    have hsub := (RegistryMove.of_advance hadv).presented_subset
      (hreach.owned.2 j old hold)
    exact hspared old (List.mem_of_getElem? hold) (hsub hmem)
  · exact hnames
  · obtain ⟨-, -, -, hunregister⟩ := RegistryShared.ambient_later hamb
    obtain ⟨e, -, rfl⟩ := hunregister pc hspawned
    simp [RegistryPc.presented]

/-! ## The entry stays -/

theorem LeaseMove.lease_kept {config : LeaseConfig}
    {record : LeaseRecord} (hmove : LeaseMove config a pc a' pc')
    (hsound : a.Sound Q) (hlapsed : pc.Lapsed a.now)
    (hget : a.leases.leases[l]? = some record) (hspared : l ∉ pc.presented)
    (halive : a.now < record.expiresAt) :
    a'.leases.leases[l]? = some record := by
  cases hmove with
  | grant hu hgrant =>
      obtain ⟨-, -, rfl⟩ := Landlord.grant_eq_ok hgrant
      rw [get_insert, if_neg]
      · exact hget
      · rintro rfl
        exact hu (hsound.stored _ _ hget).2.1
  | renewed =>
      rw [get_insert, if_neg]
      · exact hget
      · rintro rfl
        simp [LeasePc.presented] at hspared
  | cancelled | cancelledUnknown =>
      rw [get_erase, if_neg]
      · exact hget
      · rintro rfl
        simp [LeasePc.presented] at hspared
  | @removed listed cur todo removed hcur hsame =>
      rw [get_erase, if_neg]
      · exact hget
      · rintro rfl
        -- the sweep listed the lease when its term was over
        obtain rfl := Option.some.inj (hcur.symm.trans hget)
        have hle := hlapsed listed List.mem_cons_self
        rw [← hsame] at hle
        exact absurd halive (not_lt.mpr hle)
  | _ => exact hget

section Kept

variable {config : RegistryConfig} {i : Nat} {h h' : RegistryShared}
  {pc pc' : RegistryPc} {log events : List RegistryLog} {c : String}
  {e : RegistryEntry} {record : LeaseRecord}

theorem RegistryMove.lease_kept
    (hmove : RegistryMove config i h pc h' pc' events) (howned : Owned h log)
    (hpc : pc.Owned h log i)
    (hget : h.landlord.leases.leases[l]? = some record)
    (hspared : l ∉ pc.presented)
    (halive : h.landlord.now < record.expiresAt) :
    h'.landlord.leases.leases[l]? = some record := by
  cases hmove with
  | draw hc hl hgrant =>
      obtain ⟨-, -, rfl⟩ := Landlord.grant_eq_ok hgrant
      rw [get_insert, if_neg]
      · exact hget
      · rintro rfl
        exact hl (List.mem_cons_of_mem _ (howned.sound.stored _ _ hget).2.1)
  | renew hstep =>
      refine (LeaseMove.of_advance hstep).lease_kept howned.sound
        (by cases hpc.2 <;> trivial) hget (fun hmem => hspared ?_) halive
      exact List.mem_cons_of_mem _ hmem
  | lease hstep =>
      exact (LeaseMove.of_advance hstep).lease_kept howned.sound hpc.2 hget
        hspared halive
  | _ => exact hget

theorem RegistryPc.Updates.presents {entry : RegistryEntry}
    {reply : RegistryReply} (hupdates : pc.Updates existing entry reply)
    (hpc : pc.Owned h log i) : entry.leaseId ∈ pc.presented := by
  cases hupdates with
  | entry r existing renewed =>
      have hread : ReadEntry log r.capabilityId r.leaseId existing := hpc
      simp [presented, RegistryHost.reregistered, hread.lease]
  | attrs r existing =>
      have hread : ReadEntry log r.capabilityId r.leaseId existing := hpc
      simp [presented, RegistryHost.modified, hread.lease]

theorem RegistryMove.entry_kept
    (hmove : RegistryMove config i h pc h' pc' events) (howned : Owned h log)
    (hpc : pc.Owned h log i) (hentry : h.store.get c = some e)
    (hget : h.landlord.leases.leases[e.leaseId]? = some record)
    (hspared : e.leaseId ∉ pc.presented) : h'.store.get c = some e := by
  unfold InMemoryRegistryStore.get at hentry ⊢
  cases hmove with
  | insert =>
      obtain ⟨-, hnone, -⟩ := hpc
      simp only [InMemoryRegistryStore.insert]
      rw [get_insert, if_neg]
      · exact hentry
      · rintro rfl
        simp [hnone] at hentry
  | @update pc existing entry reply hupdates =>
      unfold InMemoryRegistryStore.update
      split
      · rw [get_insert, if_neg]
        · exact hentry
        · rintro rfl
          -- the call presented the lease of what it writes back
          have hlease := (howned.matched (hupdates.drew hpc)).capability e hentry
          refine hspared (hlease ▸ ?_)
          exact hupdates.presents hpc
      · exact hentry
  | @unregister l | @unregisterNone l =>
      refine howned.indexed.get_removeByLease hentry ?_
      rintro rfl
      have hgone : h.landlord.Gone e.leaseId := hpc
      rw [hgone.2] at hget
      cases hget
  | _ => exact hentry

end Kept

/-- The entry `e` of `c` is there, its lease too, and no call under way was
given it. -/
structure LeaseHeld (config : RegistryConfig) (c : String) (e : RegistryEntry)
    (record : LeaseRecord) (s : RegistryProc) : Prop where
  reach : RegistryReachable config s
  entry : s.shared.store.get c = some e
  lease : s.shared.landlord.leases.leases[e.leaseId]? = some record
  spared : s.Spared e.leaseId

section Run

variable {config : RegistryConfig} {s s' : RegistryProc} {act : RegistryAct}
  {acts : List RegistryAct} {c : String} {e : RegistryEntry}
  {record : LeaseRecord}

theorem now_le_of_step (hstep : (registryProgram config).step s act = some s') :
    s.shared.landlord.now ≤ s'.shared.landlord.now := by
  cases act with
  | call pc =>
      obtain ⟨-, rfl⟩ := Program.step_call.mp hstep
      exact le_refl _
  | step i choice =>
      obtain ⟨pc, h', pc', events, -, hadv, rfl⟩ := Program.step_step.mp hstep
      exact le_of_eq (RegistryMove.of_advance hadv).now_eq.symm
  | ambient event =>
      obtain ⟨h', spawned, hamb, rfl⟩ := Program.step_ambient.mp hstep
      exact (RegistryShared.ambient_later hamb).2.1

theorem now_le_of_run (hrun : run (registryProgram config).step s acts = some s') :
    s.shared.landlord.now ≤ s'.shared.landlord.now :=
  Reachable.invariant
    (P := fun s' => s.shared.landlord.now ≤ s'.shared.landlord.now) (le_refl _)
    (fun _ _ _ _ hle hstep => le_trans hle (now_le_of_step hstep)) ⟨_, hrun⟩

theorem LeaseHeld.step (hheld : LeaseHeld config c e record s)
    (hnames : e.leaseId ∉ act.names)
    (hstep : (registryProgram config).step s act = some s')
    (halive : s'.shared.landlord.now < record.expiresAt) :
    LeaseHeld config c e record s' := by
  have hspared := hheld.spared.step hheld.reach hnames hstep
  have hreach : RegistryReachable config s' := hheld.reach.tail hstep
  have hnow := lt_of_le_of_lt (now_le_of_step hstep) halive
  obtain ⟨howned, hpcs⟩ := hheld.reach.owned
  cases act with
  | call pc =>
      obtain ⟨-, rfl⟩ := Program.step_call.mp hstep
      exact ⟨hreach, hheld.entry, hheld.lease, hspared⟩
  | step i choice =>
      obtain ⟨pc, h', pc', events, hpc, hadv, rfl⟩ := Program.step_step.mp hstep
      have hmove := RegistryMove.of_advance hadv
      have hpcs := hpcs i pc hpc
      have hnot := hheld.spared pc (List.mem_of_getElem? hpc)
      exact ⟨hreach, hmove.entry_kept howned hpcs hheld.entry hheld.lease hnot,
        hmove.lease_kept howned hpcs hheld.lease hnot hnow, hspared⟩
  | ambient event =>
      obtain ⟨h', spawned, hamb, rfl⟩ := Program.step_ambient.mp hstep
      refine ⟨hreach, ?_, ?_, hspared⟩
      · exact RegistryShared.ambient_store hamb ▸ hheld.entry
      · exact (RegistryShared.ambient_landlord hamb).1 ▸ hheld.lease

theorem LeaseHeld.run (hheld : LeaseHeld config c e record s)
    (hnames : ∀ a ∈ acts, e.leaseId ∉ a.names)
    (hrun : Support.run (registryProgram config).step s acts = some s')
    (halive : s'.shared.landlord.now < record.expiresAt) :
    LeaseHeld config c e record s' := by
  induction acts generalizing s with
  | nil => exact Option.some.inj hrun ▸ hheld
  | cons a acts ih =>
      obtain ⟨m, hstep, hrest⟩ := run_cons_eq_some.mp hrun
      refine ih (hheld.step (hnames a List.mem_cons_self) hstep ?_)
        (fun b hb => hnames b (List.mem_cons_of_mem a hb)) hrest
      exact lt_of_le_of_lt (now_le_of_run hrest) halive

/-! ## Nobody else learns the name of the lease -/

/-- The ids in a call's state after a move: those it had, and drawn ids other
than that of a lease that runs. -/
theorem LeaseMove.leaseIds_cases {config : LeaseConfig}
    (hmove : LeaseMove config a pc a' pc') (hsound : a.Sound Q)
    (hget : a.leases.leases[l]? = some record)
    (halive : a.now < record.expiresAt) (hx : x ∈ pc'.leaseIds) :
    x ∈ pc.leaseIds ∨ x ∈ a'.uuids ∧ x ≠ l := by
  cases hmove with
  | @grant resourceId u ttlSecs granted _ hu hgrant =>
      obtain ⟨hid, -, rfl⟩ := Landlord.grant_eq_ok hgrant
      obtain rfl : x = u := by simpa [LeasePc.leaseIds, hid] using hx
      refine .inr ⟨List.mem_cons_self, ?_⟩
      rintro rfl
      exact hu (hsound.stored _ _ hget).2.1
  | @renewed leaseId ttlSecs old expiry hold =>
      obtain rfl : x = old.leaseId := by simpa [LeasePc.leaseIds] using hx
      exact .inl (by simp [LeasePc.leaseIds, (hsound.stored _ _ hold).1])
  | @cancelRead leaseId =>
      left
      simp only [LeasePc.leaseIds, List.mem_cons] at hx ⊢
      rcases hx with hx | hx
      · exact .inl hx
      · obtain ⟨old, hold, rfl⟩ := List.mem_map.mp hx
        exact .inl (hsound.stored _ _ (Option.mem_toList.mp hold)).1
  | @listed it =>
      simp only [LeasePc.leaseIds, List.append_nil, List.mem_map,
        InMemoryLeaseStore.listExpired, List.mem_filter] at hx
      obtain ⟨r, ⟨⟨⟨k, r'⟩, hmem, rfl⟩, hexpired⟩, rfl⟩ := hx
      have hk := it.mem_entries.mp hmem
      obtain ⟨hid, huuid, -⟩ := hsound.stored _ _ hk
      refine .inr ⟨hid ▸ huuid, ?_⟩
      rintro rfl
      rw [hid] at hget
      obtain rfl := Option.some.inj (hk.symm.trans hget)
      exact absurd halive
        (not_lt.mpr (LeaseRecord.expiresAt_le_of_isExpired hexpired))
  | grantFailed | renewRefused | renewRead | renewFailed | cancelled
  | cancelledUnknown | cancelSent | removed | kept | drained | announced
  | swept =>
      left
      simp only [LeasePc.leaseIds, List.map_append, List.map_cons, List.map_nil,
        List.mem_append, List.mem_cons, Option.toList] at hx ⊢
      tauto

theorem RegistryPc.afterRenew_leaseIds {r : RegisterRequest} {lpc : LeasePc} {pc' : RegistryPc}
    (hafter : afterRenew r existing lpc = some pc') :
    pc'.leaseIds ⊆ r.leaseId :: existing.leaseId :: lpc.leaseIds := by
  unfold afterRenew at hafter
  split at hafter
  · cases hafter
    simp [leaseIds]
  · split at hafter <;> cases hafter <;>
      simp [leaseIds, RegistryReply.leaseIds, LeasePc.leaseIds]
  · cases hafter
  · cases hafter
    exact List.Subset.refl _

theorem RegistryMove.leaseIds_cases {i : Nat} {h h' : RegistryShared}
    {pc pc' : RegistryPc} {log events : List RegistryLog}
    (hmove : RegistryMove config i h pc h' pc' events) (howned : Owned h log)
    (hget : h.landlord.leases.leases[l]? = some record)
    (halive : h.landlord.now < record.expiresAt) (hx : x ∈ pc'.leaseIds) :
    x ∈ pc.leaseIds ∨ x ∈ h'.landlord.uuids ∧ x ≠ l := by
  cases hmove with
  | claim hclaims _ howner =>
      have hlease := checkOwner_ok howner
      left
      cases hclaims with
      | register r =>
          simpa [RegistryPc.leaseIds, LeasePc.leaseIds, hlease] using hx
      | modifyAttrs r => simpa [RegistryPc.leaseIds, hlease] using hx
  | refuse => cases hx
  | read hreads =>
      cases hreads with
      | lookup template answer => cases answer <;> cases hx
      | _ => cases hx
  | @draw r c u granted landlord entry hc hu hgrant hentry =>
      obtain ⟨hid, -, rfl⟩ := Landlord.grant_eq_ok hgrant
      obtain rfl : x = u := by
        subst hentry
        simpa [RegistryPc.leaseIds, hid] using hx
      refine .inr ⟨List.mem_cons_self, ?_⟩
      rintro rfl
      exact hu (List.mem_cons_of_mem _ (howned.sound.stored _ _ hget).2.1)
  | drawFailed | unregisterNone => cases hx
  | insert =>
      exact .inl (by simpa [RegistryPc.leaseIds, RegistryReply.leaseIds] using hx)
  | update hupdates =>
      left
      cases hupdates with
      | entry r existing renewed =>
          refine List.mem_cons_of_mem _ ?_
          simpa [RegistryPc.leaseIds, RegistryReply.leaseIds,
            RegistryHost.reregistered] using hx
      | attrs r existing =>
          refine List.mem_cons_of_mem _ ?_
          simpa [RegistryPc.leaseIds, RegistryReply.leaseIds,
            RegistryHost.modified] using hx
  | send => exact .inl (List.mem_cons_of_mem _ hx)
  | unregister hremoved =>
      have hid := howned.indexed.leaseId_of_removed hremoved
      exact .inl (by simpa [RegistryPc.leaseIds, RegistryReply.leaseIds, hid]
        using hx)
  | renew hstep hafter =>
      have hx' := RegistryPc.afterRenew_leaseIds hafter hx
      simp only [List.mem_cons] at hx'
      rcases hx' with hx' | hx' | hx'
      · exact .inl (by simp [RegistryPc.leaseIds, hx'])
      · exact .inl (by simp [RegistryPc.leaseIds, hx'])
      · refine ((LeaseMove.of_advance hstep).leaseIds_cases howned.sound hget
          halive hx').imp_left fun hmem => ?_
        simp [RegistryPc.leaseIds, hmem]
  | lease hstep =>
      exact (LeaseMove.of_advance hstep).leaseIds_cases howned.sound hget halive hx

/-- The call `i`, if it is there, has neither of the two ids in its state. -/
def RegistryProc.Blind (l l' : String) (i : Nat) (s : RegistryProc) : Prop :=
  ∀ pc, s.tasks[i]? = some pc → l ∉ pc.leaseIds ∧ l' ∉ pc.leaseIds

theorem LeaseHeld.blind_step {l' : String} {i : Nat} (hheld : LeaseHeld config c e record s)
    (halive : s.shared.landlord.now < record.expiresAt)
    (hblind : s.Blind e.leaseId l' i) (hnames : e.leaseId ∉ act.names)
    (hnames' : l' ∉ act.names)
    (hstep : (registryProgram config).step s act = some s')
    (hfresh : l' ∉ s'.shared.landlord.uuids) : s'.Blind e.leaseId l' i := by
  intro pc hpc
  obtain ⟨howned, -⟩ := hheld.reach.owned
  rcases Program.task_origin hstep hpc with
    hold | ⟨choice, old, events, rfl, hold, hadv⟩ | ⟨rfl, hentry⟩ |
      ⟨event, spawned, rfl, hamb, hspawned⟩
  · exact hblind pc hold
  · -- what comes into the state of the call is a drawn id of another lease
    have hcases := fun x hx => (RegistryMove.of_advance hadv).leaseIds_cases
      howned hheld.lease halive (x := x) hx
    obtain ⟨hl, hl'⟩ := hblind old hold
    exact ⟨fun hmem => (hcases _ hmem).elim hl fun h => h.2 rfl,
      fun hmem => (hcases _ hmem).elim hl' fun h => hfresh h.1⟩
  · rw [← pc.leaseIds_of_entry hentry]
    exact ⟨hnames, hnames'⟩
  · -- a handler of the cascade is for a lease that is gone
    obtain ⟨hlater, -, -, hunregister⟩ := RegistryShared.ambient_later hamb
    obtain ⟨sent, hsent, rfl⟩ := hunregister pc hspawned
    have hgone := (howned.sound.sent sent hsent).1
    simp only [RegistryPc.leaseIds, List.mem_singleton]
    refine ⟨?_, ?_⟩
    · rintro heq
      rw [← heq] at hgone
      exact absurd (hgone.2.symm.trans hheld.lease) (by simp)
    · rintro rfl
      exact hfresh (hlater.uuids hgone.1)

end Run

/-! ## Drawn identifiers -/

section Drawn

variable {config : RegistryConfig} {i : Nat} {h h' : RegistryShared}
  {pc pc' : RegistryPc} {events : List RegistryLog} {u : String}

theorem LeasePc.uuids_of_advance {config : LeaseConfig}
    {pc pc' : LeasePc} {choice : LeaseChoice}
    (hstep : pc.advance config a choice = some (a', pc')) (hu : u ∈ a'.uuids) :
    u ∈ a.uuids ∨ u ∈ choice.drawn := by
  unfold LeasePc.advance at hstep
  split at hstep
  · next drawn =>
    split at hstep
    · cases hstep
    · split at hstep <;> cases hstep
      · exact .inl hu
      · next hgrant =>
        obtain ⟨-, -, rfl⟩ := Landlord.grant_eq_ok hgrant
        simpa [LeaseChoice.drawn, or_comm] using hu
  · split at hstep
    · cases hstep
      exact .inl hu
    · split at hstep <;> cases hstep <;> exact .inl hu
  · split at hstep <;> cases hstep <;> exact .inl hu
  · cases hstep
    exact .inl hu
  · next record =>
    cases record <;> cases hstep <;> exact .inl hu
  all_goals
    cases hstep
    try exact .inl hu

theorem RegistryPc.landlord_of_go (hstep : pc.go i h = some (h', pc', events)) :
    h'.landlord = h.landlord := by
  have hclaim : ∀ {c l : String} {owned : RegistryEntry → RegistryPc},
      claim h c l owned = some (h', pc', events) → h'.landlord = h.landlord := by
    intro c l owned hstep
    unfold claim at hstep
    split at hstep
    · cases hstep
      rfl
    · split at hstep <;> cases hstep <;> rfl
  cases pc with
  | register r =>
      simp only [go] at hstep
      split at hstep
      · exact hclaim hstep
      · cases hstep
  | modifyAttrs r => exact hclaim hstep
  | watching =>
      simp only [go] at hstep
      split at hstep <;> cases hstep
      rfl
  | _ =>
      cases hstep
      try rfl

theorem RegistryPc.uuids_of_advance {choice : RegistryChoice}
    (hstep : pc.advance config i h choice = some (h', pc', events))
    (hu : u ∈ h'.landlord.uuids) :
    u ∈ h.landlord.uuids ∨ u ∈ choice.drawn := by
  cases choice with
  | go => exact .inl (landlord_of_go hstep ▸ hu)
  | uuids c l =>
      simp only [advance] at hstep
      cases pc with
      | register r =>
          simp only [draw] at hstep
          split at hstep
          · cases hstep
          · split at hstep <;> cases hstep
            · simp only [List.mem_cons] at hu
              simp only [RegistryChoice.drawn, List.mem_cons]
              tauto
            · next hgrant =>
              obtain ⟨-, -, rfl⟩ := Landlord.grant_eq_ok hgrant
              simp only [List.mem_cons] at hu
              simp only [RegistryChoice.drawn, List.mem_cons]
              tauto
      | _ => cases hstep
  | order it =>
      simp only [advance] at hstep
      cases pc with
      | lookup | lookupAll =>
          cases hstep
          exact .inl hu
      | _ => cases hstep
  | lease c =>
      simp only [advance] at hstep
      cases pc with
      | renew r existing lpc =>
          simp only [leaseStep] at hstep
          split at hstep
          · cases hstep
          · next hlease =>
            obtain ⟨pc₁, -, heq⟩ := Option.bind_eq_some_iff.mp hstep
            cases heq
            exact LeasePc.uuids_of_advance hlease hu
      | lease lpc =>
          simp only [leaseStep] at hstep
          split at hstep <;> cases hstep
          next hlease => exact LeasePc.uuids_of_advance hlease hu
      | _ => cases hstep

theorem uuids_of_step {s s' : RegistryProc} {act : RegistryAct}
    (hstep : (registryProgram config).step s act = some s')
    (hu : u ∈ s'.shared.landlord.uuids) :
    u ∈ s.shared.landlord.uuids ∨ u ∈ act.names := by
  cases act with
  | call pc =>
      obtain ⟨-, rfl⟩ := Program.step_call.mp hstep
      exact .inl hu
  | step i choice =>
      obtain ⟨pc, h', pc', events, -, hadv, rfl⟩ := Program.step_step.mp hstep
      exact RegistryPc.uuids_of_advance hadv hu
  | ambient event =>
      obtain ⟨h', spawned, hamb, rfl⟩ := Program.step_ambient.mp hstep
      exact .inl ((RegistryShared.ambient_landlord hamb).2 ▸ hu)

end Drawn

/-! ## Two runs -/

section TwoRuns

variable {config : RegistryConfig} {s s' t : RegistryProc}
  {acts : List RegistryAct} {c l' : String} {e : RegistryEntry}
  {record : LeaseRecord}

theorem swap_fixed {l' : String} {xs : List String} (hl : l ∉ xs)
    (hl' : l' ∉ xs) (hx : x ∈ xs) : Equiv.swap l l' x = x :=
  Equiv.swap_apply_of_ne_of_ne (fun heq => hl (heq ▸ hx))
    fun heq => hl' (heq ▸ hx)

/-- The run of the same actions from the renamed state, and the calls that do
not see the name. -/
theorem LeaseHeld.renamed_run (hheld : LeaseHeld config c e record s)
    (hnames : ∀ a ∈ acts, e.leaseId ∉ a.names)
    (hrun : Support.run (registryProgram config).step s acts = some s')
    (halive : s'.shared.landlord.now < record.expiresAt)
    (hfresh : l' ∉ s.shared.landlord.uuids) (hspared : s.Spared l')
    (hnames' : ∀ a ∈ acts, l' ∉ a.names)
    (hrenamed : s.Renamed (Equiv.swap e.leaseId l') t) :
    ∃ t', Support.run (registryProgram config).step t
        (acts.map (RegistryAct.rename (Equiv.swap e.leaseId l'))) = some t' ∧
      s'.Renamed (Equiv.swap e.leaseId l') t' ∧
      ∀ i, s.Blind e.leaseId l' i → s'.Blind e.leaseId l' i := by
  induction acts generalizing s t with
  | nil =>
      obtain rfl := Option.some.inj hrun
      exact ⟨t, rfl, hrenamed, fun _ hblind => hblind⟩
  | cons a acts ih =>
      obtain ⟨m, hstep, hrest⟩ := run_cons_eq_some.mp hrun
      have ha := hnames a List.mem_cons_self
      have ha' := hnames' a List.mem_cons_self
      have hnow := lt_of_le_of_lt (now_le_of_run hrest) halive
      have hfresh' : l' ∉ m.shared.landlord.uuids := fun hmem =>
        (uuids_of_step hstep hmem).elim hfresh ha'
      obtain ⟨n, hstep', hrenamed'⟩ := hrenamed.step
        (fun pc hpc x hx => swap_fixed (hheld.spared pc hpc) (hspared pc hpc) hx)
        (fun x hx => swap_fixed ha ha' hx) hstep
      obtain ⟨t', hrun', hrenamed'', hblind⟩ := ih (hheld.step ha hstep hnow)
        (fun b hb => hnames b (List.mem_cons_of_mem a hb)) hrest hfresh'
        (hspared.step hheld.reach ha' hstep)
        (fun b hb => hnames' b (List.mem_cons_of_mem a hb)) hrenamed'
      refine ⟨t', run_cons_eq_some.mpr ⟨n, hstep', hrun'⟩, hrenamed'',
        fun i hi => hblind i ?_⟩
      exact hheld.blind_step (lt_of_le_of_lt (now_le_of_step hstep) hnow) hi ha
        ha' hstep hfresh'

/-- Only a holder of its lease changes an entry, and the name of the lease is
hidden from everyone else. -/
theorem entry_kept_and_lease_hidden (hreach : RegistryReachable config s)
    (hentry : s.shared.store.get c = some e)
    (hlease : s.shared.landlord.leases.get e.leaseId = some record)
    (hspared : s.Spared e.leaseId) (hnames : ∀ a ∈ acts, e.leaseId ∉ a.names)
    (hrun : Support.run (registryProgram config).step s acts = some s')
    (halive : s'.shared.landlord.now < record.expiresAt) :
    (s'.shared.store.get c = some e ∧
      s'.shared.store.leaseIndex[e.leaseId]? = some c ∧
      s.shared.store.leaseIndex[e.leaseId]? = some c ∧
      ∀ it template, entryMatches template e = true → entryToCapability e ∈
        RegistryHost.lookupAll ⟨s'.shared.store, s'.shared.sent⟩ it template) ∧
    ∀ (l' : String) (t : RegistryProc), l' ∉ s.shared.landlord.uuids →
      (∀ pc ∈ s.tasks, l' ∉ pc.leaseIds) → (∀ a ∈ acts, l' ∉ a.names) →
      s.Renamed (Equiv.swap e.leaseId l') t →
      ∃ t', Support.run (registryProgram config).step t
          (acts.map (RegistryAct.rename (Equiv.swap e.leaseId l'))) = some t' ∧
        ∀ i : Nat, (∀ pc : RegistryPc, s.tasks[i]? = some pc →
          e.leaseId ∉ pc.leaseIds) → t'.tasks[i]? = s'.tasks[i]? := by
  have hheld : LeaseHeld config c e record s := ⟨hreach, hentry, hlease, hspared⟩
  have hheld' := hheld.run hnames hrun halive
  have hrow : ∀ {s : RegistryProc}, LeaseHeld config c e record s →
      s.shared.store.leaseIndex[e.leaseId]? = some c := fun hheld =>
    (hheld.reach.owned.1.indexed e.leaseId c).mpr ⟨e, hheld.entry, rfl⟩
  refine ⟨⟨hheld'.entry, hrow hheld', hrow hheld, fun it template hmatches => ?_⟩,
    fun l' t hfresh hids hnames' hrenamed => ?_⟩
  · refine List.mem_map.mpr ⟨e, List.mem_filter.mpr ⟨?_, hmatches⟩, rfl⟩
    exact List.mem_map.mpr ⟨(c, e), it.mem_entries.mpr hheld'.entry, rfl⟩
  · obtain ⟨t', hrun', hrenamed', hblind⟩ := hheld.renamed_run hnames hrun halive
      hfresh (fun pc hpc hmem => hids pc hpc (pc.presented_subset hmem)) hnames'
      hrenamed
    refine ⟨t', hrun', fun i hi => ?_⟩
    have hfixed := hblind i fun pc hpc =>
      ⟨hi pc hpc, hids pc (List.mem_of_getElem? hpc)⟩
    rw [hrenamed'.tasks, List.getElem?_map]
    cases hpc : s'.tasks[i]? with
    | none => rfl
    | some pc =>
        obtain ⟨hl, hl'⟩ := hfixed pc hpc
        exact congrArg some
          (RegistryPc.rename_of_fixed fun x hx => swap_fixed hl hl' hx)

end TwoRuns

/-- Another client tries a wrong lease id, watches, registers, and cancels a
lease that is not there. -/
def strangers : List RegistryAct :=
  [.call (.watch ∅), .step 1 .go,
    .call (.modifyAttrs ⟨"c", (∅ : Attrs).insert "zone" "a", [], "x"⟩),
    .step 2 .go,
    .call (.register ⟨"Greeter", ∅, 60, none, "", ""⟩),
    .step 3 (.uuids "d" "k"), .step 3 .go, .step 3 .go, .step 1 .go,
    .call (.lease (.cancel "x")), .step 4 (.lease .go), .step 4 (.lease .go),
    .ambient (.tick 1000), .call (.lookupAll ∅), .step 5 (.order .sorted)]

def afterStrangers : RegistryProc :=
  (run (registryProgram registryDefaults).step registered strangers).get
    (by decide +kernel)

def registeredLease : LeaseRecord :=
  (registered.shared.landlord.leases.get registeredEntry.leaseId).get
    (by decide +kernel)

/-- The Registry with one entry, its lease under the name `m`. -/
def registeredElsewhere : RegistryProc where
  shared := registered.shared.rename (Equiv.swap registeredEntry.leaseId "m")
  tasks := registered.tasks.map
    (RegistryPc.rename (Equiv.swap registeredEntry.leaseId "m"))
  log := []

theorem entry_kept_and_lease_hidden_from_strangers :
    afterStrangers.shared.store.get "c" = some registeredEntry ∧
      ∃ t', run (registryProgram registryDefaults).step registeredElsewhere
          (strangers.map (RegistryAct.rename
            (Equiv.swap registeredEntry.leaseId "m"))) = some t' ∧
        ∀ i, 1 ≤ i → t'.tasks[i]? = afterStrangers.tasks[i]? := by
  have hentry : registered.shared.store.get "c" = some registeredEntry :=
    (Option.some_get _).symm
  have hlease : registered.shared.landlord.leases.get registeredEntry.leaseId =
      some registeredLease := (Option.some_get _).symm
  have hspared : registered.Spared registeredEntry.leaseId := by
    unfold RegistryProc.Spared
    decide +kernel
  have hall : strangers.all (fun a =>
      registeredEntry.leaseId ∉ a.names ∧ "m" ∉ a.names) = true := by
    decide +kernel
  have hnames : ∀ a ∈ strangers,
      registeredEntry.leaseId ∉ a.names ∧ "m" ∉ a.names := fun a ha =>
    of_decide_eq_true (List.all_eq_true.mp hall a ha)
  have hrun : run (registryProgram registryDefaults).step registered strangers =
      some afterStrangers := (Option.some_get _).symm
  obtain ⟨⟨hkept, -⟩, hhidden⟩ := entry_kept_and_lease_hidden
    registered_reachable hentry hlease hspared (fun a ha => (hnames a ha).1) hrun
    (by decide +kernel)
  obtain ⟨t', hrun', hsame⟩ := hhidden "m" registeredElsewhere
    (by decide +kernel) (by decide +kernel) (fun a ha => (hnames a ha).2)
    ⟨rfl, rfl⟩
  refine ⟨hkept, t', hrun', fun i hi => hsame i fun pc hpc => ?_⟩
  have hlength : registered.tasks.length = 1 := by decide +kernel
  have hlt := (List.getElem?_eq_some_iff.mp hpc).1
  omega

end Coordin8
