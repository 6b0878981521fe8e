import Coordin8.Lease.Manager

/-!
# Reclaimed leases

A lease that the manager announces as reclaimed is no longer in the store, and
never comes back: identifiers are drawn once, and a renewal needs the lease to
be there.  `Landlord.Sound` and `LeasePc.Sound` carry this through every move of
every call, together with any property `Q` of a lease's id and resource that
holds when it is granted.
-/

namespace Coordin8

open Support Support.DashMap

/-- The lease was there and is not any more. -/
def Landlord.Gone (l : Landlord) (leaseId : String) : Prop :=
  leaseId ∈ l.uuids ∧ l.leases.leases[leaseId]? = none

/-- What stays true as a landlord goes on. -/
structure Landlord.Later (l l' : Landlord) : Prop where
  uuids : l.uuids ⊆ l'.uuids
  gone : ∀ leaseId, l.Gone leaseId → l'.Gone leaseId
  sent : l.sent ⊆ l'.sent

theorem Landlord.Later.refl (l : Landlord) : l.Later l :=
  ⟨List.Subset.refl _, fun _ h => h, List.Subset.refl _⟩

variable {l l' : Landlord} {config : LeaseConfig} {pc pc' : LeasePc}

theorem Landlord.Later.trans {l'' : Landlord} (h : l.Later l')
    (h' : l'.Later l'') : l.Later l'' :=
  ⟨List.Subset.trans h.uuids h'.uuids,
    fun _ hgone => h'.gone _ (h.gone _ hgone),
    List.Subset.trans h.sent h'.sent⟩

theorem Landlord.Later.of_eq (huuids : l'.uuids = l.uuids)
    (hleases : l'.leases = l.leases) (hsent : l'.sent = l.sent) :
    l.Later l' := by
  refine ⟨huuids ▸ List.Subset.refl _, fun leaseId hgone => ?_,
    hsent ▸ List.Subset.refl _⟩
  exact ⟨huuids ▸ hgone.1, hleases ▸ hgone.2⟩

section Grant

variable {config : LeaseConfig} {l l' : Landlord} {u resourceId : String}
  {ttlSecs : UInt64} {record : LeaseRecord}

theorem Landlord.Later.grant (hu : u ∉ l.uuids)
    (hgrant : l.grant config u resourceId ttlSecs = .ok (record, l')) :
    l.Later l' := by
  obtain ⟨-, -, rfl⟩ := Landlord.grant_eq_ok hgrant
  refine ⟨List.subset_cons_self _ _, ?_, List.Subset.refl _⟩
  rintro leaseId ⟨hmem, hnone⟩
  have hne : u ≠ leaseId := fun heq => hu (heq ▸ hmem)
  exact ⟨List.mem_cons_of_mem _ hmem, by simp [get_insert, hne, hnone]⟩

end Grant

theorem Landlord.Later.draw (l : Landlord) (u : String) :
    l.Later { l with uuids := u :: l.uuids } :=
  ⟨List.subset_cons_self _ _, fun _ hgone =>
    ⟨List.mem_cons_of_mem _ hgone.1, hgone.2⟩, List.Subset.refl _⟩

theorem Landlord.Later.erase (l : Landlord) (leaseId : String) :
    l.Later { l with leases := ⟨l.leases.leases.erase leaseId⟩ } := by
  refine ⟨List.Subset.refl _, ?_, List.Subset.refl _⟩
  rintro id ⟨hmem, hnone⟩
  exact ⟨hmem, by simp [get_erase, hnone]⟩

theorem Landlord.Later.send (l : Landlord) (record : LeaseRecord)
    (reason : ReclaimReason) : l.Later (l.send record reason) :=
  ⟨List.Subset.refl _, fun _ h => h, List.subset_append_left _ _⟩

theorem LeaseMove.later (hmove : LeaseMove config l pc l' pc') : l.Later l' := by
  cases hmove with
  | grant hu hgrant => exact .grant hu hgrant
  | @renewed leaseId _ record _ hget =>
      refine ⟨List.Subset.refl _, ?_, List.Subset.refl _⟩
      rintro id ⟨hmem, hnone⟩
      have hne : leaseId ≠ id := by
        rintro rfl
        simp [hget] at hnone
      exact ⟨hmem, by simp [get_insert, hne, hnone]⟩
  | cancelled | cancelledUnknown | removed => exact .erase l _
  | cancelSent | announced => exact .send l _ _
  | _ => exact .refl l

/-! ## The invariant -/

section Sound

variable (Q : String → String → Prop)

/-- The leases in the store, and those announced as reclaimed. -/
structure Landlord.Sound (l : Landlord) : Prop where
  stored : ∀ k record, l.leases.leases[k]? = some record →
    record.leaseId = k ∧ k ∈ l.uuids ∧ Q k record.resourceId
  sent : ∀ e ∈ l.sent, l.Gone e.record.leaseId ∧
    Q e.record.leaseId e.record.resourceId

/-- The record is that of a lease that is gone. -/
def Reclaimed (l : Landlord) (record : LeaseRecord) : Prop :=
  l.Gone record.leaseId ∧ Q record.leaseId record.resourceId

/-- The record is that of a lease once granted. -/
def Granted (l : Landlord) (record : LeaseRecord) : Prop :=
  record.leaseId ∈ l.uuids ∧ Q record.leaseId record.resourceId

/-- The leases that a call has read, and those that it has removed. -/
def LeasePc.Sound (l : Landlord) : LeasePc → Prop
  | .cancelStore leaseId record =>
      ∀ r, record = some r → r.leaseId = leaseId ∧ Granted Q l r
  | .cancelSend record => Reclaimed Q l record
  | .drainRemove todo removed =>
      (∀ r ∈ todo, Granted Q l r) ∧ ∀ r ∈ removed, Reclaimed Q l r
  | .announce removed => ∀ r ∈ removed, Reclaimed Q l r
  | _ => True

variable {Q} {Q' : String → String → Prop} {l l' : Landlord}
  {record : LeaseRecord}

theorem Reclaimed.later (h : Reclaimed Q l record) (hlater : l.Later l')
    (hQ : ∀ u r, u ∈ l.uuids → Q u r → Q' u r) : Reclaimed Q' l' record :=
  ⟨hlater.gone _ h.1, hQ _ _ h.1.1 h.2⟩

theorem Granted.later (h : Granted Q l record) (hlater : l.Later l')
    (hQ : ∀ u r, u ∈ l.uuids → Q u r → Q' u r) : Granted Q' l' record :=
  ⟨hlater.uuids h.1, hQ _ _ h.1 h.2⟩

theorem LeasePc.Sound.later (h : pc.Sound Q l)
    (hlater : l.Later l') (hQ : ∀ u r, u ∈ l.uuids → Q u r → Q' u r) :
    pc.Sound Q' l' := by
  cases pc with
  | cancelStore leaseId rec =>
      exact fun r hr => ⟨(h r hr).1, (h r hr).2.later hlater hQ⟩
  | cancelSend rec => exact Reclaimed.later h hlater hQ
  | drainRemove todo removed =>
      exact ⟨fun r hr => (h.1 r hr).later hlater hQ,
        fun r hr => (h.2 r hr).later hlater hQ⟩
  | announce removed => exact fun r hr => (h r hr).later hlater hQ
  | _ => trivial

theorem Landlord.Sound.weaken (h : l.Sound Q)
    (hQ : ∀ u r, u ∈ l.uuids → Q u r → Q' u r) : l.Sound Q' := by
  refine ⟨fun k record hk => ?_, fun e he => ?_⟩
  · obtain ⟨hid, hmem, hq⟩ := h.stored k record hk
    exact ⟨hid, hmem, hQ _ _ hmem hq⟩
  · obtain ⟨hgone, hq⟩ := h.sent e he
    exact ⟨hgone, hQ _ _ hgone.1 hq⟩

/-- A landlord that sends nothing new, and stores what it should. -/
theorem Landlord.Sound.of_stored (h : l.Sound Q) (hlater : l.Later l')
    (hsent : l'.sent = l.sent)
    (hstored : ∀ (k : String) (record : LeaseRecord),
      l'.leases.leases[k]? = some record →
        record.leaseId = k ∧ k ∈ l'.uuids ∧ Q k record.resourceId) :
    l'.Sound Q := by
  refine ⟨hstored, fun e he => ?_⟩
  rw [hsent] at he
  exact ⟨hlater.gone _ (h.sent e he).1, (h.sent e he).2⟩

theorem Landlord.Sound.grant {config : LeaseConfig} {u resourceId : String}
    {ttlSecs : UInt64} (h : l.Sound Q) (hu : u ∉ l.uuids)
    (hgrant : l.grant config u resourceId ttlSecs = .ok (record, l'))
    (hQ : Q u resourceId) : l'.Sound Q := by
  have hlater := Landlord.Later.grant hu hgrant
  obtain ⟨hid, hresource, rfl⟩ := Landlord.grant_eq_ok hgrant
  refine h.of_stored hlater rfl fun k record' hk => ?_
  rw [get_insert] at hk
  split at hk
  · next heq =>
    obtain rfl := Option.some.inj hk
    subst heq
    exact ⟨hid, List.mem_cons_self, hresource ▸ hQ⟩
  · obtain ⟨hid', hmem, hQ'⟩ := h.stored k record' hk
    exact ⟨hid', List.mem_cons_of_mem _ hmem, hQ'⟩

theorem Landlord.Sound.draw (h : l.Sound Q) (u : String) :
    Landlord.Sound Q { l with uuids := u :: l.uuids } := by
  refine h.of_stored (.draw l u) rfl fun k record hk => ?_
  obtain ⟨hid, hmem, hQ⟩ := h.stored k record hk
  exact ⟨hid, List.mem_cons_of_mem _ hmem, hQ⟩

theorem Landlord.Sound.erase (h : l.Sound Q) (leaseId : String) :
    Landlord.Sound Q { l with leases := ⟨l.leases.leases.erase leaseId⟩ } := by
  refine h.of_stored (.erase l leaseId) rfl fun k record hk => ?_
  simp only [get_erase] at hk
  split at hk
  · cases hk
  · exact h.stored k record hk

theorem Landlord.Sound.send (h : l.Sound Q) (hrecord : Reclaimed Q l record)
    (reason : ReclaimReason) : (l.send record reason).Sound Q := by
  refine ⟨h.stored, fun e he => ?_⟩
  rcases List.mem_append.mp he with he | he
  · exact h.sent e he
  · obtain rfl := List.mem_singleton.mp he
    exact hrecord

theorem Landlord.Sound.granted (h : l.Sound Q) {k : String}
    (hk : l.leases.leases[k]? = some record) :
    record.leaseId = k ∧ Granted Q l record := by
  obtain ⟨rfl, hmem, hQ⟩ := h.stored k record hk
  exact ⟨rfl, hmem, hQ⟩

theorem Reclaimed.of_erase (h : Granted Q l record) :
    Reclaimed Q
      { l with leases := ⟨l.leases.leases.erase record.leaseId⟩ } record :=
  ⟨⟨h.1, by simp⟩, h.2⟩

theorem LeaseMove.sound_of_fresh
    (hmove : LeaseMove config l pc l' pc') (hl : l.Sound Q)
    (hpc : pc.Sound Q l)
    (hgrant : ∀ resourceId ttlSecs u, pc = .grant resourceId ttlSecs →
      u ∉ l.uuids → (∃ record, pc' = .returned (.ok (some record))) →
      Q u resourceId) :
    l'.Sound Q ∧ pc'.Sound Q l' := by
  have hlater := hmove.later
  cases hmove with
  | @grant resourceId u ttlSecs _ _ hu hok =>
      exact ⟨hl.grant hu hok (hgrant resourceId ttlSecs u rfl hu ⟨_, rfl⟩),
        trivial⟩
  | @renewed leaseId ttlSecs record expiry hget =>
      refine ⟨hl.of_stored hlater rfl fun k record' hk => ?_, trivial⟩
      simp only [get_insert] at hk
      split at hk
      · next heq =>
        obtain rfl := Option.some.inj hk
        subst heq
        exact hl.stored _ record hget
      · exact hl.stored k record' hk
  | cancelRead => exact ⟨hl, fun r hr => hl.granted hr⟩
  | @cancelled leaseId record =>
      obtain ⟨rfl, hgranted⟩ := hpc record rfl
      exact ⟨hl.erase _, .of_erase hgranted⟩
  | cancelledUnknown => exact ⟨hl.erase _, trivial⟩
  | cancelSent => exact ⟨hl.send hpc _, trivial⟩
  | @listed it =>
      refine ⟨hl, fun r hr => ?_, by simp⟩
      simp only [InMemoryLeaseStore.listExpired, List.mem_filter,
        List.mem_map] at hr
      obtain ⟨⟨⟨k, r'⟩, hmem, rfl⟩, -⟩ := hr
      exact (hl.granted ((it.mem_entries).mp hmem)).2
  | @removed record cur todo removed =>
      obtain ⟨htodo, hremoved⟩ := hpc
      refine ⟨hl.erase _, fun r hr => ?_, fun r hr => ?_⟩
      · exact (htodo r (List.mem_cons_of_mem _ hr)).later hlater fun _ _ _ h => h
      · rcases List.mem_append.mp hr with hr | hr
        · exact (hremoved r hr).later hlater fun _ _ _ h => h
        · obtain rfl := List.mem_singleton.mp hr
          exact .of_erase (htodo r List.mem_cons_self)
  | kept =>
      exact ⟨hl, fun r hr => hpc.1 r (List.mem_cons_of_mem _ hr), hpc.2⟩
  | drained => exact ⟨hl, hpc.2⟩
  | announced =>
      refine ⟨hl.send (hpc _ List.mem_cons_self) _, fun r hr => ?_⟩
      exact (hpc r (List.mem_cons_of_mem _ hr)).later hlater fun _ _ _ h => h
  | _ => exact ⟨hl, trivial⟩

theorem LeaseMove.sound (hmove : LeaseMove config l pc l' pc') (hl : l.Sound Q)
    (hpc : pc.Sound Q l)
    (hgrant : ∀ resourceId ttlSecs u, pc = .grant resourceId ttlSecs →
      Q u resourceId) :
    l'.Sound Q ∧ pc'.Sound Q l' :=
  hmove.sound_of_fresh hl hpc fun resourceId ttlSecs u hpc _ _ =>
    hgrant resourceId ttlSecs u hpc

end Sound

/-! ## Leases have drawn identifiers -/

/-- The identifiers of the leases in the store have been drawn. -/
def Landlord.Drawn (l : Landlord) : Prop :=
  ∀ k record, l.leases.leases[k]? = some record → k ∈ l.uuids

section Drawn

variable {l l' : Landlord}

theorem Landlord.Drawn.draw (h : l.Drawn) (u : String) :
    Landlord.Drawn { l with uuids := u :: l.uuids } :=
  fun k record hk => List.mem_cons_of_mem _ (h k record hk)

theorem Landlord.Drawn.grant {config : LeaseConfig} {u resourceId : String}
    {ttlSecs : UInt64} {record : LeaseRecord} (h : l.Drawn)
    (hgrant : l.grant config u resourceId ttlSecs = .ok (record, l')) :
    l'.Drawn := by
  obtain ⟨-, -, rfl⟩ := Landlord.grant_eq_ok hgrant
  intro k record' hk
  rw [get_insert] at hk
  split at hk
  · next heq => exact heq ▸ List.mem_cons_self
  · exact List.mem_cons_of_mem _ (h k record' hk)

theorem Landlord.Drawn.erase (h : l.Drawn) (leaseId : String) :
    Landlord.Drawn { l with leases := ⟨l.leases.leases.erase leaseId⟩ } := by
  intro k record hk
  simp only [get_erase] at hk
  split at hk
  · cases hk
  · exact h k record hk

theorem LeaseMove.drawn
    (hmove : LeaseMove config l pc l' pc') (h : l.Drawn) : l'.Drawn := by
  cases hmove with
  | grant hu hgrant => exact h.grant hgrant
  | @renewed leaseId ttlSecs record expiry hget hexpiry =>
      intro k record' hk
      simp only [get_insert] at hk
      split at hk
      · next heq => exact h k record (heq ▸ hget)
      · exact h k record' hk
  | cancelled | cancelledUnknown | removed => exact h.erase _
  | _ => exact h

end Drawn

/-! ## What a sweep has listed has lapsed -/

/-- The term of every lease a sweep is still to remove is over. -/
def LeasePc.Lapsed (now : Timestamp) : LeasePc → Prop
  | .drainRemove todo _ => ∀ r ∈ todo, r.expiresAt ≤ now
  | _ => True

theorem LeasePc.Lapsed.later {now now' : Timestamp}
    (h : pc.Lapsed now) (hle : now ≤ now') : pc.Lapsed now' := by
  cases pc with
  | drainRemove todo removed => exact fun r hr => le_trans (h r hr) hle
  | _ => trivial

theorem LeaseRecord.expiresAt_le_of_isExpired {r : LeaseRecord}
    {now : Timestamp} (h : r.isExpired now = true) : r.expiresAt ≤ now := by
  unfold LeaseRecord.isExpired at h
  split at h
  · cases h
  · exact of_decide_eq_true h

theorem LeaseMove.lapsed (hmove : LeaseMove config l pc l' pc')
    (h : pc.Lapsed l.now) : pc'.Lapsed l'.now := by
  cases hmove with
  | @listed it =>
      intro r hr
      simp only [InMemoryLeaseStore.listExpired, List.mem_filter] at hr
      exact LeaseRecord.expiresAt_le_of_isExpired hr.2
  | removed | kept => exact fun r hr => h r (List.mem_cons_of_mem _ hr)
  | _ => trivial

end Coordin8
