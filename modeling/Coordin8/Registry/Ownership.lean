import Coordin8.Lease.Reclaim
import Coordin8.Registry.Moves
import Coordin8.Registry.Watch

/-!
# Capabilities and their leases

A registration draws a capability id and a lease id, and the two belong together
from then on: an update keeps the lease of the entry it read, the index finds
the entry under this lease and no other, and a capability that was removed does
not come back.
-/

namespace Coordin8

open Support Support.DashMap InMemoryRegistryStore

/-- The capability and the lease were drawn together. -/
def Drew (log : List RegistryLog) (c l : String) : Prop :=
  ∃ i, RegistryLog.drawn i c l ∈ log

theorem Drew.mono {log log' : List RegistryLog} {c l : String}
    (h : Drew log c l) (hsub : log ⊆ log') : Drew log' c l := by
  obtain ⟨i, hi⟩ := h
  exact ⟨i, hsub hi⟩

/-- The identifiers drawn, each for one thing. -/
structure DrawnOnce (h : RegistryShared) (log : List RegistryLog) : Prop where
  uuids : ∀ {c l}, Drew log c l → c ∈ h.landlord.uuids ∧ l ∈ h.landlord.uuids
  capability : ∀ {i j c l l'}, RegistryLog.drawn i c l ∈ log →
    RegistryLog.drawn j c l' ∈ log → i = j ∧ l = l'
  lease : ∀ {c c' l}, Drew log c l → Drew log c' l → c = c'

/-- What holds of the shared state. -/
structure Owned (h : RegistryShared) (log : List RegistryLog) : Prop where
  sound : h.landlord.Sound fun _ _ => True
  drawn : DrawnOnce h log
  keyed : h.store.Keyed
  entries : ∀ {c e}, h.store.entries[c]? = some e → Drew log c e.leaseId
  indexed : h.store.Indexed

/-- The call read `existing` as the entry of `c` with the lease `l`. -/
structure ReadEntry (log : List RegistryLog) (c l : String)
    (existing : RegistryEntry) : Prop where
  capability : existing.capabilityId = c
  lease : existing.leaseId = l
  drawn : Drew log c l

/-- Where the renewal of a re-registration stands. -/
inductive LeasePc.Renews (l : String) : LeasePc → Prop where
  | renew (ttl : UInt64) : LeasePc.Renews l (.renew l ttl)
  | store (ttl : UInt64) : LeasePc.Renews l (.renewStore l ttl)

/-- What holds of a call. -/
def RegistryPc.Owned (h : RegistryShared) (log : List RegistryLog) (i : Nat) :
    RegistryPc → Prop
  | .insert entry granted =>
      .drawn i entry.capabilityId entry.leaseId ∈ log ∧
        h.store.entries[entry.capabilityId]? = none ∧
        granted.leaseId = entry.leaseId
  | .renew r existing pc =>
      ReadEntry log r.capabilityId r.leaseId existing ∧
        pc.Renews existing.leaseId
  | .updateEntry r existing _ | .updateAttrs r existing =>
      ReadEntry log r.capabilityId r.leaseId existing
  | .unregister l => h.landlord.Gone l
  | .lease pc => pc.Sound (fun _ _ => True) h.landlord ∧ pc.Lapsed h.landlord.now
  | _ => True

section Steps

variable {config : RegistryConfig} {i j : Nat} {h h' : RegistryShared}
  {pc pc' other : RegistryPc} {log events : List RegistryLog}
  {c l : String} {existing entry : RegistryEntry}

theorem ReadEntry.mono {log' : List RegistryLog} (hread : ReadEntry log c l existing)
    (hsub : log ⊆ log') : ReadEntry log' c l existing :=
  ⟨hread.capability, hread.lease, hread.drawn.mono hsub⟩

theorem Owned.matched (howned : Owned h log)
    (hdrew : Drew log entry.capabilityId entry.leaseId) :
    h.store.Matched entry := by
  refine ⟨fun e he => ?_, fun c e he hlease => ?_⟩
  · obtain ⟨i, hi⟩ := hdrew
    obtain ⟨j, hj⟩ := howned.entries he
    exact (howned.drawn.capability hj hi).2
  · have hdrew' := howned.entries he
    rw [hlease] at hdrew'
    exact howned.drawn.lease hdrew' hdrew

theorem RegistryPc.Updates.drew {reply : RegistryReply}
    (hupdates : pc.Updates existing entry reply) (hpc : pc.Owned h log i) :
    Drew log entry.capabilityId entry.leaseId := by
  cases hupdates with
  | entry r existing renewed =>
      have hread : ReadEntry log r.capabilityId r.leaseId existing := hpc
      simpa [RegistryHost.reregistered, hread.lease] using hread.drawn
  | attrs r existing =>
      have hread : ReadEntry log r.capabilityId r.leaseId existing := hpc
      simpa [RegistryHost.modified, hread.lease, hread.capability]
        using hread.drawn

namespace RegistryMove

theorem later (hmove : RegistryMove config i h pc h' pc' events) :
    h.landlord.Later h'.landlord := by
  cases hmove with
  | draw hc hl hgrant => exact (Landlord.Later.draw _ _).trans (.grant hl hgrant)
  | drawFailed => exact .draw _ _
  | renew hstep | lease hstep => exact (LeaseMove.of_advance hstep).later
  | _ => exact .refl _

theorem now_eq (hmove : RegistryMove config i h pc h' pc' events) :
    h'.landlord.now = h.landlord.now := by
  cases hmove with
  | draw hc hl hgrant =>
      obtain ⟨-, -, rfl⟩ := Landlord.grant_eq_ok hgrant
      rfl
  | renew hstep | lease hstep => exact (LeaseMove.of_advance hstep).now_eq
  | _ => rfl

theorem get_eq_none (hmove : RegistryMove config i h pc h' pc' events)
    (hnone : h.store.entries[c]? = none) :
    h'.store.entries[c]? = none ∨
      ∃ entry granted, pc = .insert entry granted ∧ entry.capabilityId = c := by
  cases hmove with
  | @insert entry granted =>
      by_cases heq : entry.capabilityId = c
      · exact .inr ⟨entry, granted, rfl, heq⟩
      · exact .inl (by simp [InMemoryRegistryStore.insert, get_insert, heq, hnone])
  | @update pc existing entry reply hupdates =>
      refine .inl ?_
      unfold InMemoryRegistryStore.update
      split
      · next hcontains =>
        rw [get_insert, if_neg]
        · exact hnone
        · rintro rfl
          rw [Std.ExtTreeMap.contains_eq_isSome_getElem?, hnone] at hcontains
          cases hcontains
      · exact hnone
  | @unregister l | @unregisterNone l =>
      refine .inl ?_
      rcases entries_removeByLease (s := h.store) l with
        ⟨k, e, -, -, hentries⟩ | ⟨-, hentries⟩
      · simp [hentries, get_erase, hnone]
      · simpa [hentries] using hnone
  | _ => exact .inl hnone

end RegistryMove

/-! ## The invariant -/

theorem DrawnOnce.mono (hdrawn : DrawnOnce h log)
    (huuids : h.landlord.uuids ⊆ h'.landlord.uuids)
    (hevents : ∀ {i c l}, RegistryLog.drawn i c l ∈ log ++ events →
      RegistryLog.drawn i c l ∈ log) :
    DrawnOnce h' (log ++ events) := by
  refine ⟨fun ⟨i, hi⟩ => ?_, fun hi hj => ?_, fun ⟨i, hi⟩ ⟨j, hj⟩ => ?_⟩
  · obtain ⟨hc, hl⟩ := hdrawn.uuids ⟨i, hevents hi⟩
    exact ⟨huuids hc, huuids hl⟩
  · exact hdrawn.capability (hevents hi) (hevents hj)
  · exact hdrawn.lease ⟨i, hevents hi⟩ ⟨j, hevents hj⟩

theorem DrawnOnce.draw (hdrawn : DrawnOnce h log)
    (hc : c ∉ h.landlord.uuids) (hl : l ∉ h.landlord.uuids)
    (huuids : c :: l :: h.landlord.uuids ⊆ h'.landlord.uuids) :
    DrawnOnce h' (log ++ [.drawn i c l]) := by
  have hold : ∀ {j c' l'}, RegistryLog.drawn j c' l' ∈ log ++ [.drawn i c l] →
      (RegistryLog.drawn j c' l' ∈ log ∧ c' ≠ c ∧ l' ≠ l) ∨
        (j = i ∧ c' = c ∧ l' = l) := by
    intro j c' l' hmem
    rcases List.mem_append.mp hmem with hmem | hmem
    · obtain ⟨hc', hl'⟩ := hdrawn.uuids ⟨j, hmem⟩
      exact .inl ⟨hmem, fun heq => hc (heq ▸ hc'), fun heq => hl (heq ▸ hl')⟩
    · simpa using Or.inr hmem
  refine ⟨?_, ?_, ?_⟩
  · rintro c' l' ⟨j, hj⟩
    rcases hold hj with ⟨hmem, -, -⟩ | ⟨-, rfl, rfl⟩
    · obtain ⟨hc', hl'⟩ := hdrawn.uuids ⟨j, hmem⟩
      exact ⟨huuids (by simp [hc']), huuids (by simp [hl'])⟩
    · exact ⟨huuids (by simp), huuids (by simp)⟩
  · intro j k c' l' l'' hj hk
    rcases hold hj with ⟨hj, hcj, -⟩ | ⟨rfl, rfl, rfl⟩ <;>
      rcases hold hk with ⟨hk, hck, -⟩ | ⟨rfl, hck, rfl⟩
    · exact hdrawn.capability hj hk
    · exact absurd hck hcj
    · exact absurd rfl hck
    · exact ⟨rfl, rfl⟩
  · rintro c' c'' l' ⟨j, hj⟩ ⟨k, hk⟩
    rcases hold hj with ⟨hj, -, hlj⟩ | ⟨-, rfl, rfl⟩ <;>
      rcases hold hk with ⟨hk, -, hlk⟩ | ⟨-, rfl, hlk⟩
    · exact hdrawn.lease ⟨j, hj⟩ ⟨k, hk⟩
    · exact absurd hlk hlj
    · exact absurd rfl hlk
    · rfl

theorem LeaseMove.renews {config : LeaseConfig} {a a' : Landlord}
    {lpc lpc' : LeasePc} (hmove : LeaseMove config a lpc a' lpc')
    (hrenews : lpc.Renews l) (hsound : a.Sound fun _ _ => True) :
    lpc'.Renews l ∨ (∃ e, lpc' = .returned (.error e)) ∨
      ∃ record, lpc' = .returned (.ok (some record)) ∧ record.leaseId = l ∧
        ¬ a'.Gone l := by
  cases hrenews with
  | renew ttl =>
      cases hmove with
      | renewRefused => exact .inr (.inl ⟨_, rfl⟩)
      | renewRead => exact .inl (.store ttl)
  | store ttl =>
      cases hmove with
      | renewFailed => exact .inr (.inl ⟨_, rfl⟩)
      | renewed hget =>
          refine .inr (.inr ⟨_, rfl, (hsound.stored _ _ hget).1, ?_⟩)
          rintro ⟨-, hnone⟩
          simp at hnone

theorem Owned.mono (howned : Owned h log) (hlater : h.landlord.Later h'.landlord)
    (hsound : h'.landlord.Sound fun _ _ => True) (hstore : h'.store = h.store)
    (hevents : ∀ {i c l}, RegistryLog.drawn i c l ∈ log ++ events →
      RegistryLog.drawn i c l ∈ log) :
    Owned h' (log ++ events) where
  sound := hsound
  drawn := howned.drawn.mono hlater.uuids hevents
  keyed := hstore ▸ howned.keyed
  entries he := by
    rw [hstore] at he
    exact (howned.entries he).mono (List.subset_append_left _ _)
  indexed := hstore ▸ howned.indexed

theorem Owned.write {store : InMemoryRegistryStore} (howned : Owned h log)
    (hkeyed : store.Keyed) (hindexed : store.Indexed)
    (hdrew : Drew log entry.capabilityId entry.leaseId)
    (hentries : ∀ {c e}, store.entries[c]? = some e →
      h.store.entries[c]? = some e ∨ c = entry.capabilityId ∧ e = entry)
    (hevents : ∀ {i c l}, RegistryLog.drawn i c l ∈ log ++ events →
      RegistryLog.drawn i c l ∈ log) :
    Owned { h with store := store } (log ++ events) where
  sound := howned.sound
  drawn := howned.drawn.mono (List.Subset.refl _) hevents
  keyed := hkeyed
  entries he := by
    refine Drew.mono ?_ (List.subset_append_left _ _)
    rcases hentries he with he | ⟨rfl, rfl⟩
    · exact howned.entries he
    · exact hdrew
  indexed := hindexed

theorem Owned.remove (howned : Owned h log) (l : String) :
    Owned { h with store := (h.store.removeByLease l).2 } (log ++ []) where
  sound := howned.sound
  drawn := howned.drawn.mono (List.Subset.refl _) (by simp)
  keyed := howned.keyed.removeByLease l
  entries {c e} he := by
    rw [List.append_nil]
    rcases entries_removeByLease (s := h.store) l with
      ⟨k, e', -, -, hentries⟩ | ⟨-, hentries⟩
    · simp only [hentries, get_erase] at he
      split at he
      · cases he
      · exact howned.entries he
    · exact howned.entries (hentries ▸ he)
  indexed := howned.indexed.removeByLease l

theorem RegistryMove.owned (hmove : RegistryMove config i h pc h' pc' events)
    (howned : Owned h log) (hpc : pc.Owned h log i) :
    Owned h' (log ++ events) ∧ pc'.Owned h' (log ++ events) i := by
  have hlater := hmove.later
  cases hmove with
  | @claim pc c l owned existing hclaims hget howner =>
      refine ⟨howned.mono (.refl _) howned.sound rfl (by simp), ?_⟩
      have hread : ReadEntry (log ++ []) c l existing := by
        have hlease := checkOwner_ok howner
        refine ⟨howned.keyed c existing hget, hlease.symm, ?_⟩
        rw [List.append_nil, hlease]
        exact howned.entries hget
      cases hclaims with
      | register r => exact ⟨hread, .renew _⟩
      | modifyAttrs r => exact hread
  | refuse | send =>
      exact ⟨howned.mono (.refl _) howned.sound rfl (by simp), trivial⟩
  | read hreads =>
      refine ⟨howned.mono (.refl _) howned.sound rfl (by simp), ?_⟩
      cases hreads <;> trivial
  | @draw r c l granted landlord entry hc hl hgrant hentry =>
      have hid := (Landlord.grant_eq_ok hgrant).1
      have hl' : l ∉ h.landlord.uuids := fun hmem =>
        hl (List.mem_cons_of_mem _ hmem)
      have huuids : c :: l :: h.landlord.uuids ⊆ landlord.uuids := by
        obtain ⟨-, -, rfl⟩ := Landlord.grant_eq_ok hgrant
        intro u hu
        simp only [List.mem_cons] at hu ⊢
        tauto
      refine ⟨⟨(howned.sound.draw c).grant hl hgrant trivial,
        howned.drawn.draw hc hl' huuids, howned.keyed,
        fun he => (howned.entries he).mono (List.subset_append_left _ _),
        howned.indexed⟩, ?_⟩
      subst hentry
      refine ⟨by simp [hid], ?_, rfl⟩
      cases hget : h.store.entries[c]? with
      | none => rfl
      | some e => exact absurd (howned.drawn.uuids (howned.entries hget)).1 hc
  | drawFailed =>
      exact ⟨howned.mono hlater (howned.sound.draw _) rfl (by simp), trivial⟩
  | @insert entry granted =>
      obtain ⟨hdrawn, -, -⟩ := hpc
      refine ⟨howned.write (howned.keyed.insert entry)
        (howned.indexed.insert (howned.matched ⟨i, hdrawn⟩)) ⟨i, hdrawn⟩ ?_
        (by simp), trivial⟩
      intro c e he
      simp only [InMemoryRegistryStore.insert, get_insert] at he
      split at he
      · next heq => exact .inr ⟨heq.symm, (Option.some.inj he).symm⟩
      · exact .inl he
  | @update pc existing entry reply hupdates =>
      have hdrew := hupdates.drew hpc
      refine ⟨howned.write (howned.keyed.update entry)
        (howned.indexed.update (howned.matched hdrew).lease) hdrew ?_ (by simp),
        trivial⟩
      intro c e he
      unfold InMemoryRegistryStore.update at he
      split at he
      · simp only [get_insert] at he
        split at he
        · next heq => exact .inr ⟨heq.symm, (Option.some.inj he).symm⟩
        · exact .inl he
      · exact .inl he
  | unregister | unregisterNone => exact ⟨howned.remove _, trivial⟩
  | @renew r existing lpc lpc' pc' choice landlord hstep hafter =>
      have hlease := LeaseMove.of_advance hstep
      obtain ⟨hread, hrenews⟩ := hpc
      have hsound := (hlease.sound howned.sound (by cases hrenews <;> trivial)
        fun _ _ _ _ => trivial).1
      refine ⟨howned.mono hlater hsound rfl (by simp), ?_⟩
      have hread' := hread.mono (List.subset_append_left log [])
      rcases hlease.renews hrenews howned.sound with
        hrenews' | ⟨e, rfl⟩ | ⟨record, rfl, -, -⟩
      · cases hrenews' <;> cases hafter <;> exact ⟨hread', by constructor⟩
      · cases hafter
        trivial
      · simp only [RegistryPc.afterRenew] at hafter
        split at hafter <;> cases hafter
        · exact hread'
        · trivial
  | lease hstep =>
      have hlease := LeaseMove.of_advance hstep
      obtain ⟨hsound, hpc'⟩ := hlease.sound howned.sound hpc.1
        fun _ _ _ _ => trivial
      exact ⟨howned.mono hlater hsound rfl (by simp), hpc', hlease.lapsed hpc.2⟩

theorem RegistryPc.Owned.undisturbed
    (hmove : RegistryMove config j h pc h' pc' events)
    (howned : Coordin8.Owned h log) (hpc : pc.Owned h log j) (hne : i ≠ j)
    (hother : other.Owned h log i) : other.Owned h' (log ++ events) i := by
  have hsub : log ⊆ log ++ events := List.subset_append_left _ _
  cases other with
  | insert entry granted =>
      obtain ⟨hdrawn, hnone, hlease⟩ := hother
      refine ⟨hsub hdrawn, ?_, hlease⟩
      rcases hmove.get_eq_none hnone with hnone' | ⟨entry', granted', rfl, heq⟩
      · exact hnone'
      · obtain ⟨hdrawn', -, -⟩ := hpc
        rw [heq] at hdrawn'
        exact absurd (howned.drawn.capability hdrawn hdrawn').1 hne
  | renew r existing lpc => exact ⟨hother.1.mono hsub, hother.2⟩
  | updateEntry r existing renewed | updateAttrs r existing =>
      exact ReadEntry.mono hother hsub
  | unregister l => exact hmove.later.gone l hother
  | lease lpc =>
      exact ⟨hother.1.later hmove.later fun _ _ _ hq => hq,
        hmove.now_eq ▸ hother.2⟩
  | _ => trivial

theorem RegistryShared.ambient_later {event : RegistryAmbient}
    {spawned : List RegistryPc}
    (hamb : h.ambient config event = some (h', spawned)) :
    h.landlord.Later h'.landlord ∧ h.landlord.now ≤ h'.landlord.now ∧
      (∀ Q, h.landlord.Sound Q → h'.landlord.Sound Q) ∧
      ∀ pc ∈ spawned, ∃ e ∈ h.landlord.sent, pc = .unregister e.record.leaseId := by
  cases event with
  | tick d =>
      cases hamb
      exact ⟨.of_eq rfl rfl rfl, Int.le_add_of_nonneg_right (by simp),
        fun Q hsound => ⟨hsound.stored, hsound.sent⟩, by simp⟩
  | cascade =>
      simp only [RegistryShared.ambient] at hamb
      split at hamb
      · cases hamb
      · cases hamb
        exact ⟨.refl _, le_refl _, fun _ hsound => hsound, by simp⟩
      · next e cursor hrecv =>
        cases hamb
        refine ⟨.refl _, le_refl _, fun _ hsound => hsound, fun pc hpc => ?_⟩
        exact ⟨e, mem_of_recv hrecv, List.mem_singleton.mp hpc⟩

theorem RegistryPc.owned_of_entry (hentry : pc.entry = true) : pc.Owned h log i := by
  cases pc with
  | lease lpc =>
      cases lpc <;> first | exact ⟨trivial, trivial⟩ | cases hentry
  | insert | renew | updateEntry | updateAttrs | unregister => cases hentry
  | _ => trivial

theorem ownedKeeps (config : RegistryConfig) :
    (registryProgram config).Keeps RegistryProc.new
      (fun h log _ => Owned h log) (fun h log i pc => pc.Owned h log i) where
  init := by
    refine ⟨⟨⟨?_, ?_⟩, ⟨?_, ?_, ?_⟩, keyed_new, ?_, indexed_new⟩, ?_⟩
    all_goals
      simp [RegistryProc.new, RegistryShared.new, Landlord.new,
        InMemoryLeaseStore.new, InMemoryRegistryStore.new, Drew]
  call := fun _ _ hentry howned => ⟨howned, RegistryPc.owned_of_entry hentry⟩
  step := by
    intro s i pc choice h' pc' events _ _ hpc hadv howned hloc
    have hmove := RegistryMove.of_advance hadv
    have hown := hloc i pc hpc
    obtain ⟨howned', hown'⟩ := hmove.owned howned hown
    exact ⟨howned', hown', fun j pcj hji hj =>
      RegistryPc.Owned.undisturbed hmove howned hown hji (hloc j pcj hj)⟩
  ambient := by
    intro s event h' spawned _ _ hamb howned hloc
    obtain ⟨hlater, hnow, hsound, hspawned⟩ := RegistryShared.ambient_later hamb
    have hstore := RegistryShared.ambient_store hamb
    refine ⟨?_, fun k pc hk => ?_, fun j pc hj => ?_⟩
    · have howned' : Owned h' (s.log ++ []) :=
        howned.mono hlater (hsound _ howned.sound) hstore (by simp)
      simpa using howned'
    · obtain ⟨e, he, rfl⟩ := hspawned pc (List.mem_of_getElem? hk)
      exact hlater.gone _ (howned.sound.sent e he).1
    · have hpc := hloc j pc hj
      cases pc with
      | insert entry granted => exact ⟨hpc.1, hstore ▸ hpc.2.1, hpc.2.2⟩
      | unregister l => exact hlater.gone l hpc
      | lease lpc =>
          exact ⟨hpc.1.later hlater fun _ _ _ hq => hq, hpc.2.later hnow⟩
      | _ => exact hpc

theorem RegistryReachable.owned {s : RegistryProc}
    (hreach : RegistryReachable config s) :
    Owned s.shared s.log ∧ ∀ (i : Nat) (pc : RegistryPc),
      s.tasks[i]? = some pc → pc.Owned s.shared s.log i :=
  (ownedKeeps config).holds hreach

end Steps

end Coordin8
