import Coordin8.Lease.Reclaim
import Coordin8.Space.Moves
import Mathlib.Logic.Relation

/-!
# A call that runs alone

The leases granted for tuples and the tuples the Space holds differ inside a
call: a tuple has its lease before it is stored, and a tuple that has left the
store has its lease until that is cancelled.  What a call still owes is read off
from where it stands, and every move of a call that runs alone keeps the two
equal but for that.
-/

namespace Coordin8

open Support Support.DashMap SpacePc Relation

/-- The enlister does not refuse. -/
def SpaceChoice.Accepts : SpaceChoice → Prop
  | .enlisted (.error _) => False
  | _ => True

/-- One move of a call that runs alone. -/
def Proceeds (config : SpaceConfig) (a b : SpaceHost × SpacePc) : Prop :=
  ∃ choice events, choice.Accepts ∧
    a.2.advance config 0 a.1 choice = some (b.1, b.2, events)

/-- The moves of a call from one point to another, with nothing in between. -/
abbrev Alone (config : SpaceConfig) :
    SpaceHost × SpacePc → SpaceHost × SpacePc → Prop :=
  ReflTransGen (Proceeds config)

/-- The call has returned, or waits for a tuple. -/
def SpacePc.Idle : SpacePc → Prop
  | .returned _ | .wait .. => True
  | _ => False

/-- The operations of the Space manager and its participant service. -/
def SpacePc.operation : SpacePc → Bool
  | .lease _ | .onTupleExpired _ => false
  | pc => pc.entry

/-! ## What a call owes -/

/-- The lease a cancellation is still to remove. -/
def LeasePc.cancels : LeasePc → List String
  | .cancel leaseId | .cancelStore leaseId _ => [leaseId]
  | _ => []

/-- The leases of tuples that are not stored yet, or not stored any more. -/
def SpacePc.owes : SpacePc → List String
  | .cancelTaken pc _ | .leaseCall pc => pc.cancels
  | .settleCancel pc todo _ _ => pc.cancels ++ todo.map TupleRecord.leaseId
  | .unmark _ todo _ _ => todo.map TupleRecord.leaseId
  | pc => pc.pending.toList.map TupleRecord.leaseId

/-- A renewal under way. -/
def LeasePc.Renewing : LeasePc → Prop
  | .renew .. | .renewStore .. => True
  | _ => False

/-- A cancellation or renewal that has not begun. -/
def LeasePc.Begins : LeasePc → Prop
  | .cancel _ | .renew .. => True
  | _ => False

theorem LeasePc.Begins.sound {pc : LeasePc} (hpc : pc.Begins)
    (Q : String → String → Prop) (l : Landlord) : pc.Sound Q l := by
  cases pc with
  | cancel | renew => trivial
  | _ => exact hpc.elim

/-- Inside a call the lease manager cancels or renews. -/
def SpacePc.Orderly : SpacePc → Prop
  | .cancelTaken pc _ | .settleCancel pc _ _ _ => pc.Cancelling
  | .leaseCall pc => pc.Cancelling ∨ pc.Renewing
  | .lease _ | .onTupleExpired _ => False
  | _ => True

/-- What a lease in the store was granted for. -/
def Landlord.resource (l : Landlord) (leaseId : String) : Option String :=
  l.leases.leases[leaseId]?.map LeaseRecord.resourceId

/-- The tuple has its lease, granted for it. -/
def HasLease (l : Landlord) (r : TupleRecord) : Prop :=
  l.resource r.leaseId = some ("space:" ++ r.tupleId)

/-- The leases of the tuples in the store. -/
def SpaceHost.heldLeases (h : SpaceHost) : Multiset String :=
  h.store.records.map TupleRecord.leaseId

/-- Leases and tuples agree but for what a call owes. -/
structure Balanced (h : SpaceHost) (owes : List String) : Prop where
  leased : ∀ l t, h.landlord.resource l = some ("space:" ++ t) →
    l ∈ h.heldLeases ∨ l ∈ owes
  held : ∀ r ∈ h.store.records, HasLease h.landlord r
  apart : ∀ l ∈ owes, l ∉ h.heldLeases

/-- Where a call stands, in a run of calls made one after another. -/
structure Underway (h : SpaceHost) (log : List SpaceEvent) (pc : SpacePc) :
    Prop where
  store : StoreGlob h log 0
  fresh : StoreLoc h log 0 pc
  sound : h.landlord.Sound fun _ _ => True
  orderly : pc.Orderly
  reads : ∀ lpc, pc.leasePc = some lpc → lpc.Sound (fun _ _ => True) h.landlord
  balanced : Balanced h pc.owes
  pending : ∀ r, pc.pending = some r → HasLease h.landlord r

/-! ## Moves on the store -/

variable {lpc lpc' : LeasePc} {l l' : Landlord} {lease : LeaseConfig}
  {u resourceId : String}

section Calls

variable {config : SpaceConfig} {i : Nat} {h h' : SpaceHost} {pc pc' : SpacePc}
  {op : SpaceOp} {result : SpaceResult} {log events : List SpaceEvent}

theorem SpacePc.owes_settle (todo sends : List TupleRecord)
    (reply : SpaceReply) :
    (settle todo sends reply).owes = todo.map TupleRecord.leaseId := by
  unfold settle
  split <;> rfl

theorem SpacePc.owes_afterEnlist (x : String) (next : Enlisting) :
    (afterEnlist x next).owes = (ensureEnlisted x next).owes := by
  cases next <;> rfl

theorem SpacePc.orderly_settle (todo sends : List TupleRecord)
    (reply : SpaceReply) : (settle todo sends reply).Orderly := by
  unfold settle
  split <;> trivial

theorem SpacePc.orderly_afterEnlist (x : String) (next : Enlisting) :
    (afterEnlist x next).Orderly := by
  cases next <;> trivial

theorem Calls.owes (hcalls : Calls pc op result pc') :
    pc.owes = op.written.toList.map TupleRecord.leaseId := by
  cases hcalls <;> rfl

theorem Calls.owes_after (hcalls : Calls pc op result pc')
    (horderly : pc.Orderly) :
    pc'.owes = (leaving (op, result)).map TupleRecord.leaseId := by
  cases hcalls with
  | findMatch it q cursor found =>
      cases found with
      | some r => rfl
      | none =>
          simp only [afterQuery]
          split <;> rfl
  | takeMatch it q cursor found =>
      cases hx : q.txnId with
      | none | some x =>
          cases found with
          | some r =>
              simp only [afterQuery, hx]
              rfl
          | none =>
              simp only [afterQuery]
              split <;> rfl
  | prepareAndCommit x hasState => cases hasState <;> rfl
  | expired | expiredUnknown => exact horderly.elim
  | _ => rfl

theorem Calls.orderly (hcalls : Calls pc op result pc') : pc'.Orderly := by
  cases hcalls with
  | findMatch it q cursor found | takeMatch it q cursor found =>
      unfold afterQuery
      split
      · split <;> trivial
      · split <;> trivial
  | prepareAndCommit x hasState => cases hasState <;> trivial
  | cancel => exact .inl trivial
  | renew => exact .inr trivial
  | _ => trivial

theorem Calls.begins (hcalls : Calls pc op result pc')
    (hlpc : pc'.leasePc = some lpc) : lpc.Begins := by
  cases hcalls with
  | findMatch it q cursor found | takeMatch it q cursor found =>
      unfold afterQuery at hlpc
      split at hlpc
      · split at hlpc
        · obtain rfl := Option.some.inj hlpc
          trivial
        · cases hlpc
      · split at hlpc <;> cases hlpc
  | prepareAndCommit x hasState => cases hasState <;> cases hlpc
  | cancel | renew =>
      obtain rfl := Option.some.inj hlpc
      trivial
  | _ => cases hlpc

theorem Underway.records_exec (hunder : Underway h log pc)
    (hcalls : Calls pc op result pc') :
    (h.store.exec op).2.records +
        (leaving (op, (h.store.exec op).1) : Multiset TupleRecord) =
      h.store.records + (op.written.toList : Multiset TupleRecord) := by
  have hfresh := hunder.fresh.fresh hcalls
  have hbalance := (hunder.store.run.ledgerStep hfresh).conservation
  simpa only [InMemorySpaceStore.map_snd_holdings_eq_records] using hbalance

/-- What a store call takes in or hands out, the call owed before it or owes
after it. -/
theorem Underway.heldLeases_exec (hunder : Underway h log pc)
    (hcalls : Calls pc op (h.store.exec op).1 pc') :
    { h with store := (h.store.exec op).2 }.heldLeases + ↑pc'.owes =
      h.heldLeases + ↑pc.owes := by
  have hleases :=
    congrArg (Multiset.map TupleRecord.leaseId) (hunder.records_exec hcalls)
  rw [Multiset.map_add, Multiset.map_add, Multiset.map_coe, Multiset.map_coe]
    at hleases
  rw [hcalls.owes, hcalls.owes_after hunder.orderly]
  exact hleases

theorem Underway.nodup (hunder : Underway h log pc)
    (hcalls : Calls pc op result pc') :
    (h.heldLeases + ↑pc.owes).Nodup := by
  have hheld : h.heldLeases.Nodup := by
    have hleases := hunder.store.run.coherent.leases
    rwa [InMemorySpaceStore.map_snd_holdings_eq_records] at hleases
  have howes : pc.owes.Nodup := by
    rw [hcalls.owes]
    cases op.written with
    | none => exact List.nodup_nil
    | some r => exact List.nodup_singleton _
  rw [Multiset.nodup_add]
  refine ⟨hheld, Multiset.coe_nodup.mpr howes, ?_⟩
  rw [Multiset.disjoint_left]
  intro l hl howed
  exact hunder.balanced.apart l (Multiset.mem_coe.mp howed) hl

theorem Underway.balanced_exec (hunder : Underway h log pc)
    (hcalls : Calls pc op (h.store.exec op).1 pc') :
    Balanced { h with store := (h.store.exec op).2 } pc'.owes := by
  have hleases := hunder.heldLeases_exec hcalls
  have hnodup := hunder.nodup hcalls
  constructor
  · intro l t hl
    have hmem : l ∈ h.heldLeases + ↑pc.owes := by
      rw [Multiset.mem_add, Multiset.mem_coe]
      exact hunder.balanced.leased l t hl
    rwa [← hleases, Multiset.mem_add, Multiset.mem_coe] at hmem
  · intro r hr
    have hmem : r ∈ h.store.records + ↑op.written.toList := by
      rw [← hunder.records_exec hcalls]
      exact Multiset.mem_add.mpr (Or.inl hr)
    rw [Multiset.mem_add, Multiset.mem_coe, Option.mem_toList] at hmem
    rcases hmem with hmem | hmem
    · exact hunder.balanced.held r hmem
    · exact hunder.pending r (hcalls.written hmem)
  · intro l howed hheld
    rw [← hleases, Multiset.nodup_add] at hnodup
    exact Multiset.disjoint_left.mp hnodup.2.2 hheld (Multiset.mem_coe.mpr howed)

/-! ## Moves that grant a lease -/

theorem watch_ne_tuple (id t : String) : "space-watch:" ++ id ≠ "space:" ++ t := by
  intro heq
  have hlist := congrArg String.toList heq
  simp [String.toList_append] at hlist

theorem Balanced.congr {owes owes' : List String} (hacc : Balanced h owes)
    (hstore : h'.store = h.store)
    (hresource : ∀ l, h'.landlord.resource l = h.landlord.resource l)
    (howes : owes' = owes) : Balanced h' owes' := by
  subst howes
  have hheld : h'.heldLeases = h.heldLeases := by
    rw [SpaceHost.heldLeases, hstore, SpaceHost.heldLeases]
  constructor
  · intro l t hl
    rw [hheld]
    exact hacc.leased l t ((hresource l).symm.trans hl)
  · intro r hr
    exact (hresource _).trans (hacc.held r (hstore ▸ hr))
  · rw [hheld]
    exact hacc.apart

theorem Landlord.resource_grant {ttlSecs : UInt64} {granted : LeaseRecord}
    (hgrant : l.grant lease u resourceId ttlSecs = .ok (granted, l'))
    (k : String) :
    l'.resource k = if u = k then some resourceId else l.resource k := by
  obtain ⟨-, hresource, rfl⟩ := Landlord.grant_eq_ok hgrant
  simp only [Landlord.resource, get_insert]
  split
  · rw [Option.map_some, hresource]
  · rfl

theorem Landlord.Sound.mem_uuids {k : String} (hsound : l.Sound fun _ _ => True)
    (hk : l.resource k = some resourceId) : k ∈ l.uuids := by
  obtain ⟨record, hrecord, -⟩ := Option.map_eq_some_iff.mp hk
  exact (hsound.stored k record hrecord).2.1

theorem Underway.hasLease_grant (hunder : Underway h log pc)
    (hu : u ∉ h.landlord.uuids)
    (hresource : ∀ k, l.resource k =
      if u = k then some resourceId else h.landlord.resource k)
    {r : TupleRecord} (hr : r ∈ h.store.records) :
    r.leaseId ≠ u ∧ HasLease l r := by
  have hlease := hunder.balanced.held r hr
  have hne : u ≠ r.leaseId := by
    rintro rfl
    exact hu (hunder.sound.mem_uuids hlease)
  refine ⟨hne.symm, ?_⟩
  rw [HasLease, hresource, if_neg hne]
  exact hlease

/-- A lease is granted, for a tuple that the call is about to store or for
something else. -/
theorem Underway.balanced_grant {landlord : Landlord}
    (hunder : Underway h log pc) (hu : u ∉ h.landlord.uuids)
    (howes : pc.owes = [])
    (hresource : ∀ k, landlord.resource k =
      if u = k then some resourceId else h.landlord.resource k)
    (hfor : pc'.owes = [u] ∨ pc'.owes = [] ∧ ∀ t, resourceId ≠ "space:" ++ t) :
    Balanced { h with landlord := landlord } pc'.owes := by
  constructor
  · intro l t hl
    rw [hresource] at hl
    split at hl
    · next heq =>
      rcases hfor with hfor | ⟨-, hfor⟩
      · exact Or.inr (by simp [hfor, heq])
      · exact absurd (Option.some.inj hl) (hfor t)
    · have hold := hunder.balanced.leased l t hl
      rw [howes] at hold
      exact Or.inl (hold.resolve_right List.not_mem_nil)
  · intro r hr
    exact (hunder.hasLease_grant hu hresource hr).2
  · intro l howed hheld
    obtain ⟨r, hr, rfl⟩ := Multiset.mem_map.mp hheld
    have hne := (hunder.hasLease_grant hu hresource hr).1
    rcases hfor with hfor | ⟨hfor, -⟩
    · rw [hfor, List.mem_singleton] at howed
      exact hne howed
    · rw [hfor] at howed
      cases howed

/-! ## Moves of the lease manager inside a call -/

/-- A cancellation or renewal leaves the leases in the store as they are, but for
the one it cancels. -/
theorem LeaseMove.settles (hmove : LeaseMove lease l lpc l' lpc')
    (hlpc : lpc.Cancelling ∨ lpc.Renewing) :
    ((∀ k, l'.resource k = l.resource k) ∧ lpc'.cancels = lpc.cancels) ∨
      ∃ leaseId, lpc.cancels = [leaseId] ∧ lpc'.cancels = [] ∧
        ∀ k, l'.resource k =
          if leaseId = k then none else l.resource k := by
  have herase : ∀ leaseId k : String,
      Landlord.resource
          { l with leases := ⟨l.leases.leases.erase leaseId⟩ } k =
        if leaseId = k then none else l.resource k := by
    intro leaseId k
    simp only [Landlord.resource, get_erase]
    split <;> rfl
  cases hmove with
  | @renewed leaseId ttlSecs record expiry hget =>
      refine Or.inl ⟨fun k => ?_, rfl⟩
      simp only [Landlord.resource, get_insert]
      split
      · next heq => rw [← heq, hget, Option.map_some, Option.map_some]
      · rfl
  | cancelled | cancelledUnknown => exact Or.inr ⟨_, rfl, rfl, herase _⟩
  | renewRefused | renewRead | renewFailed | cancelRead | cancelSent =>
      exact Or.inl ⟨fun _ => rfl, rfl⟩
  | _ => exact (hlpc.elim id id).elim

theorem LeaseMove.renewing (hmove : LeaseMove lease l lpc l' lpc')
    (hlpc : lpc.Renewing) :
    lpc'.Renewing ∨ ∃ result, lpc' = .returned result := by
  cases hmove with
  | renewRead => exact Or.inl trivial
  | renewRefused | renewFailed | renewed => exact Or.inr ⟨_, rfl⟩
  | _ => exact hlpc.elim

theorem SpacePc.Orderly.leasePc (horderly : pc.Orderly)
    (hpc : pc.leasePc = some lpc) : lpc.Cancelling ∨ lpc.Renewing := by
  cases pc with
  | cancelTaken | settleCancel =>
      obtain rfl := Option.some.inj hpc
      exact Or.inl horderly
  | leaseCall =>
      obtain rfl := Option.some.inj hpc
      exact horderly
  | lease => exact horderly.elim
  | _ => cases hpc

/-- The rest of what a call owes does not depend on the lease manager. -/
theorem SpacePc.owes_afterLease (horderly : pc.Orderly)
    (hpc : pc.leasePc = some lpc) (hafter : pc.afterLease lpc' = some pc') :
    ∃ rest, pc.owes = lpc.cancels ++ rest ∧ pc'.owes = lpc'.cancels ++ rest := by
  cases pc with
  | cancelTaken pc r | leaseCall pc =>
      obtain rfl := Option.some.inj hpc
      refine ⟨[], (List.append_nil _).symm, ?_⟩
      cases lpc' <;> cases hafter <;> rfl
  | settleCancel pc todo sends reply =>
      obtain rfl := Option.some.inj hpc
      refine ⟨todo.map TupleRecord.leaseId, rfl, ?_⟩
      cases lpc' with
      | returned result =>
          cases hafter
          exact owes_settle todo sends reply
      | _ =>
          cases hafter
          rfl
  | lease => exact horderly.elim
  | _ => cases hpc

theorem SpacePc.leasePc_settle {todo sends : List TupleRecord}
    {reply : SpaceReply}
    (hlpc : (settle todo sends reply).leasePc = some lpc) : lpc.Begins := by
  unfold settle at hlpc
  split at hlpc
  · obtain rfl := Option.some.inj hlpc
    trivial
  · cases hlpc
  · cases hlpc

/-- What a call does next in the lease manager, or begins there. -/
theorem SpacePc.leasePc_afterLease {lpc₁ : LeasePc}
    (hafter : pc.afterLease lpc = some pc') (hpc' : pc'.leasePc = some lpc₁) :
    lpc₁ = lpc ∨ lpc₁.Begins := by
  cases pc with
  | cancelTaken | leaseCall | lease =>
      cases lpc <;> cases hafter <;> cases hpc' <;> exact Or.inl rfl
  | settleCancel pc todo sends reply =>
      cases lpc with
      | returned result =>
          cases hafter
          exact Or.inr (leasePc_settle hpc')
      | _ =>
          cases hafter
          cases hpc'
          exact Or.inl rfl
  | _ => cases hafter

theorem SpacePc.Orderly.afterLease (horderly : pc.Orderly)
    (hpc : pc.leasePc = some lpc) (hmove : LeaseMove lease l lpc l' lpc')
    (hafter : pc.afterLease lpc' = some pc') : pc'.Orderly := by
  cases pc with
  | cancelTaken pc r =>
      obtain rfl := Option.some.inj hpc
      rcases hmove.cancelling horderly with hnext | ⟨result, rfl⟩
      · cases lpc' <;> cases hafter <;> first | exact hnext | trivial
      · cases hafter
        trivial
  | settleCancel pc todo sends reply =>
      obtain rfl := Option.some.inj hpc
      rcases hmove.cancelling horderly with hnext | ⟨result, rfl⟩
      · cases lpc' <;> cases hafter <;> first | exact hnext | exact hnext.elim
      · cases hafter
        exact orderly_settle todo sends reply
  | leaseCall pc =>
      obtain rfl := Option.some.inj hpc
      have hnext : (lpc'.Cancelling ∨ lpc'.Renewing) ∨
          ∃ result, lpc' = .returned result := by
        rcases horderly with hlpc | hlpc
        · exact (hmove.cancelling hlpc).imp_left Or.inl
        · exact (hmove.renewing hlpc).imp_left Or.inr
      rcases hnext with hnext | ⟨result, rfl⟩
      · cases lpc' <;> cases hafter <;> first | exact hnext | trivial
      · cases hafter
        trivial
  | lease => exact horderly.elim
  | _ => cases hpc

theorem Balanced.cancelled {leaseId : String} {rest : List String}
    {landlord : Landlord} (hacc : Balanced h (leaseId :: rest))
    (hresource : ∀ k, landlord.resource k =
      if leaseId = k then none else h.landlord.resource k) :
    Balanced { h with landlord := landlord } rest := by
  constructor
  · intro l t hl
    rw [hresource] at hl
    split at hl
    · cases hl
    · next hne =>
      rcases hacc.leased l t hl with hheld | howed
      · exact Or.inl hheld
      · rcases List.mem_cons.mp howed with rfl | howed
        · exact absurd rfl hne
        · exact Or.inr howed
  · intro r hr
    have hne : leaseId ≠ r.leaseId := by
      rintro rfl
      exact hacc.apart _ List.mem_cons_self (Multiset.mem_map_of_mem _ hr)
    rw [HasLease, hresource, if_neg hne]
    exact hacc.held r hr
  · intro l howed
    exact hacc.apart l (List.mem_cons_of_mem _ howed)

theorem Underway.balanced_lease {landlord : Landlord}
    (hunder : Underway h log pc) (hpc : pc.leasePc = some lpc)
    (hmove : LeaseMove config.lease h.landlord lpc landlord lpc')
    (hafter : pc.afterLease lpc' = some pc') :
    Balanced { h with landlord := landlord } pc'.owes := by
  obtain ⟨rest, howes, howes'⟩ := owes_afterLease hunder.orderly hpc hafter
  have hacc := hunder.balanced
  rcases hmove.settles (hunder.orderly.leasePc hpc) with
    ⟨hresource, hcancels⟩ | ⟨leaseId, hcancels, hnone, hresource⟩
  · exact hacc.congr rfl hresource (by rw [howes, howes', hcancels])
  · rw [howes, hcancels] at hacc
    rw [howes', hnone]
    exact hacc.cancelled hresource

/-! ## Every move of a call -/

/-- A local step changes nothing of what a call owes, unless the enlister
refuses. -/
theorem Passes.owes (hpasses : Passes config h pc pc')
    (haccepts : ∀ x next e, pc = .enlist x next → pc' ≠ .returned (.error e)) :
    pc'.owes = pc.owes := by
  cases hpasses with
  | noEnlister | known => exact owes_afterEnlist ..
  | @unknown x _ next | @accepted x next => cases next <;> rfl
  | refused => exact absurd rfl (haccepts _ _ _ rfl)
  | received =>
      unfold afterRecv
      split
      · split
        · split <;> rfl
        · rfl
      · rfl
  | _ => rfl

theorem Passes.orderly (hpasses : Passes config h pc pc') : pc'.Orderly := by
  cases hpasses with
  | noEnlister | known => exact orderly_afterEnlist ..
  | received =>
      unfold afterRecv
      split
      · split
        · split <;> trivial
        · trivial
      · trivial
  | _ => trivial

theorem SpacePc.leasePc_afterEnlist (x : String) (next : Enlisting) :
    (afterEnlist x next).leasePc = none := by
  cases next <;> rfl

theorem Passes.leasePc (hpasses : Passes config h pc pc') :
    pc'.leasePc = none := by
  cases hpasses with
  | noEnlister | known => exact leasePc_afterEnlist ..
  | received =>
      unfold afterRecv
      split
      · split
        · split <;> rfl
        · rfl
      · rfl
  | _ => rfl

/-- Outside a call of the lease manager nothing is read from it. -/
theorem SpaceMove.reads (hmove : SpaceMove config i h pc h' pc' events) (hlpc : pc'.leasePc = some lpc) :
    lpc.Begins ∨ ∃ lpc₀ c, pc.leasePc = some lpc₀ ∧
      lpc₀.advance config.lease h.landlord c = some (h'.landlord, lpc) := by
  cases hmove with
  | @write req _ _ _ _ r =>
      unfold afterWrite at hlpc
      split at hlpc <;> cases hlpc
  | store hcalls => exact Or.inl (hcalls.begins hlpc)
  | pass hpasses =>
      rw [hpasses.leasePc] at hlpc
      cases hlpc
  | mark =>
      rw [leasePc_afterEnlist] at hlpc
      cases hlpc
  | unmark | sendSettled => exact Or.inl (leasePc_settle hlpc)
  | lease hpc hstep hafter =>
      rcases leasePc_afterLease hafter hlpc with rfl | hbegins
      · exact Or.inr ⟨_, _, hpc, hstep⟩
      · exact Or.inl hbegins
  | _ => cases hlpc

theorem Underway.sound_move (hunder : Underway h log pc)
    (hmove : SpaceMove config i h pc h' pc' events) :
    (h'.landlord.Sound fun _ _ => True) ∧
      ∀ lpc, pc'.leasePc = some lpc →
        lpc.Sound (fun _ _ => True) h'.landlord := by
  constructor
  · cases hmove with
    | write hid hlease hgrant hr | notify hid hlease hgrant =>
        exact (hunder.sound.draw _).grant hlease hgrant trivial
    | drawFailed => exact hunder.sound.draw _
    | lease hpc hstep hafter =>
        exact ((LeaseMove.of_advance hstep).sound hunder.sound
          (hunder.reads _ hpc) fun _ _ _ _ => trivial).1
    | _ => exact hunder.sound
  · intro lpc hlpc
    rcases hmove.reads hlpc with hbegins | ⟨lpc₀, c, hpc, hstep⟩
    · exact hbegins.sound _ _
    · exact ((LeaseMove.of_advance hstep).sound hunder.sound
        (hunder.reads _ hpc) fun _ _ _ _ => trivial).2

theorem Underway.balanced_move (hunder : Underway h log pc)
    (hmove : SpaceMove config i h pc h' pc' events)
    (haccepts : ∀ x next e, pc = .enlist x next → pc' ≠ .returned (.error e)) :
    Balanced h' pc'.owes := by
  have hacc := hunder.balanced
  cases hmove with
  | @write req id leaseId granted landlord r hid hlease hgrant hr =>
      have hfresh : leaseId ∉ h.landlord.uuids :=
        fun hmem => hlease (List.mem_cons_of_mem _ hmem)
      have howes : (afterWrite req.txnId r granted).owes = [leaseId] := by
        obtain ⟨hgranted, -, -⟩ := Landlord.grant_eq_ok hgrant
        rw [hr, ← hgranted]
        unfold afterWrite
        split <;> rfl
      have hresource := Landlord.resource_grant hgrant
      exact hunder.balanced_grant hfresh rfl hresource (Or.inl howes)
  | @notify template on ttlSecs handback id leaseId _ _ hid hlease hgrant =>
      have hfresh : leaseId ∉ h.landlord.uuids :=
        fun hmem => hlease (List.mem_cons_of_mem _ hmem)
      have hresource := Landlord.resource_grant hgrant
      exact hunder.balanced_grant hfresh rfl hresource
        (Or.inr ⟨rfl, watch_ne_tuple id⟩)
  | drawFailed hpc =>
      refine hacc.congr rfl (fun _ => rfl) ?_
      cases pc with
      | write | notify => rfl
      | _ => exact hpc.elim
  | store hcalls => exact hunder.balanced_exec hcalls
  | pass hpasses => exact hacc.congr rfl (fun _ => rfl) (hpasses.owes haccepts)
  | @mark x next =>
      refine hacc.congr rfl (fun _ => rfl) ?_
      cases next <;> rfl
  | unmark | sendSettled => exact hacc.congr rfl (fun _ => rfl) (owes_settle ..)
  | sendNew | sendExpired => exact hacc.congr rfl (fun _ => rfl) rfl
  | lease hpc hstep hafter =>
      exact hunder.balanced_lease hpc (LeaseMove.of_advance hstep) hafter

theorem Underway.orderly_move (hunder : Underway h log pc)
    (hmove : SpaceMove config i h pc h' pc' events) : pc'.Orderly := by
  cases hmove with
  | write =>
      unfold afterWrite
      split <;> trivial
  | store hcalls => exact hcalls.orderly
  | pass hpasses => exact hpasses.orderly
  | mark => exact orderly_afterEnlist ..
  | unmark | sendSettled => exact orderly_settle ..
  | lease hpc hstep hafter =>
      exact hunder.orderly.afterLease hpc (LeaseMove.of_advance hstep) hafter
  | _ => trivial

theorem Underway.pending_move (hunder : Underway h log pc)
    (hmove : SpaceMove config i h pc h' pc' events) (r : TupleRecord)
    (hr : pc'.pending = some r) : HasLease h'.landlord r := by
  rcases hmove.pending hr with ⟨hold, hnone⟩ | ⟨hdrawn, -, -⟩
  · have hlease := hunder.pending r hold
    cases hmove with
    | lease hpc hstep hafter =>
        rw [pending_afterLease hafter] at hr
        cases hr
    | notify | drawFailed => cases hr
    | write | store => cases hnone
    | _ => exact hlease
  · cases hmove with
    | @write req id leaseId granted landlord r' hid hlease hgrant hr' =>
        obtain rfl : r' = r := by
          unfold afterWrite at hr
          split at hr <;> exact Option.some.inj hr
        obtain ⟨hgranted, -, -⟩ := Landlord.grant_eq_ok hgrant
        rw [HasLease, Landlord.resource_grant hgrant, hr', if_pos hgranted.symm]
    | _ => cases hdrawn

theorem SpaceChoice.Accepts.enlist {choice : SpaceChoice} {x : String}
    {next : Enlisting} {e : Error} (haccepts : choice.Accepts) :
    (SpacePc.enlist x next).advance config i h choice ≠
      some (h', .returned (.error e), events) := by
  intro hadv
  cases choice with
  | enlisted result =>
      cases result with
      | error e => exact haccepts
      | ok => cases hadv
  | uuids id leaseId =>
      simp only [advance, draw, ite_self] at hadv
      cases hadv
  | _ => cases hadv

/-- A call that runs alone keeps account of leases and tuples. -/
theorem Underway.proceeds (hunder : Underway h log pc)
    (hstep : Proceeds config (h, pc) (h', pc')) :
    ∃ log', Underway h' log' pc' := by
  obtain ⟨choice, events, haccepts, hadv⟩ := hstep
  have hmove := SpaceMove.of_advance hadv
  obtain ⟨hsound, hreads⟩ := hunder.sound_move hmove
  refine ⟨log ++ events, hunder.store.step hmove hunder.fresh,
    .step hmove hunder.store hunder.fresh, hsound, hunder.orderly_move hmove,
    hreads, hunder.balanced_move hmove ?_, hunder.pending_move hmove⟩
  rintro x next e rfl rfl
  exact haccepts.enlist hadv

theorem Underway.alone {b : SpaceHost × SpacePc} (hunder : Underway h log pc)
    (hrun : Alone config (h, pc) b) : ∃ log', Underway b.1 log' b.2 := by
  induction hrun with
  | refl => exact ⟨log, hunder⟩
  | tail _ hstep ih =>
      obtain ⟨log', hmid⟩ := ih
      exact hmid.proceeds hstep

end Calls

end Coordin8
