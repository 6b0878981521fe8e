import Coordin8.Registry.Process

/-!
# The moves of the Registry

`RegistryMove` lists what one move of a call can do, with what it reads; the
proofs about the process go through it.
-/

namespace Coordin8

open Support Support.DashMap

namespace RegistryPc

/-- The calls that claim an entry as its owner: which, with which lease, and how
they go on with what they read. -/
inductive Claims : RegistryPc → String → String → (RegistryEntry → RegistryPc) →
    Prop where
  | register (r : RegisterRequest) :
      Claims (.register r) r.capabilityId r.leaseId fun existing =>
        .renew r existing (.renew existing.leaseId r.ttlSeconds)
  | modifyAttrs (r : ModifyAttrsRequest) :
      Claims (.modifyAttrs r) r.capabilityId r.leaseId (.updateAttrs r)

/-- The calls that write back an entry: what they read, what they write, and
what they answer. -/
inductive Updates : RegistryPc → RegistryEntry → RegistryEntry →
    RegistryReply → Prop where
  | entry (r : RegisterRequest) (existing : RegistryEntry)
      (renewed : LeaseRecord) :
      Updates (.updateEntry r existing renewed) existing
        (RegistryHost.reregistered r existing)
        (.registered ⟨r.capabilityId, some renewed⟩)
  | attrs (r : ModifyAttrsRequest) (existing : RegistryEntry) :
      Updates (.updateAttrs r existing) existing
        (RegistryHost.modified r existing)
        (.capability (entryToCapability (RegistryHost.modified r existing)))

/-- The calls that only read, before and after a move. -/
inductive Reads : RegistryPc → RegistryPc → Prop where
  | lookup (template : Attrs) (answer : Except Status Capability) :
      Reads (.lookup template) (.returned (answer.map .capability))
  | lookupAll (template : Attrs) (cs : List Capability) :
      Reads (.lookupAll template) (.returned (.ok (.capabilities cs)))
  | watch (template : Attrs) (cursor : Nat) :
      Reads (.watch template) (.watching template cursor [])
  | watching (template : Attrs) (cursor cursor' : Nat)
      (delivered delivered' : List (Except Status RegistryEvent)) :
      Reads (.watching template cursor delivered)
        (.watching template cursor' delivered')

end RegistryPc

open RegistryPc

/-- What one move of the task `i` can do. -/
inductive RegistryMove (config : RegistryConfig) (i : Nat) (h : RegistryShared) :
    RegistryPc → RegistryShared → RegistryPc → List RegistryLog → Prop where
  | claim {pc : RegistryPc} {c l : String} {owned : RegistryEntry → RegistryPc}
      {existing : RegistryEntry} (hclaims : Claims pc c l owned)
      (hget : h.store.get c = some existing)
      (howner : checkOwner existing l = .ok ()) :
      RegistryMove config i h pc h (owned existing) []
  | refuse {pc : RegistryPc} {c l : String} {owned : RegistryEntry → RegistryPc}
      {status : Status} (hclaims : Claims pc c l owned) :
      RegistryMove config i h pc h (.returned (.error status)) []
  | read {pc pc' : RegistryPc} (hreads : pc.Reads pc') :
      RegistryMove config i h pc h pc' []
  | draw {r : RegisterRequest} {c l : String} {granted : LeaseRecord}
      {landlord : Landlord} {entry : RegistryEntry}
      (hc : c ∉ h.landlord.uuids) (hl : l ∉ c :: h.landlord.uuids)
      (hgrant : { h.landlord with uuids := c :: h.landlord.uuids }.grant
        config.lease l ("registry:" ++ c) r.ttlSeconds = .ok (granted, landlord))
      (hentry : entry = {
        capabilityId := c
        leaseId := granted.leaseId
        interface := r.interface
        attrs := r.attrs
        transport := r.transport }) :
      RegistryMove config i h (.register r) { h with landlord := landlord }
        (.insert entry granted) [.drawn i c l]
  | drawFailed {r : RegisterRequest} {c : String} {status : Status}
      (hc : c ∉ h.landlord.uuids) :
      RegistryMove config i h (.register r)
        { h with landlord := { h.landlord with uuids := c :: h.landlord.uuids } }
        (.returned (.error status)) []
  | insert {entry : RegistryEntry} {granted : LeaseRecord} :
      RegistryMove config i h (.insert entry granted)
        { h with store := h.store.insert entry }
        (.send ⟨.registered, entry⟩
          (.registered ⟨entry.capabilityId, some granted⟩)) []
  | update {pc : RegistryPc} {existing entry : RegistryEntry}
      {reply : RegistryReply} (hupdates : Updates pc existing entry reply) :
      RegistryMove config i h pc { h with store := (h.store.update entry).2 }
        (.send ⟨.modified, entry⟩ reply)
        [.updated i entry.capabilityId
          ((h.store.update entry).2.entries.contains entry.capabilityId)]
  | send {event : RegistryChangedEvent} {reply : RegistryReply} :
      RegistryMove config i h (.send event reply)
        { h with sent := h.sent ++ [event] } (.returned (.ok reply))
        [.sent i event]
  | unregister {l : String} {entry : RegistryEntry}
      (hremoved : (h.store.removeByLease l).1 = some entry) :
      RegistryMove config i h (.unregister l)
        { h with store := (h.store.removeByLease l).2 }
        (.send ⟨.expired, entry⟩ .unit) []
  | unregisterNone {l : String} (hremoved : (h.store.removeByLease l).1 = none) :
      RegistryMove config i h (.unregister l)
        { h with store := (h.store.removeByLease l).2 }
        (.returned (.ok .unit)) []
  | renew {r : RegisterRequest} {existing : RegistryEntry} {lpc lpc' : LeasePc}
      {pc' : RegistryPc} {c : LeaseChoice} {landlord : Landlord}
      (hstep : lpc.advance config.lease h.landlord c = some (landlord, lpc'))
      (hafter : afterRenew r existing lpc' = some pc') :
      RegistryMove config i h (.renew r existing lpc)
        { h with landlord := landlord } pc' []
  | lease {lpc lpc' : LeasePc} {c : LeaseChoice} {landlord : Landlord}
      (hstep : lpc.advance config.lease h.landlord c = some (landlord, lpc')) :
      RegistryMove config i h (.lease lpc) { h with landlord := landlord }
        (.lease lpc') []

namespace RegistryMove

variable {config : RegistryConfig} {i : Nat} {h h' : RegistryShared}
  {pc pc' : RegistryPc} {events : List RegistryLog}

theorem of_claim {c l : String} {owned : RegistryEntry → RegistryPc}
    (hmove : RegistryPc.claim h c l owned = some (h', pc', events))
    (hclaims : Claims pc c l owned) :
    RegistryMove config i h pc h' pc' events := by
  unfold RegistryPc.claim at hmove
  split at hmove
  · cases hmove
    exact .refuse hclaims
  · next existing hget =>
    split at hmove <;> cases hmove
    · exact .refuse hclaims
    · next howner => exact .claim hclaims hget howner

theorem of_go (hmove : RegistryPc.go i h pc = some (h', pc', events)) :
    RegistryMove config i h pc h' pc' events := by
  cases pc with
  | register r =>
      simp only [go] at hmove
      split at hmove
      · exact of_claim hmove (.register r)
      · cases hmove
  | insert =>
      cases hmove
      exact .insert
  | updateEntry r existing renewed =>
      cases hmove
      exact .update (.entry r existing renewed)
  | modifyAttrs r => exact of_claim hmove (.modifyAttrs r)
  | updateAttrs r existing =>
      cases hmove
      exact .update (.attrs r existing)
  | send =>
      cases hmove
      exact .send
  | watch =>
      cases hmove
      exact .read (.watch _ _)
  | watching =>
      simp only [go] at hmove
      split at hmove <;> cases hmove
      exact .read (.watching ..)
  | unregister l =>
      simp only [go] at hmove
      cases hmove
      cases hremoved : (h.store.removeByLease l).1 with
      | none => exact .unregisterNone hremoved
      | some entry => exact .unregister hremoved
  | renew | lookup | lookupAll | lease | returned => cases hmove

theorem of_draw {c l : String}
    (hmove : RegistryPc.draw config i h c l pc = some (h', pc', events)) :
    RegistryMove config i h pc h' pc' events := by
  cases pc with
  | register r =>
      simp only [RegistryPc.draw] at hmove
      split at hmove
      · cases hmove
      · next hfresh =>
        simp only [not_or] at hfresh
        split at hmove <;> cases hmove
        · exact .drawFailed hfresh.2.1
        · next hgrant => exact .draw hfresh.2.1 hfresh.2.2 hgrant rfl
  | _ => cases hmove

theorem of_scan {it : RegistryIteration}
    (hmove : RegistryPc.scan h it pc = some (h', pc', events)) :
    RegistryMove config i h pc h' pc' events := by
  cases pc with
  | lookup template =>
      cases hmove
      exact .read (.lookup template _)
  | lookupAll template =>
      cases hmove
      exact .read (.lookupAll template _)
  | _ => cases hmove

theorem of_leaseStep {c : LeaseChoice}
    (hmove : RegistryPc.leaseStep config h c pc = some (h', pc', events)) :
    RegistryMove config i h pc h' pc' events := by
  cases pc with
  | renew r existing lpc =>
      simp only [leaseStep] at hmove
      split at hmove
      · cases hmove
      · next landlord lpc' hstep =>
        obtain ⟨pc₁, hafter, heq⟩ := Option.bind_eq_some_iff.mp hmove
        cases heq
        exact .renew hstep hafter
  | lease lpc =>
      simp only [leaseStep] at hmove
      split at hmove <;> cases hmove
      next hstep => exact .lease hstep
  | _ => cases hmove

theorem of_advance {choice : RegistryChoice}
    (hmove : pc.advance config i h choice = some (h', pc', events)) :
    RegistryMove config i h pc h' pc' events := by
  cases choice with
  | go => exact of_go hmove
  | uuids c l => exact of_draw hmove
  | order it => exact of_scan hmove
  | lease c => exact of_leaseStep hmove

theorem keyed (hmove : RegistryMove config i h pc h' pc' events)
    (hkeyed : h.store.Keyed) : h'.store.Keyed := by
  cases hmove with
  | insert => exact hkeyed.insert _
  | update => exact hkeyed.update _
  | unregister | unregisterNone => exact hkeyed.removeByLease _
  | _ => exact hkeyed

end RegistryMove

theorem RegistryShared.ambient_store {config : RegistryConfig}
    {h h' : RegistryShared} {event : RegistryAmbient}
    {spawned : List RegistryPc}
    (hamb : h.ambient config event = some (h', spawned)) :
    h'.store = h.store := by
  cases event with
  | tick d =>
      cases hamb
      rfl
  | cascade =>
      simp only [RegistryShared.ambient] at hamb
      split at hamb <;> cases hamb <;> rfl

theorem RegistryShared.ambient_landlord {config : RegistryConfig}
    {h h' : RegistryShared} {event : RegistryAmbient}
    {spawned : List RegistryPc}
    (hamb : h.ambient config event = some (h', spawned)) :
    h'.landlord.leases = h.landlord.leases ∧
      h'.landlord.uuids = h.landlord.uuids := by
  cases event with
  | tick d =>
      cases hamb
      exact ⟨rfl, rfl⟩
  | cascade =>
      simp only [RegistryShared.ambient] at hamb
      split at hamb <;> cases hamb <;> exact ⟨rfl, rfl⟩

theorem keyedKeeps (config : RegistryConfig) :
    (registryProgram config).Keeps RegistryProc.new
      (fun h _ _ => h.store.Keyed) (fun _ _ _ _ => True) where
  init := ⟨InMemoryRegistryStore.keyed_new, fun _ _ _ => trivial⟩
  call := fun _ _ _ hkeyed => ⟨hkeyed, trivial⟩
  step := fun _ _ _ hadv hkeyed _ =>
    ⟨(RegistryMove.of_advance hadv).keyed hkeyed, trivial,
      fun _ _ _ _ => trivial⟩
  ambient := fun _ _ hamb hkeyed _ =>
    ⟨RegistryShared.ambient_store hamb ▸ hkeyed, fun _ _ _ => trivial,
      fun _ _ _ => trivial⟩

theorem RegistryReachable.keyed {config : RegistryConfig} {s : RegistryProc}
    (hreach : RegistryReachable config s) : s.shared.store.Keyed :=
  ((keyedKeeps config).holds hreach).1

end Coordin8
