import Coordin8.Registry.Ownership
import Coordin8.Registry.Updates

/-!
# Updates of a capability that is gone

`index.update` says with `None` that the capability is not there, and neither of
its callers looks.  A call that is about to update when the cascade removes the
capability broadcasts MODIFIED after EXPIRED and returns success.  The renewal
of a re-registration protects it up to its own answer: a lease that has been
reclaimed is not renewed.
-/

namespace Coordin8

open Support Support.DashMap InMemoryRegistryStore

/-- Every MODIFIED event is of a capability that was there after the update of
its call, and a call whose update came too late neither broadcasts one nor
succeeds. -/
structure GoneStaysGone (s : RegistryProc) : Prop where
  modified : ∀ task event, .sent task event ∈ s.log →
    event.eventType = .modified →
      .updated task event.entry.capabilityId true ∈ s.log
  late : ∀ task c, .updated task c false ∈ s.log →
    (∀ event, .sent task event ∈ s.log → event.eventType ≠ .modified) ∧
      ∀ reply, s.tasks[task]? ≠ some (.returned (.ok reply))

/-- The capability whose entry the call writes back next. -/
def RegistryPc.toUpdate : RegistryPc → Option String
  | .updateEntry r _ _ => some r.capabilityId
  | .updateAttrs r _ => some r.capabilityId
  | _ => none

/-- The handler of a reclaimed lease removes an entry only while no call is
about to write it back. -/
def waitsForUpdates (s : RegistryProc) : RegistryAct → Bool
  | .step i _ =>
      match s.tasks[i]? with
      | some (.unregister l) =>
          match s.shared.store.leaseIndex[l]? with
          | some c => s.tasks.all fun pc => pc.toUpdate ≠ some c
          | none => true
      | _ => true
  | _ => true

/-- What holds of a call: what it is about to write is there, or, while it still
renews, its lease is gone. -/
def RegistryPc.InTime (h : RegistryShared) (log : List RegistryLog) (i : Nat) :
    RegistryPc → Prop
  | .renew r existing _ =>
      (h.store.get r.capabilityId).isSome ∨ h.landlord.Gone existing.leaseId
  | .updateEntry r _ _ | .updateAttrs r _ => (h.store.get r.capabilityId).isSome
  | .send event _ => event.eventType = .modified →
      .updated i event.entry.capabilityId true ∈ log
  | _ => True

/-- What holds of the log. -/
structure UpdatesInTime (log : List RegistryLog) : Prop where
  updated : ∀ task c present, .updated task c present ∈ log → present = true
  sent : ∀ task event, .sent task event ∈ log → event.eventType = .modified →
    .updated task event.entry.capabilityId true ∈ log

section Steps

variable {config : RegistryConfig} {i j : Nat} {h h' : RegistryShared}
  {pc pc' other : RegistryPc} {log events : List RegistryLog} {c : String}

theorem RegistryMove.get_isSome (hmove : RegistryMove config i h pc h' pc' events)
    (hsome : (h.store.get c).isSome) :
    (h'.store.get c).isSome ∨
      ∃ l, pc = .unregister l ∧ h.store.leaseIndex[l]? = some c := by
  unfold InMemoryRegistryStore.get at hsome ⊢
  cases hmove with
  | @insert entry granted =>
      left
      simp only [InMemoryRegistryStore.insert, get_insert]
      split
      · rfl
      · exact hsome
  | @update pc existing entry reply hupdates =>
      left
      unfold InMemoryRegistryStore.update
      split
      · rw [get_insert]
        split
        · rfl
        · exact hsome
      · exact hsome
  | @unregister l | @unregisterNone l =>
      unfold InMemoryRegistryStore.removeByLease
      cases hrow : h.store.leaseIndex[l]? with
      | none => exact .inl hsome
      | some c' =>
          by_cases heq : c' = c
          · exact .inr ⟨l, rfl, heq ▸ hrow⟩
          · left
            simpa [get_erase, heq] using hsome
  | _ => exact .inl hsome

theorem InMemoryRegistryStore.contains_update {s : InMemoryRegistryStore}
    {entry : RegistryEntry} (hsome : (s.get entry.capabilityId).isSome) :
    (s.update entry).2.entries.contains entry.capabilityId = true := by
  obtain ⟨old, hold⟩ := Option.isSome_iff_exists.mp hsome
  simp [entries_update hold]

theorem RegistryPc.Updates.toUpdate {existing entry : RegistryEntry}
    {reply : RegistryReply} (hupdates : pc.Updates existing entry reply)
    (hpc : pc.Owned h log i) (hin : pc.InTime h log i) :
    (h.store.get entry.capabilityId).isSome := by
  cases hupdates with
  | entry r existing renewed => exact hin
  | attrs r existing =>
      have hread : ReadEntry log r.capabilityId r.leaseId existing := hpc
      have hsome : (h.store.get r.capabilityId).isSome := hin
      rwa [← hread.capability] at hsome

theorem RegistryMove.inTime (hmove : RegistryMove config i h pc h' pc' events)
    (howned : Owned h log) (hpc : pc.Owned h log i) (hlog : UpdatesInTime log)
    (hin : pc.InTime h log i) :
    UpdatesInTime (log ++ events) ∧ pc'.InTime h' (log ++ events) i := by
  have hlater := hmove.later
  cases hmove with
  | claim hclaims hget =>
      rw [List.append_nil]
      refine ⟨hlog, ?_⟩
      have hsome := Option.isSome_of_eq_some hget
      cases hclaims with
      | register r => exact .inl hsome
      | modifyAttrs r => exact hsome
  | read hreads =>
      rw [List.append_nil]
      refine ⟨hlog, ?_⟩
      cases hreads <;> trivial
  | refuse | drawFailed | unregisterNone | lease =>
      rw [List.append_nil]
      exact ⟨hlog, trivial⟩
  | insert | unregister =>
      rw [List.append_nil]
      exact ⟨hlog, nofun⟩
  | draw =>
      refine ⟨⟨fun task c present hmem => ?_, fun task event hmem hmod => ?_⟩,
        trivial⟩
      · exact hlog.updated task c present (by simpa using hmem)
      · exact List.mem_append_left _ (hlog.sent task event (by simpa using hmem)
          hmod)
  | @update pc existing entry reply hupdates =>
      have hcontains := contains_update (hupdates.toUpdate hpc hin)
      rw [hcontains]
      refine ⟨⟨fun task c present hmem => ?_, fun task event hmem hmod => ?_⟩,
        fun _ => by simp⟩
      · rcases List.mem_append.mp hmem with hmem | hmem
        · exact hlog.updated task c present hmem
        · simp only [List.mem_singleton, RegistryLog.updated.injEq] at hmem
          exact hmem.2.2
      · exact List.mem_append_left _ (hlog.sent task event (by simpa using hmem)
          hmod)
  | @send event reply =>
      refine ⟨⟨fun task c present hmem => ?_, fun task event' hmem hmod => ?_⟩,
        trivial⟩
      · exact hlog.updated task c present (by simpa using hmem)
      · refine List.mem_append_left _ ?_
        rcases List.mem_append.mp hmem with hmem | hmem
        · exact hlog.sent task event' hmem hmod
        · obtain ⟨rfl, rfl⟩ : task = i ∧ event' = event := by simpa using hmem
          exact hin hmod
  | @renew r existing lpc lpc' pc' choice landlord hstep hafter =>
      rw [List.append_nil]
      refine ⟨hlog, ?_⟩
      rcases (LeaseMove.of_advance hstep).renews hpc.2 howned.sound with
        hrenews | ⟨e, rfl⟩ | ⟨record, rfl, -, hthere⟩
      · have hin' : (h.store.get r.capabilityId).isSome ∨
            landlord.Gone existing.leaseId := hin.imp_right (hlater.gone _)
        cases hrenews <;> cases hafter <;> exact hin'
      · cases hafter
        trivial
      · have hsome : (h.store.get r.capabilityId).isSome :=
          hin.resolve_right fun hgone => hthere (hlater.gone _ hgone)
        simp only [RegistryPc.afterRenew] at hafter
        split at hafter <;> cases hafter
        · exact hsome
        · trivial

/-- A move of another call leaves the invariant alone, when a handler waits for
the calls that are about to write. -/
theorem RegistryPc.InTime.undisturbed
    (hmove : RegistryMove config j h pc h' pc' events) (howned : Coordin8.Owned h log)
    (hpc : pc.Owned h log j) (hother : other.Owned h log i)
    (hwaits : ∀ l c, pc = .unregister l → h.store.leaseIndex[l]? = some c →
      other.toUpdate ≠ some c)
    (hin : other.InTime h log i) : other.InTime h' (log ++ events) i := by
  have hkept : ∀ c, other.toUpdate = some c → (h.store.get c).isSome →
      (h'.store.get c).isSome := by
    intro c htarget hsome
    rcases hmove.get_isSome hsome with hsome' | ⟨l, hl, hrow⟩
    · exact hsome'
    · exact absurd htarget (hwaits l c hl hrow)
  cases other with
  | renew r existing lpc =>
      obtain ⟨hread, -⟩ := hother
      rcases hin with hsome | hgone
      · rcases hmove.get_isSome hsome with hsome' | ⟨l, rfl, hrow⟩
        · exact .inl hsome'
        · -- the entry was removed with its lease, which is the one being renewed
          obtain ⟨e, he, rfl⟩ := (howned.indexed l r.capabilityId).mp hrow
          obtain ⟨_, hdrawn⟩ := hread.drawn
          obtain ⟨_, hdrawn'⟩ := howned.entries he
          have hlease := (howned.drawn.capability hdrawn hdrawn').2
          have hgone : h.landlord.Gone e.leaseId := hpc
          rw [← hlease, ← hread.lease] at hgone
          exact .inr (hmove.later.gone _ hgone)
      · exact .inr (hmove.later.gone _ hgone)
  | updateEntry r existing renewed | updateAttrs r existing =>
      exact hkept r.capabilityId rfl hin
  | send event reply =>
      exact fun hmod => List.mem_append_left _ (hin hmod)
  | _ => trivial

end Steps

/-! ## Every run -/

theorem inTimeKeeps (config : RegistryConfig) :
    (registryProgram config).KeepsUnder (fun s act => waitsForUpdates s act = true)
      RegistryProc.new (fun _ log _ => UpdatesInTime log)
      (fun h log i pc => pc.InTime h log i) where
  init := by
    refine ⟨⟨?_, ?_⟩, ?_⟩
    all_goals simp [RegistryProc.new]
  call := by
    intro s pc _ _ hentry hlog
    refine ⟨hlog, ?_⟩
    cases pc with
    | renew | updateEntry | updateAttrs | send => cases hentry
    | _ => trivial
  step := by
    intro s i pc choice h' pc' events hreach hwaits hpc hadv hlog hloc
    have hmove := RegistryMove.of_advance hadv
    obtain ⟨howned, hpcs⟩ := RegistryReachable.owned hreach
    obtain ⟨hlog', hown⟩ :=
      hmove.inTime howned (hpcs i pc hpc) hlog (hloc i pc hpc)
    refine ⟨hlog', hown, fun j pcj _ hj => ?_⟩
    refine RegistryPc.InTime.undisturbed hmove howned (hpcs i pc hpc)
      (hpcs j pcj hj) ?_ (hloc j pcj hj)
    rintro l c rfl hrow
    simp only [waitsForUpdates, hpc, hrow, List.all_eq_true,
      decide_eq_true_eq] at hwaits
    exact hwaits pcj (List.mem_of_getElem? hj)
  ambient := by
    intro s event h' spawned _ _ hamb hlog hloc
    obtain ⟨hlater, -, -, hspawned⟩ := RegistryShared.ambient_later hamb
    have hstore := RegistryShared.ambient_store hamb
    refine ⟨hlog, fun k pc hk => ?_, fun j pc hj => ?_⟩
    · obtain ⟨e, -, rfl⟩ := hspawned pc (List.mem_of_getElem? hk)
      trivial
    · have hin := hloc j pc hj
      cases pc with
      | renew r existing lpc =>
          exact hin.imp (fun hsome => hstore ▸ hsome) (hlater.gone _)
      | updateEntry r _ _ | updateAttrs r _ =>
          show (h'.store.get r.capabilityId).isSome
          rw [hstore]
          exact hin
      | _ => exact hin

/-- In every run in which the handlers wait for the calls that are about to
write, a capability that is gone stays gone for watchers. -/
theorem gone_stays_gone {config : RegistryConfig} {acts : List RegistryAct}
    {s : RegistryProc}
    (hrun : run (registryProgram config).step RegistryProc.new acts = some s)
    (hmeet : StepsMeet (registryProgram config).step
      (fun s act => waitsForUpdates s act = true) RegistryProc.new acts) :
    GoneStaysGone s := by
  obtain ⟨hlog, -⟩ := (inTimeKeeps config).holds hrun hmeet
  refine ⟨hlog.sent, fun task c hlate => ?_⟩
  cases hlog.updated task c false hlate

/-- The entry's lease is cancelled and the cascade removes the entry, while the
owner re-registers with another interface before that. -/
def reregisterThenCancel : List RegistryAct :=
  registration ++
    [.call (.register ⟨"Greeter2", ∅, 60, none, "c", "l"⟩),
      .step 1 .go, .step 1 (.lease .go), .step 1 (.lease .go), .step 1 .go,
      .step 1 .go,
      .call (.lease (.cancel "l")), .step 2 (.lease .go), .step 2 (.lease .go),
      .step 2 (.lease .go), .ambient .cascade, .step 3 .go, .step 3 .go]

def reregisteredThenGone : RegistryProc :=
  (run (registryProgram registryDefaults).step RegistryProc.new
    reregisterThenCancel).get (by decide +kernel)

theorem gone_stays_gone_reregistered : GoneStaysGone reregisteredThenGone := by
  have hrun : run (registryProgram registryDefaults).step RegistryProc.new
      reregisterThenCancel = some reregisteredThenGone :=
    (Option.some_get _).symm
  exact gone_stays_gone hrun (by decide +kernel)

/-- The entry is removed between the ownership check of `modify_attrs` and its
update. -/
def cancelWhileModifying : List RegistryAct :=
  registration ++
    [.call (.modifyAttrs ⟨"c", (∅ : Attrs).insert "zone" "a", [], "l"⟩),
      .step 1 .go,
      .call (.lease (.cancel "l")), .step 2 (.lease .go), .step 2 (.lease .go),
      .step 2 (.lease .go), .ambient .cascade, .step 3 .go, .step 3 .go,
      .step 1 .go, .step 1 .go]

def modifiedWhenGone : RegistryProc :=
  (run (registryProgram registryDefaults).step RegistryProc.new
    cancelWhileModifying).get (by decide +kernel)

/-- The update finds nothing; MODIFIED is broadcast after EXPIRED, and the call
returns success. -/
theorem modified_after_expired :
    run (registryProgram registryDefaults).step RegistryProc.new
        cancelWhileModifying = some modifiedWhenGone ∧
      ¬ GoneStaysGone modifiedWhenGone ∧
      .updated 1 "c" false ∈ modifiedWhenGone.log ∧
      modifiedWhenGone.shared.sent.map (fun e => (e.eventType, e.entry.capabilityId)) =
        [(.registered, "c"), (.expired, "c"), (.modified, "c")] ∧
      modifiedWhenGone.tasks[1]?.any RegistryPc.ok = true ∧
      modifiedWhenGone.shared.store.get "c" = none := by
  have hlate : .updated 1 "c" false ∈ modifiedWhenGone.log := by decide +kernel
  have hok : modifiedWhenGone.tasks[1]?.any RegistryPc.ok = true := by
    decide +kernel
  refine ⟨(Option.some_get _).symm, fun hgone => ?_, hlate, by decide +kernel, hok,
    by decide +kernel⟩
  obtain ⟨reply, hreturned⟩ := RegistryPc.exists_reply_of_ok hok
  exact (hgone.late 1 "c" hlate).2 reply hreturned

end Coordin8
