import Coordin8.Registry.Moves

/-!
# Concurrent updates of one entry

`modify_attrs` reads the whole entry, changes its copy, and writes the copy
back.  Two owners' calls that both read before either writes lose the change of
the one that writes first.  When every call writes while the entry it read is
still the stored one, the entry at the end has the changes of all of them.
-/

namespace Coordin8

open Support Support.DashMap

/-! ## What a request asks for -/

namespace ModifyAttrsRequest

/-- The attributes the request adds or removes. -/
def keys (r : ModifyAttrsRequest) : List String :=
  r.removeAttrs ++ r.addAttrs.keys

/-- The additions are there, and what is removed and not added is not. -/
def Reflected (r : ModifyAttrsRequest) (e : RegistryEntry) : Prop :=
  (∀ (k v : String), r.addAttrs[k]? = some v → e.attrs[k]? = some v) ∧
    ∀ k ∈ r.removeAttrs, r.addAttrs[k]? = none → e.attrs[k]? = none

end ModifyAttrsRequest

theorem RegistryHost.get_modified (r : ModifyAttrsRequest) (e : RegistryEntry)
    (k : String) :
    (modified r e).attrs[k]? = r.addAttrs[k]?.or
      (if k ∈ r.removeAttrs then none else e.attrs[k]?) := by
  simp [modified, get_insertAll_toList, get_eraseAll]

namespace ModifyAttrsRequest

variable {r r' : ModifyAttrsRequest} {e : RegistryEntry}

theorem reflected_modified (r : ModifyAttrsRequest) (e : RegistryEntry) :
    r.Reflected (RegistryHost.modified r e) := by
  refine ⟨fun k v hadd => ?_, fun k hremove hadd => ?_⟩
  · simp [RegistryHost.get_modified, hadd]
  · simp [RegistryHost.get_modified, hadd, hremove]

theorem get_modified_of_notMem {k : String} (hk : k ∉ r.keys) :
    (RegistryHost.modified r e).attrs[k]? = e.attrs[k]? := by
  simp only [keys, List.mem_append, not_or, Std.ExtTreeMap.mem_keys] at hk
  rw [RegistryHost.get_modified, if_neg hk.1,
    Std.ExtTreeMap.getElem?_eq_none hk.2, Option.none_or]

/-- So a request on other attributes keeps what is reflected. -/
theorem Reflected.modified (h : r'.Reflected e)
    (hdisjoint : r.keys.Disjoint r'.keys) :
    r'.Reflected (RegistryHost.modified r e) := by
  refine ⟨fun k v hadd => ?_, fun k hremove hadd => ?_⟩
  · have hkey : k ∈ r'.keys := by
      have hmem : k ∈ r'.addAttrs := Std.ExtTreeMap.mem_iff_isSome_getElem?.mpr
        (Option.isSome_of_eq_some hadd)
      simp [keys, hmem]
    rw [get_modified_of_notMem fun hk => hdisjoint hk hkey]
    exact h.1 k v hadd
  · have hkey : k ∈ r'.keys := List.mem_append_left _ hremove
    rw [get_modified_of_notMem fun hk => hdisjoint hk hkey]
    exact h.2 k hremove hadd

end ModifyAttrsRequest

/-! ## The calls -/

/-- The process with calls of `modify_attrs` started. -/
def RegistryProc.modifying (s : RegistryProc) (rs : List ModifyAttrsRequest) :
    RegistryProc :=
  { s with tasks := s.tasks ++ rs.map .modifyAttrs }

/-- The step is one of a call started at `n` or later. -/
def stepFrom (n : Nat) : RegistryAct → Bool
  | .step i _ => n ≤ i
  | _ => false

/-- A call of `modify_attrs` writes only while the entry it read is the stored
one. -/
def writesCurrent (s : RegistryProc) : RegistryAct → Bool
  | .step i _ =>
      match s.tasks[i]? with
      | some (.updateAttrs r existing) =>
          s.shared.store.get r.capabilityId = some existing
      | _ => true
  | _ => true

/-- Where a call of `modify_attrs` on the capability `c` stands, and that its
request is reflected once it has written. -/
inductive ModifyStage (c : String) (r : ModifyAttrsRequest)
    (h : RegistryShared) : RegistryPc → Prop where
  | begun : ModifyStage c r h (.modifyAttrs r)
  | read {existing : RegistryEntry} : ModifyStage c r h (.updateAttrs r existing)
  | written {event : RegistryChangedEvent} {reply : RegistryReply}
      {e : RegistryEntry} (hget : h.store.get c = some e)
      (hreflected : r.Reflected e) : ModifyStage c r h (.send event reply)
  | done {reply : RegistryReply} {e : RegistryEntry}
      (hget : h.store.get c = some e) (hreflected : r.Reflected e) :
      ModifyStage c r h (.returned (.ok reply))
  | failed {status : Status} : ModifyStage c r h (.returned (.error status))

namespace ModifyStage

variable {config : RegistryConfig} {c : String} {r r' : ModifyAttrsRequest}
  {i : Nat} {h h' : RegistryShared} {pc pc' : RegistryPc}
  {events : List RegistryLog}

/-- A move of one of the calls leaves the store alone, or writes its own changes
over the stored entry. -/
theorem move (hstage : ModifyStage c r h pc)
    (hmove : RegistryMove config i h pc h' pc' events) (hrc : r.capabilityId = c)
    (hkeyed : h.store.Keyed)
    (hcurrent : ∀ existing, pc = .updateAttrs r existing →
      h.store.get r.capabilityId = some existing) :
    ModifyStage c r h' pc' ∧
      (h'.store = h.store ∨ ∃ existing, h.store.get c = some existing ∧
        h'.store.entries =
          h.store.entries.insert c (RegistryHost.modified r existing)) := by
  cases hstage with
  | begun =>
      cases hmove with
      | claim hclaims =>
          cases hclaims
          exact ⟨.read, .inl rfl⟩
      | refuse => exact ⟨.failed, .inl rfl⟩
      | read hpc | update hpc => cases hpc
  | @read existing =>
      cases hmove with
      | update hupdates =>
          cases hupdates
          have hget := hcurrent existing rfl
          have hid : (RegistryHost.modified r existing).capabilityId = c :=
            (hkeyed _ _ hget).trans hrc
          rw [hrc] at hget
          have hentries := InMemoryRegistryStore.entries_update
            (hid.symm ▸ hget : h.store.get
              (RegistryHost.modified r existing).capabilityId = some existing)
          rw [hid] at hentries
          refine ⟨.written (e := RegistryHost.modified r existing) ?_
            (r.reflected_modified existing), .inr ⟨existing, hget, hentries⟩⟩
          simp [InMemoryRegistryStore.get, hentries]
      | claim hpc | refuse hpc | read hpc => cases hpc
  | written hget hreflected =>
      cases hmove with
      | send => exact ⟨.done hget hreflected, .inl rfl⟩
      | claim hpc | refuse hpc | read hpc | update hpc => cases hpc
  | done | failed =>
      cases hmove with
      | claim hpc | refuse hpc | read hpc | update hpc => cases hpc

theorem of_store (hstage : ModifyStage c r' h pc)
    (hdisjoint : r.keys.Disjoint r'.keys)
    (hstore : h'.store = h.store ∨ ∃ existing, h.store.get c = some existing ∧
      h'.store.entries =
        h.store.entries.insert c (RegistryHost.modified r existing)) :
    ModifyStage c r' h' pc := by
  -- what is reflected in the stored entry is reflected in the new one
  have hkept : ∀ e, h.store.get c = some e → r'.Reflected e →
      ∃ e', h'.store.get c = some e' ∧ r'.Reflected e' := by
    intro e hget hreflected
    rcases hstore with hstore | ⟨existing, hexisting, hentries⟩
    · exact ⟨e, hstore ▸ hget, hreflected⟩
    · obtain rfl := Option.some.inj (hget.symm.trans hexisting)
      exact ⟨RegistryHost.modified r e,
        by simp [InMemoryRegistryStore.get, hentries],
        hreflected.modified hdisjoint⟩
  cases hstage with
  | begun => exact .begun
  | read => exact .read
  | written hget hreflected =>
      obtain ⟨e', hget', hreflected'⟩ := hkept _ hget hreflected
      exact .written hget' hreflected'
  | done hget hreflected =>
      obtain ⟨e', hget', hreflected'⟩ := hkept _ hget hreflected
      exact .done hget' hreflected'
  | failed => exact .failed

end ModifyStage

/-! ## Every interleaving of the calls -/

section Run

variable {config : RegistryConfig} {s s' : RegistryProc} {c : String}
  {rs : List ModifyAttrsRequest}

theorem disjoint_of_ne {i j : Nat} {r r' : ModifyAttrsRequest}
    (hdisjoint : rs.Pairwise fun r r' => r.keys.Disjoint r'.keys) (hij : i ≠ j)
    (hi : rs[i]? = some r) (hj : rs[j]? = some r') :
    r.keys.Disjoint r'.keys := by
  obtain ⟨hilt, rfl⟩ := List.getElem?_eq_some_iff.mp hi
  obtain ⟨hjlt, rfl⟩ := List.getElem?_eq_some_iff.mp hj
  rcases Nat.lt_or_gt_of_ne hij with hlt | hgt
  · exact List.pairwise_iff_getElem.mp hdisjoint i j hilt hjlt hlt
  · exact (List.pairwise_iff_getElem.mp hdisjoint j i hjlt hilt hgt).symm

theorem modifyingKeeps (hkeyed : s.shared.store.Keyed)
    (hget : (s.shared.store.get c).isSome)
    (hcap : ∀ r ∈ rs, r.capabilityId = c)
    (hdisjoint : rs.Pairwise fun r r' => r.keys.Disjoint r'.keys) :
    (registryProgram config).KeepsUnder
      (fun t act => stepFrom s.tasks.length act = true ∧
        writesCurrent t act = true)
      (s.modifying rs)
      (fun h _ n => h.store.Keyed ∧ (h.store.get c).isSome ∧
        n = s.tasks.length + rs.length)
      (fun h _ i pc => ∀ r, s.tasks.length ≤ i →
        rs[i - s.tasks.length]? = some r → ModifyStage c r h pc) where
  init := by
    refine ⟨⟨hkeyed, hget, by simp [RegistryProc.modifying]⟩,
      fun i pc hpc r hle hr => ?_⟩
    simp only [RegistryProc.modifying] at hpc
    rw [List.getElem?_append_right hle, List.getElem?_map, hr] at hpc
    obtain rfl := Option.some.inj hpc
    exact .begun
  call := fun _ hmeet => nomatch hmeet.1
  ambient := fun _ hmeet => nomatch hmeet.1
  step := by
    rintro t i pc choice h' pc' events - ⟨hle, hcurrent⟩ hpc hadv
      ⟨hkeyed, hget, hlength⟩ hloc
    have hle : s.tasks.length ≤ i := of_decide_eq_true hle
    have hi : i - s.tasks.length < rs.length := by
      have hlt := (List.getElem?_eq_some_iff.mp hpc).1
      omega
    have hr : rs[i - s.tasks.length]? = some rs[i - s.tasks.length] :=
      List.getElem?_eq_getElem hi
    generalize rs[i - s.tasks.length] = r at hr
    have hrc := hcap r (List.mem_of_getElem? hr)
    obtain ⟨hown, hstore⟩ := (hloc i pc hpc r hle hr).move
      (.of_advance hadv) hrc hkeyed (by
        rintro existing rfl
        simpa [writesCurrent, hpc] using hcurrent)
    refine ⟨⟨(RegistryMove.of_advance hadv).keyed hkeyed, ?_, hlength⟩, ?_, ?_⟩
    · rcases hstore with hstore | ⟨existing, -, hentries⟩
      · exact hstore ▸ hget
      · simp [InMemoryRegistryStore.get, hentries]
    · intro r' _ hr'
      obtain rfl := Option.some.inj (hr.symm.trans hr')
      exact hown
    · intro j pcj hne hj r' hlej hr'
      have hij : i - s.tasks.length ≠ j - s.tasks.length := by omega
      exact (hloc j pcj hj r' hlej hr').of_store
        (disjoint_of_ne hdisjoint hij hr hr') hstore

/-- No update is lost among concurrent calls on disjoint attributes whose writes
each find the entry they read. -/
theorem modify_attrs_reflected {e : RegistryEntry} {acts : List RegistryAct}
    (hreach : RegistryReachable config s) (hget : s.shared.store.get c = some e)
    (howner : ∀ r ∈ rs, r.capabilityId = c ∧ r.leaseId = e.leaseId)
    (hdisjoint : rs.Pairwise fun r r' => r.keys.Disjoint r'.keys)
    (hacts : ∀ a ∈ acts, stepFrom s.tasks.length a = true)
    (hmeet : StepsMeet (registryProgram config).step
      (fun t act => writesCurrent t act = true) (s.modifying rs) acts)
    (hrun : run (registryProgram config).step (s.modifying rs) acts = some s')
    (hok : ∀ i < rs.length, ∃ reply,
      s'.tasks[s.tasks.length + i]? = some (.returned (.ok reply))) :
    ∃ e', s'.shared.store.get c = some e' ∧ ∀ r ∈ rs, r.Reflected e' := by
  have hmeet' := (stepsMeet_of_forall (fun a ha _ => hacts a ha) _).and
    (fun _ _ hfrom hcurrent => And.intro hfrom hcurrent) hmeet
  obtain ⟨⟨-, hsome, -⟩, hstages⟩ :=
    (modifyingKeeps hreach.keyed (Option.isSome_of_eq_some hget)
      (fun r hr => (howner r hr).1) hdisjoint).holds hrun hmeet'
  obtain ⟨e', hget'⟩ := Option.isSome_iff_exists.mp hsome
  refine ⟨e', hget', fun r hr => ?_⟩
  obtain ⟨i, hi, rfl⟩ := List.getElem_of_mem hr
  obtain ⟨reply, hreturned⟩ := hok i hi
  cases hstages _ _ hreturned rs[i] (Nat.le_add_right _ _)
    (by simp [List.getElem?_eq_getElem hi]) with
  | done hget'' hreflected =>
      obtain rfl := Option.some.inj (hget'.symm.trans hget'')
      exact hreflected

end Run

/-! ## Two calls -/

def RegistryPc.ok : RegistryPc → Bool
  | .returned (.ok _) => true
  | _ => false

theorem RegistryPc.exists_reply_of_ok {pc? : Option RegistryPc}
    (h : pc?.any RegistryPc.ok = true) :
    ∃ reply, pc? = some (.returned (.ok reply)) := by
  obtain ⟨pc, rfl, hok⟩ := (Option.any_eq_true _ _).mp h
  unfold RegistryPc.ok at hok
  split at hok
  · exact ⟨_, rfl⟩
  · cases hok

def registryDefaults : RegistryConfig where
  lease := .default
  capacity := 256

def registration : List RegistryAct :=
  [.call (.register ⟨"Greeter", ∅, 60, none, "", ""⟩),
    .step 0 (.uuids "c" "l"), .step 0 .go, .step 0 .go]

def registered : RegistryProc :=
  (run (registryProgram registryDefaults).step RegistryProc.new
    registration).get (by decide +kernel)

def registeredEntry : RegistryEntry :=
  (registered.shared.store.get "c").get (by decide +kernel)

theorem registered_reachable : RegistryReachable registryDefaults registered :=
  ⟨registration, (Option.some_get _).symm⟩

/-- The owner sets one attribute in each of two calls. -/
def twoUpdates : List ModifyAttrsRequest :=
  [⟨"c", (∅ : Attrs).insert "zone" "a", [], "l"⟩,
    ⟨"c", (∅ : Attrs).insert "load" "high", ["idle"], "l"⟩]

theorem twoUpdates_disjoint :
    twoUpdates.Pairwise fun r r' => r.keys.Disjoint r'.keys := by
  unfold List.Disjoint
  decide +kernel

def inTurn : List RegistryAct :=
  [.step 1 .go, .step 1 .go, .step 1 .go, .step 2 .go, .step 2 .go, .step 2 .go]

def updatedInTurn : RegistryProc :=
  (run (registryProgram registryDefaults).step (registered.modifying twoUpdates)
    inTurn).get (by decide +kernel)

theorem modify_attrs_reflected_in_turn :
    ∃ e', updatedInTurn.shared.store.get "c" = some e' ∧
      ∀ r ∈ twoUpdates, r.Reflected e' := by
  have hget : registered.shared.store.get "c" = some registeredEntry :=
    (Option.some_get _).symm
  have hrun : run (registryProgram registryDefaults).step
      (registered.modifying twoUpdates) inTurn = some updatedInTurn :=
    (Option.some_get _).symm
  have hdone : ∀ i < twoUpdates.length,
      updatedInTurn.tasks[registered.tasks.length + i]?.any RegistryPc.ok =
        true := by decide +kernel
  have hacts : ∀ a ∈ inTurn, stepFrom registered.tasks.length a = true :=
    List.all_eq_true.mp (by decide +kernel)
  exact modify_attrs_reflected registered_reachable hget (by decide +kernel)
    twoUpdates_disjoint hacts (by decide +kernel) hrun
    fun i hi => RegistryPc.exists_reply_of_ok (hdone i hi)

/-- Both calls read before either writes. -/
def overlapping : List RegistryAct :=
  [.step 1 .go, .step 2 .go, .step 1 .go, .step 1 .go, .step 2 .go, .step 2 .go]

def updatedOverlapping : RegistryProc :=
  (run (registryProgram registryDefaults).step (registered.modifying twoUpdates)
    overlapping).get (by decide +kernel)

/-- Both calls succeed, and the attribute of the first is not there. -/
theorem modify_attrs_lost_update :
    RegistryReachable registryDefaults registered ∧
      registered.shared.store.get "c" = some registeredEntry ∧
      (∀ r ∈ twoUpdates,
        r.capabilityId = "c" ∧ r.leaseId = registeredEntry.leaseId) ∧
      (twoUpdates.Pairwise fun r r' => r.keys.Disjoint r'.keys) ∧
      (∀ a ∈ overlapping, stepFrom registered.tasks.length a = true) ∧
      run (registryProgram registryDefaults).step
        (registered.modifying twoUpdates) overlapping =
          some updatedOverlapping ∧
      (∀ i < twoUpdates.length, ∃ reply,
        updatedOverlapping.tasks[registered.tasks.length + i]? =
          some (.returned (.ok reply))) ∧
      ¬ ∃ e', updatedOverlapping.shared.store.get "c" = some e' ∧
        ∀ r ∈ twoUpdates, r.Reflected e' := by
  have hdone : ∀ i < twoUpdates.length,
      updatedOverlapping.tasks[registered.tasks.length + i]?.any
        RegistryPc.ok = true := by decide +kernel
  have hlost : (updatedOverlapping.shared.store.get "c").any
      (fun e => e.attrs["zone"]? = none) = true := by decide +kernel
  refine ⟨registered_reachable, (Option.some_get _).symm, by decide +kernel,
    twoUpdates_disjoint, ?_, (Option.some_get _).symm,
    fun i hi => RegistryPc.exists_reply_of_ok (hdone i hi), ?_⟩
  · exact List.all_eq_true.mp (by decide +kernel)
  · rintro ⟨e', hget, hreflected⟩
    have hzone := (hreflected _ List.mem_cons_self).1 "zone" "a"
      (by decide +kernel)
    obtain ⟨e, he, hnone⟩ := (Option.any_eq_true _ _).mp hlost
    obtain rfl := Option.some.inj (hget.symm.trans he)
    simp only [decide_eq_true_eq, hzone] at hnone
    cases hnone

end Coordin8
