import Coordin8.Lease.Reaper

/-!
# One announcement for each lease

`cancel` reads the lease, deletes it and announces it, and does not learn whether
its delete was the one that removed the lease.  Two cancellations that both find
the lease therefore announce it twice.  A sweep does learn it, and announces only
what it has removed.  So everything is announced once as long as every
cancellation that has found its lease still finds it when it deletes it: the
call that removes a lease is the only one that announces it.
-/

namespace Coordin8

open Support Support.DashMap

/-- The leases that a call has removed and not announced yet. -/
def LeasePc.owed : LeasePc → List String
  | .cancelSend record => [record.leaseId]
  | .drainRemove _ removed | .announce removed =>
      removed.map LeaseRecord.leaseId
  | _ => []

/-- The leases announced so far. -/
def Landlord.announced (l : Landlord) : List String :=
  l.sent.map fun e => e.record.leaseId

/-- A cancellation that has read its lease finds it in the store when it deletes
it. -/
def findsLease (s : LeaseProc) : LeaseAct → Bool
  | .step i _ =>
      match s.tasks[i]? with
      | some (.cancelStore leaseId (some _)) =>
          s.shared.leases.leases.contains leaseId
      | _ => true
  | _ => true

theorem findsLease_cancelStore {s : LeaseProc} {i : Nat} {choice : LeaseChoice}
    {leaseId : String} {record : LeaseRecord}
    (hfinds : findsLease s (.step i choice) = true)
    (hpc : s.tasks[i]? = some (.cancelStore leaseId (some record))) :
    ∃ cur, s.shared.leases.leases[leaseId]? = some cur := by
  simp only [findsLease, hpc] at hfinds
  rwa [Std.ExtTreeMap.contains_eq_isSome_getElem?,
    Option.isSome_iff_exists] at hfinds

/-- Every lease that is gone was removed by one call, and only such leases are
announced, each once. -/
structure RemovedOnce (l : Landlord) (log : List LeaseLog) (n : Nat) : Prop where
  sound : l.Sound fun _ _ => True
  tasks : ∀ e ∈ log, e.task < n
  gone : ∀ i leaseId, .removed i leaseId ∈ log → l.Gone leaseId
  owner : ∀ i j leaseId, .removed i leaseId ∈ log →
    .removed j leaseId ∈ log → i = j
  announced : ∀ leaseId ∈ l.announced, ∃ i, .removed i leaseId ∈ log
  once : l.announced.Nodup

/-- What a call owes was removed by itself, and is not announced yet. -/
structure LeasePc.OwesOnce (l : Landlord) (log : List LeaseLog) (i : Nat)
    (pc : LeasePc) : Prop where
  sound : pc.Sound (fun _ _ => True) l
  nodup : pc.owed.Nodup
  owes : ∀ leaseId ∈ pc.owed, .removed i leaseId ∈ log ∧ leaseId ∉ l.announced

section Moves

variable {config : LeaseConfig} {l l' : Landlord} {pc pc' : LeasePc}
  {log : List LeaseLog} {i j n : Nat} {leaseId : String}

theorem RemovedOnce.not_removed (h : RemovedOnce l log n)
    (hin : ∃ cur, l.leases.leases[leaseId]? = some cur) (i : Nat) :
    .removed i leaseId ∉ log := by
  intro hmem
  obtain ⟨cur, hcur⟩ := hin
  have hgone := (h.gone i leaseId hmem).2
  rw [hcur] at hgone
  cases hgone

theorem LeaseMove.announces (hmove : LeaseMove config l pc l' pc') :
    l'.announced = l.announced ∨
      ∃ leaseId ∈ pc.owed, l'.announced = l.announced ++ [leaseId] := by
  cases hmove with
  | grant hu hgrant =>
      obtain ⟨-, -, rfl⟩ := Landlord.grant_eq_ok hgrant
      exact Or.inl rfl
  | @cancelSent record =>
      refine Or.inr ⟨record.leaseId, List.mem_singleton_self _, ?_⟩
      simp [Landlord.announced, Landlord.send]
  | @announced record removed =>
      refine Or.inr ⟨record.leaseId, List.mem_cons_self, ?_⟩
      simp [Landlord.announced, Landlord.send]
  | _ => exact Or.inl rfl

theorem LeaseMove.lost (hmove : LeaseMove config l pc l' pc')
    (hl : l.Sound fun _ _ => True) (hlost : l.lost l' leaseId = true) :
    l'.Gone leaseId := by
  obtain ⟨⟨cur, hcur⟩, hnone⟩ := Landlord.lost_iff.mp hlost
  refine ⟨hmove.uuids_subset ?_, hnone⟩
  exact (hl.stored leaseId cur hcur).2.1

theorem RemovedOnce.move (h : RemovedOnce l log n) (hi : i < n)
    (hpc : pc.OwesOnce l log i) (hmove : LeaseMove config l pc l' pc') :
    RemovedOnce l' (log ++ pc.events i l l') n := by
  have hnew : ∀ k leaseId, .removed k leaseId ∈ pc.events i l l' →
      k = i ∧ ∀ j, .removed j leaseId ∉ log := by
    intro k leaseId hmem
    obtain ⟨hk, -, hlost⟩ := LeasePc.mem_removed_events.mp hmem
    exact ⟨hk, h.not_removed (Landlord.lost_iff.mp hlost).1⟩
  refine ⟨?_, ?_, ?_, ?_, ?_, ?_⟩
  · exact (hmove.sound h.sound hpc.sound fun _ _ _ _ => trivial).1
  · intro e he
    rcases List.mem_append.mp he with he | he
    · exact h.tasks e he
    · rwa [LeasePc.task_of_mem_events he]
  · intro k leaseId hmem
    rcases List.mem_append.mp hmem with hmem | hmem
    · exact hmove.later.gone _ (h.gone k leaseId hmem)
    · exact hmove.lost h.sound (LeasePc.mem_removed_events.mp hmem).2.2
  · intro k j leaseId hk hj
    rcases List.mem_append.mp hk with hk | hk <;>
      rcases List.mem_append.mp hj with hj | hj
    · exact h.owner k j leaseId hk hj
    · exact absurd hk ((hnew j leaseId hj).2 k)
    · exact absurd hj ((hnew k leaseId hk).2 j)
    · rw [(hnew k leaseId hk).1, (hnew j leaseId hj).1]
  · intro leaseId hmem
    rcases hmove.announces with heq | ⟨id, hid, heq⟩
    · rw [heq] at hmem
      obtain ⟨k, hk⟩ := h.announced leaseId hmem
      exact ⟨k, List.mem_append_left _ hk⟩
    · rw [heq, List.mem_append, List.mem_singleton] at hmem
      rcases hmem with hmem | rfl
      · obtain ⟨k, hk⟩ := h.announced leaseId hmem
        exact ⟨k, List.mem_append_left _ hk⟩
      · exact ⟨i, List.mem_append_left _ (hpc.owes leaseId hid).1⟩
  · rcases hmove.announces with heq | ⟨id, hid, heq⟩
    · rw [heq]
      exact h.once
    · rw [heq]
      refine List.nodup_append.mpr ⟨h.once, List.nodup_singleton id, ?_⟩
      intro a ha b hb
      obtain rfl := List.mem_singleton.mp hb
      rintro rfl
      exact (hpc.owes a hid).2 ha

theorem LeasePc.OwesOnce.other {pcj : LeasePc} (h : pcj.OwesOnce l log j)
    (hglob : RemovedOnce l log n) (hpc : pc.OwesOnce l log i) (hij : j ≠ i)
    (hmove : LeaseMove config l pc l' pc') :
    pcj.OwesOnce l' (log ++ pc.events i l l') j := by
  refine ⟨h.sound.later hmove.later fun _ _ _ h => h, h.nodup, ?_⟩
  intro leaseId hid
  obtain ⟨hremoved, hnot⟩ := h.owes leaseId hid
  refine ⟨List.mem_append_left _ hremoved, ?_⟩
  rcases hmove.announces with heq | ⟨id, hid', heq⟩
  · rwa [heq]
  · rw [heq, List.mem_append, List.mem_singleton, not_or]
    refine ⟨hnot, ?_⟩
    rintro rfl
    exact hij (hglob.owner j i leaseId hremoved (hpc.owes leaseId hid').1)

/-- A call that removes a lease from the store owes its announcement to itself
alone. -/
theorem RemovedOnce.removed (h : RemovedOnce l log n) (hpc : pc.OwesOnce l log i)
    (htarget : pc.target = some leaseId)
    (hin : ∃ cur, l.leases.leases[leaseId]? = some cur) :
    .removed i leaseId ∈ log ++ pc.events i l
        { l with leases := ⟨l.leases.leases.erase leaseId⟩ } ∧
      leaseId ∉ l.announced ∧ leaseId ∉ pc.owed := by
  refine ⟨List.mem_append_right _ ?_, ?_, ?_⟩
  · refine LeasePc.mem_removed_events.mpr ⟨rfl, htarget, ?_⟩
    exact Landlord.lost_iff.mpr ⟨hin, by simp⟩
  · intro hmem
    obtain ⟨k, hk⟩ := h.announced leaseId hmem
    exact h.not_removed hin k hk
  · intro hmem
    exact h.not_removed hin i (hpc.owes leaseId hmem).1

/-- A call keeps track of what it owes, if a cancellation that has found its
lease still finds it. -/
theorem LeasePc.OwesOnce.move (h : pc.OwesOnce l log i)
    (hglob : RemovedOnce l log n)
    (hfinds : ∀ leaseId record, pc = .cancelStore leaseId (some record) →
      ∃ cur, l.leases.leases[leaseId]? = some cur)
    (hmove : LeaseMove config l pc l' pc') :
    pc'.OwesOnce l' (log ++ pc.events i l l') i := by
  refine ⟨(hmove.sound hglob.sound h.sound fun _ _ _ _ => trivial).2, ?_, ?_⟩
  · cases hmove with
    | cancelled => exact List.nodup_singleton _
    | @removed record cur todo removed hget =>
        obtain ⟨-, -, hnot⟩ := hglob.removed h rfl ⟨cur, hget⟩
        rw [owed, List.map_append, List.map_singleton]
        refine List.nodup_append.mpr ⟨h.nodup, List.nodup_singleton _, ?_⟩
        intro a ha b hb
        obtain rfl := List.mem_singleton.mp hb
        rintro rfl
        exact hnot ha
    | kept | drained => exact h.nodup
    | announced => exact (List.nodup_cons.mp h.nodup).2
    | _ => exact List.nodup_nil
  · intro leaseId hid
    cases hmove with
    | @cancelled leaseId' record =>
        obtain ⟨rfl, -⟩ := h.sound record rfl
        obtain rfl := List.mem_singleton.mp hid
        obtain ⟨hremoved, hnot, -⟩ :=
          hglob.removed h rfl (hfinds _ record rfl)
        exact ⟨hremoved, hnot⟩
    | @removed record cur todo removed hget =>
        obtain ⟨hremoved, hnot, -⟩ := hglob.removed h rfl ⟨cur, hget⟩
        rw [owed, List.map_append, List.mem_append, List.map_singleton,
          List.mem_singleton] at hid
        rcases hid with hid | rfl
        · exact ⟨List.mem_append_left _ (h.owes leaseId hid).1,
            (h.owes leaseId hid).2⟩
        · exact ⟨hremoved, hnot⟩
    | kept | drained =>
        exact ⟨List.mem_append_left _ (h.owes leaseId hid).1,
          (h.owes leaseId hid).2⟩
    | @announced record removed =>
        obtain ⟨hnotin, -⟩ := List.nodup_cons.mp h.nodup
        obtain ⟨hremoved, hnot⟩ := h.owes leaseId (List.mem_cons_of_mem _ hid)
        refine ⟨List.mem_append_left _ hremoved, ?_⟩
        simp only [Landlord.announced, Landlord.send, List.map_append,
          List.map_singleton, List.mem_append, List.mem_singleton, not_or]
        refine ⟨hnot, ?_⟩
        rintro rfl
        exact hnotin hid
    | _ => cases hid

end Moves

theorem leaseProgram_once (config : LeaseConfig) (start : Timestamp) :
    Program.KeepsUnder (leaseProgram config)
      (fun s act => findsLease s act = true) (LeaseProc.start start)
      RemovedOnce LeasePc.OwesOnce where
  init := by
    refine ⟨⟨⟨?_, ?_⟩, ?_, ?_, ?_, ?_, List.nodup_nil⟩, ?_⟩ <;>
      simp [LeaseProc.start, Landlord.new, InMemoryLeaseStore.new,
        Landlord.announced]
  call := by
    intro s pc _ _ hentry hglob
    refine ⟨⟨hglob.sound, ?_, hglob.gone, hglob.owner, hglob.announced,
      hglob.once⟩, ?_⟩
    · intro e he
      exact Nat.lt_succ_of_lt (hglob.tasks e he)
    · cases pc with
      | grant | renew | cancel | drainExpired =>
          refine ⟨trivial, List.nodup_nil, ?_⟩
          intro leaseId hmem
          cases hmem
      | _ => cases hentry
  step := by
    intro s i pc choice l' pc' events _ hfinds hpc hadv hglob hloc
    obtain ⟨hmove, rfl⟩ := leaseProgram_advance hadv
    have hi : i < s.tasks.length := (List.getElem?_eq_some_iff.mp hpc).1
    have hown := hloc i pc hpc
    refine ⟨hglob.move hi hown hmove, hown.move hglob ?_ hmove, ?_⟩
    · rintro leaseId record rfl
      exact findsLease_cancelStore hfinds hpc
    · intro j pcj hji hj
      exact (hloc j pcj hj).other hglob hown hji hmove
  ambient := by
    intro s nanoseconds l' spawned _ _ hamb hglob hloc
    simp only [leaseProgram, Option.some.injEq, Prod.mk.injEq] at hamb
    obtain ⟨rfl, rfl⟩ := hamb
    refine ⟨⟨⟨hglob.sound.stored, hglob.sound.sent⟩, hglob.tasks, hglob.gone,
      hglob.owner, hglob.announced, hglob.once⟩, ?_, ?_⟩
    · intro k pc hk
      cases hk
    · intro j pc hj
      obtain ⟨hsound, hnodup, howes⟩ := hloc j pc hj
      refine ⟨hsound.later ?_ fun _ _ _ h => h, hnodup, howes⟩
      exact ⟨List.Subset.refl _, fun _ h => h, List.Subset.refl _⟩

/-- In every run in which each cancellation that has found its lease still finds
it when it deletes it, every lease is announced at most once. -/
theorem reclaimed_at_most_once (config : LeaseConfig) (start : Timestamp)
    {acts : List LeaseAct} {s : LeaseProc}
    (hrun : run (leaseProgram config).step (LeaseProc.start start) acts = some s)
    (hmeet : StepsMeet (leaseProgram config).step
      (fun s act => findsLease s act = true) (LeaseProc.start start) acts) :
    (s.shared.sent.map fun e => e.record.leaseId).Nodup :=
  ((leaseProgram_once config start).holds hrun hmeet).1.once

/-- Two clients cancel one lease, and each reads it before the other deletes
it. -/
def twoCancels : List LeaseAct :=
  [.call (.grant "job" 60), .step 0 (.uuid "lease-1"),
    .call (.cancel "lease-1"), .call (.cancel "lease-1"),
    .step 1 .go, .step 2 .go, .step 1 .go, .step 2 .go,
    .step 1 .go, .step 2 .go]

def cancelledTwice : LeaseProc :=
  (run (leaseProgram uncapped).step (LeaseProc.start 0) twoCancels).get
    (by decide +kernel)

/-- Both cancellations are announced. -/
theorem two_cancels_announced_twice :
    run (leaseProgram uncapped).step (LeaseProc.start 0) twoCancels =
        some cancelledTwice ∧
      cancelledTwice.shared.sent.map (fun e => (e.record.leaseId, e.reason)) =
        [("lease-1", .cancelled), ("lease-1", .cancelled)] ∧
      ¬ (cancelledTwice.shared.sent.map fun e => e.record.leaseId).Nodup :=
  ⟨(Option.some_get _).symm, rfl, by decide +kernel⟩

/-- A client cancels one lease while another one expires. -/
def cancelAndSweep : List LeaseAct :=
  [.call (.grant "job" 60), .step 0 (.uuid "lease-1"),
    .call (.grant "job" 120), .step 1 (.uuid "lease-2"),
    .ambient (60 * 10 ^ 9), .call .drainExpired, .call (.cancel "lease-2"),
    .step 2 (.order .sorted), .step 3 .go, .step 2 .go, .step 3 .go,
    .step 3 .go, .step 2 .go, .step 2 .go]

def bothReclaimed : LeaseProc :=
  (run (leaseProgram uncapped).step (LeaseProc.start 0) cancelAndSweep).get
    (by decide +kernel)

theorem reclaimed_at_most_once_sweep :
    bothReclaimed.shared.sent.map (fun e => (e.record.leaseId, e.reason)) =
        [("lease-2", .cancelled), ("lease-1", .expired)] ∧
      (bothReclaimed.shared.sent.map fun e => e.record.leaseId).Nodup := by
  have hmeet : StepsMeet (leaseProgram uncapped).step
      (fun s act => findsLease s act = true) (LeaseProc.start 0)
      cancelAndSweep := by
    decide +kernel
  exact ⟨rfl, reclaimed_at_most_once uncapped 0 (Option.some_get _).symm hmeet⟩

end Coordin8
