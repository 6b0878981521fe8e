import Coordin8.Lease.Reclaim
import Coordin8.Support.Pool

/-!
# The reaper and the calls around it

A lease manager as a process of its own: clients grant, renew and cancel leases
while the reaper sweeps, and the clock goes forward.  A sweep lists the expired
leases and then removes them one by one, unless they were renewed meanwhile.
The log says which call took which lease out of the store, and what each sweep
has returned.

A renewal may come at any moment between the listing and the removal.  What
makes the removal safe is that a listed record and the current one have the same
expiry, so that the current one is due as well.  This says nothing about a lease
without end, whose expiry is the last representable instant; before that instant
it is never due.
-/

namespace Coordin8

open Support Support.DashMap

/-- A call took a lease out of the store, or a sweep returned the leases that it
has removed. -/
inductive LeaseLog where
  | removed (task : Nat) (leaseId : String)
  | drained (task : Nat) (records : List LeaseRecord)
deriving DecidableEq

/-- The call that an entry of the log is about. -/
def LeaseLog.task : LeaseLog → Nat
  | .removed task _ | .drained task _ => task

namespace LeasePc

/-- The lease that the next move may take out of the store. -/
def target : LeasePc → Option String
  | .cancelStore leaseId _ => some leaseId
  | .drainRemove (record :: _) _ => some record.leaseId
  | _ => none

/-- What `drain_expired` returns, when it is done. -/
def drained : LeasePc → Option (List LeaseRecord)
  | .drainRemove [] removed => some removed
  | _ => none

/-- A sweep that has listed the expired leases. -/
def Sweeping : LeasePc → Prop
  | .drainRemove .. => True
  | _ => False

end LeasePc

/-- The lease was in the store, and is not any more. -/
def Landlord.lost (l l' : Landlord) (leaseId : String) : Bool :=
  l.leases.leases.contains leaseId && !l'.leases.leases.contains leaseId

/-- What a move enters in the log. -/
def LeasePc.events (task : Nat) (l l' : Landlord) (pc : LeasePc) :
    List LeaseLog :=
  (pc.target.toList.filter (l.lost l')).map (.removed task) ++
    pc.drained.toList.map (.drained task)

/-- The process of a lease manager; the clock moves by the given number of
nanoseconds. -/
def leaseProgram (config : LeaseConfig) :
    Program Landlord LeasePc LeaseLog LeaseChoice Nat where
  entry := LeasePc.entry
  advance task l pc choice :=
    (pc.advance config l choice).map fun out =>
      (out.1, out.2, pc.events task l out.1)
  ambient l nanoseconds := some ({ l with now := l.now + nanoseconds }, [])

abbrev LeaseProc := Pool Landlord LeasePc LeaseLog

abbrev LeaseAct := PoolAct LeasePc LeaseChoice Nat

/-- A lease manager with an empty store, at some time. -/
def LeaseProc.start (now : Timestamp) : LeaseProc where
  shared := { Landlord.new with now := now }
  tasks := []
  log := []

/-- The states of the process that some interleaving of calls reaches. -/
def LeaseReachable (config : LeaseConfig) (start : Timestamp) (s : LeaseProc) :
    Prop :=
  Reachable (leaseProgram config).step (LeaseProc.start start) s

variable {leaseId : String} {i : Nat} {records : List LeaseRecord}

section Advance

variable {config : LeaseConfig} {task : Nat} {l l' : Landlord}
  {pc pc' : LeasePc} {choice : LeaseChoice} {events : List LeaseLog}

theorem leaseProgram_advance
    (hadv : (leaseProgram config).advance task l pc choice =
      some (l', pc', events)) :
    LeaseMove config l pc l' pc' ∧ events = pc.events task l l' := by
  obtain ⟨⟨l₁, pc₁⟩, hmove, heq⟩ := Option.map_eq_some_iff.mp hadv
  simp only [Prod.mk.injEq] at heq
  obtain ⟨rfl, rfl, rfl⟩ := heq
  exact ⟨.of_advance hmove, rfl⟩

theorem Landlord.lost_iff :
    l.lost l' leaseId = true ↔
      (∃ record, l.leases.leases[leaseId]? = some record) ∧
        l'.leases.leases[leaseId]? = none := by
  simp only [Landlord.lost, Bool.and_eq_true, Bool.not_eq_true',
    Std.ExtTreeMap.contains_eq_isSome_getElem?, Option.isSome_iff_exists,
    Option.isSome_eq_false_iff, Option.isNone_iff_eq_none]

theorem LeasePc.mem_removed_events :
    .removed i leaseId ∈ pc.events task l l' ↔
      i = task ∧ pc.target = some leaseId ∧ l.lost l' leaseId = true := by
  simp only [LeasePc.events, List.mem_append, List.mem_map, List.mem_filter,
    Option.mem_toList, LeaseLog.removed.injEq, reduceCtorEq, and_false,
    exists_false, or_false]
  constructor
  · rintro ⟨id, ⟨htarget, hlost⟩, rfl, rfl⟩
    exact ⟨rfl, htarget, hlost⟩
  · rintro ⟨rfl, htarget, hlost⟩
    exact ⟨leaseId, ⟨htarget, hlost⟩, rfl, rfl⟩

theorem LeasePc.mem_drained_events :
    .drained i records ∈ pc.events task l l' ↔
      i = task ∧ pc.drained = some records := by
  simp only [LeasePc.events, List.mem_append, List.mem_map, Option.mem_toList,
    LeaseLog.drained.injEq, reduceCtorEq, and_false, exists_false, false_or]
  constructor
  · rintro ⟨records', hdrained, rfl, rfl⟩
    exact ⟨rfl, hdrained⟩
  · rintro ⟨rfl, hdrained⟩
    exact ⟨records, hdrained, rfl, rfl⟩

theorem LeasePc.task_of_mem_events {e : LeaseLog}
    (he : e ∈ pc.events task l l') : e.task = task := by
  cases e with
  | removed i leaseId => exact (mem_removed_events.mp he).1
  | drained i records => exact (mem_drained_events.mp he).1

end Advance

/-! ## What a removal finds -/

/-- Every lease is filed under its id, and one without end expires at the last
instant. -/
def Landlord.Dated (l : Landlord) : Prop :=
  ∀ (k : String) (record : LeaseRecord), l.leases.leases[k]? = some record →
    record.leaseId = k ∧
      (record.ttlSeconds = leaseForever → record.expiresAt = maxUtc)

theorem expiryFor_forever {now expiry : Timestamp} {ttlSecs : UInt64}
    (hexpiry : expiryFor now ttlSecs = .ok expiry)
    (hforever : ttlSecs = leaseForever) : expiry = maxUtc := by
  rw [expiryFor, if_pos hforever] at hexpiry
  exact (Except.ok.inj hexpiry).symm

section Dated

variable {config : LeaseConfig} {l l' : Landlord} {pc pc' : LeasePc}

theorem Landlord.grant_forever {u resourceId : String} {ttlSecs : UInt64}
    {record : LeaseRecord}
    (hgrant : l.grant config u resourceId ttlSecs = .ok (record, l'))
    (hforever : record.ttlSeconds = leaseForever) :
    record.expiresAt = maxUtc := by
  obtain ⟨hterm, hexpiry⟩ := Landlord.grant_expiry hgrant
  exact expiryFor_forever hexpiry (hterm.symm.trans hforever)

theorem Landlord.Dated.insert (h : l.Dated) {k : String} {record : LeaseRecord}
    (hid : record.leaseId = k)
    (hexpiry : record.ttlSeconds = leaseForever → record.expiresAt = maxUtc) :
    Landlord.Dated { l with leases := ⟨l.leases.leases.insert k record⟩ } := by
  intro k' record' hk'
  simp only [get_insert] at hk'
  split at hk'
  · next heq =>
    obtain rfl := Option.some.inj hk'
    exact ⟨hid.trans heq, hexpiry⟩
  · exact h k' record' hk'

theorem Landlord.Dated.erase (h : l.Dated) (k : String) :
    Landlord.Dated { l with leases := ⟨l.leases.leases.erase k⟩ } := by
  intro k' record' hk'
  simp only [get_erase] at hk'
  split at hk'
  · cases hk'
  · exact h k' record' hk'

theorem LeaseMove.dated (hmove : LeaseMove config l pc l' pc') (h : l.Dated) :
    l'.Dated := by
  cases hmove with
  | grant hu hgrant =>
      have hforever := Landlord.grant_forever hgrant
      obtain ⟨hid, -, rfl⟩ := Landlord.grant_eq_ok hgrant
      have hdated := h.insert hid hforever
      exact hdated
  | @renewed leaseId ttlSecs record expiry hget hexpiry =>
      apply h.insert
      · exact (h leaseId record hget).1
      · exact expiryFor_forever hexpiry
  | cancelled | cancelledUnknown | removed => exact h.erase _
  | _ => exact h

theorem Landlord.Dated.listExpired (h : l.Dated) (it : LeaseIteration) :
    (∀ record ∈ l.leases.listExpired it l.now, record.expiresAt ≤ l.now) ∧
      ((l.leases.listExpired it l.now).map LeaseRecord.leaseId).Nodup := by
  constructor
  · intro record hrecord
    have hexpired := (List.mem_filter.mp hrecord).2
    unfold LeaseRecord.isExpired at hexpired
    split at hexpired
    · cases hexpired
    · exact of_decide_eq_true hexpired
  · have hids : ((it.entries l.leases.leases).map Prod.snd).map
        LeaseRecord.leaseId = (it.entries l.leases.leases).map Prod.fst := by
      rw [List.map_map]
      apply List.map_congr_left
      intro e he
      exact (h e.1 e.2 (it.mem_entries.mp he)).1
    have hnodup := it.nodup_keys l.leases.leases
    rw [← hids] at hnodup
    exact hnodup.sublist (List.filter_sublist.map _)

end Dated

/-! ## What a sweep has removed -/

/-- The leases that a call has taken out of the store are those of `records`. -/
def Tallies (log : List LeaseLog) (i : Nat) (records : List LeaseRecord) :
    Prop :=
  ∀ leaseId, .removed i leaseId ∈ log ↔
    leaseId ∈ records.map LeaseRecord.leaseId

/-- The call has not returned from `drain_expired`. -/
def NotDrained (log : List LeaseLog) (i : Nat) : Prop :=
  ∀ records, .drained i records ∉ log

/-- The sweeps that have returned. -/
structure SweepsTally (l : Landlord) (log : List LeaseLog) (n : Nat) : Prop where
  dated : l.Dated
  tasks : ∀ e ∈ log, e.task < n
  returned : ∀ i records, .drained i records ∈ log →
    (records.map LeaseRecord.leaseId).Nodup ∧ Tallies log i records

/-- A sweep under way. -/
def LeasePc.Tallied (l : Landlord) (log : List LeaseLog) (i : Nat) :
    LeasePc → Prop
  | .drainExpired => NotDrained log i ∧ Tallies log i []
  | .drainRemove todo removed =>
      NotDrained log i ∧ (∀ record ∈ todo, record.expiresAt ≤ l.now) ∧
        ((removed ++ todo).map LeaseRecord.leaseId).Nodup ∧
        Tallies log i removed
  | .announce _ | .returned _ => True
  | _ => NotDrained log i

section Tally

variable {config : LeaseConfig} {l l' : Landlord} {pc pc' : LeasePc}
  {log events : List LeaseLog} {i j n : Nat}

theorem Tallies.append_of_ne
    (h : Tallies log i records) (hevents : ∀ e ∈ events, e.task ≠ i) :
    Tallies (log ++ events) i records := by
  intro leaseId
  rw [← h leaseId, List.mem_append, or_iff_left]
  intro hmem
  exact hevents _ hmem rfl

theorem NotDrained.append_of_ne (h : NotDrained log i)
    (hevents : ∀ e ∈ events, e.task ≠ i) : NotDrained (log ++ events) i := by
  intro records hmem
  rcases List.mem_append.mp hmem with hmem | hmem
  · exact h records hmem
  · exact hevents _ hmem rfl

theorem LeasePc.Tallied.append_of_ne (h : pc.Tallied l log i)
    (hevents : ∀ e ∈ events, e.task ≠ i) : pc.Tallied l (log ++ events) i := by
  cases pc with
  | drainExpired => exact ⟨h.1.append_of_ne hevents, h.2.append_of_ne hevents⟩
  | drainRemove todo removed =>
      obtain ⟨hnot, hdue, hnodup, htallies⟩ := h
      exact ⟨hnot.append_of_ne hevents, hdue, hnodup,
        htallies.append_of_ne hevents⟩
  | announce | returned => trivial
  | _ => exact NotDrained.append_of_ne h hevents

theorem LeasePc.Tallied.later (h : pc.Tallied l log i) (hnow : l.now ≤ l'.now) :
    pc.Tallied l' log i := by
  cases pc with
  | drainRemove todo removed =>
      obtain ⟨hnot, hdue, hnodup, htallies⟩ := h
      refine ⟨hnot, ?_, hnodup, htallies⟩
      intro record hrecord
      exact le_trans (hdue record hrecord) hnow
  | _ => exact h

theorem NotDrained.append_events (h : NotDrained log i)
    (hdrained : pc.drained = none) :
    NotDrained (log ++ pc.events i l l') i := by
  intro records hmem
  rcases List.mem_append.mp hmem with hmem | hmem
  · exact h records hmem
  · rw [LeasePc.mem_drained_events, hdrained] at hmem
    cases hmem.2

theorem Tallies.append_events (h : Tallies log i records)
    (htarget : ∀ leaseId, pc.target = some leaseId →
      l.lost l' leaseId = false) : Tallies (log ++ pc.events i l l') i records := by
  intro leaseId
  rw [← h leaseId, List.mem_append, or_iff_left]
  intro hmem
  obtain ⟨-, hpc, hlost⟩ := LeasePc.mem_removed_events.mp hmem
  rw [htarget leaseId hpc] at hlost
  cases hlost

theorem Tallies.removed {record cur : LeaseRecord}
    {todo removed : List LeaseRecord} (h : Tallies log i removed)
    (hget : l.leases.leases[record.leaseId]? = some cur) :
    Tallies (log ++ LeasePc.events i l
      { l with leases := ⟨l.leases.leases.erase record.leaseId⟩ }
      (.drainRemove (record :: todo) removed)) i (removed ++ [record]) := by
  intro leaseId
  have hlost : l.lost { l with
      leases := ⟨l.leases.leases.erase record.leaseId⟩ } record.leaseId = true := by
    rw [Landlord.lost_iff]
    exact ⟨⟨cur, hget⟩, by simp⟩
  rw [List.mem_append, h leaseId, LeasePc.mem_removed_events, List.map_append,
    List.mem_append, List.map_singleton, List.mem_singleton]
  refine or_congr Iff.rfl ?_
  constructor
  · rintro ⟨-, htarget, -⟩
    exact (Option.some.inj htarget).symm
  · rintro rfl
    exact ⟨rfl, rfl, hlost⟩

theorem LeaseMove.tallied (hmove : LeaseMove config l pc l' pc') (hl : l.Dated)
    (h : pc.Tallied l log i) : pc'.Tallied l' (log ++ pc.events i l l') i := by
  cases hmove with
  | renewRead | cancelRead | cancelled =>
      exact NotDrained.append_events h rfl
  | @listed it =>
      obtain ⟨hnot, htallies⟩ := h
      obtain ⟨hdue, hnodup⟩ := hl.listExpired it
      refine ⟨hnot.append_events rfl, hdue, hnodup, htallies.append_events ?_⟩
      intro leaseId htarget
      cases htarget
  | @removed record cur todo removed hget =>
      obtain ⟨hnot, hdue, hnodup, htallies⟩ := h
      refine ⟨hnot.append_events rfl, ?_, ?_, htallies.removed hget⟩
      · intro r hr
        exact hdue r (List.mem_cons_of_mem _ hr)
      · rwa [List.append_assoc, List.singleton_append]
  | @kept record todo removed =>
      obtain ⟨hnot, hdue, hnodup, htallies⟩ := h
      refine ⟨hnot.append_events rfl, ?_, ?_, htallies.append_events ?_⟩
      · intro r hr
        exact hdue r (List.mem_cons_of_mem _ hr)
      · refine hnodup.sublist (List.Sublist.map _ ?_)
        exact (List.sublist_cons_self record todo).append_left removed
      · intro leaseId _
        simp [Landlord.lost]
  | _ => trivial

theorem SweepsTally.move (h : SweepsTally l log n) (hi : i < n)
    (hpc : pc.Tallied l log i) (hmove : LeaseMove config l pc l' pc') :
    SweepsTally l' (log ++ pc.events i l l') n := by
  refine ⟨hmove.dated h.dated, ?_, ?_⟩
  · intro e he
    rcases List.mem_append.mp he with he | he
    · exact h.tasks e he
    · rwa [LeasePc.task_of_mem_events he]
  · intro j records hmem
    rcases List.mem_append.mp hmem with hold | hnew
    · obtain ⟨hnodup, htallies⟩ := h.returned j records hold
      refine ⟨hnodup, ?_⟩
      by_cases hij : j = i
      · subst hij
        -- The sweep is over, so that the call has nothing left to remove.
        apply htallies.append_events
        intro leaseId htarget
        cases pc with
        | cancelStore => exact absurd hold (hpc records)
        | drainRemove => exact absurd hold (hpc.1 records)
        | _ => cases htarget
      · apply htallies.append_of_ne
        intro e he
        rw [LeasePc.task_of_mem_events he]
        exact Ne.symm hij
    · obtain ⟨rfl, hdrained⟩ := LeasePc.mem_drained_events.mp hnew
      cases pc with
      | drainRemove todo removed =>
          cases todo with
          | nil =>
              obtain rfl := Option.some.inj hdrained
              obtain ⟨-, -, hnodup, htallies⟩ := hpc
              rw [List.append_nil] at hnodup
              refine ⟨hnodup, htallies.append_events ?_⟩
              intro leaseId htarget
              cases htarget
          | cons record todo => cases hdrained
      | _ => cases hdrained

end Tally

theorem leaseProgram_tallies (config : LeaseConfig) (start : Timestamp) :
    Program.Keeps (leaseProgram config) (LeaseProc.start start)
      SweepsTally LeasePc.Tallied where
  init := by
    refine ⟨⟨?_, ?_, ?_⟩, ?_⟩ <;>
      simp [LeaseProc.start, Landlord.new, InMemoryLeaseStore.new, Landlord.Dated]
  call := by
    intro s pc _ _ hentry hglob
    -- Nothing in the log is about a call that has just started.
    have hnew : ∀ e ∈ s.log, e.task ≠ s.tasks.length := by
      intro e he
      exact Nat.ne_of_lt (hglob.tasks e he)
    have hnot : NotDrained s.log s.tasks.length := by
      intro records hmem
      exact hnew _ hmem rfl
    refine ⟨⟨hglob.dated, ?_, hglob.returned⟩, ?_⟩
    · intro e he
      exact Nat.lt_succ_of_lt (hglob.tasks e he)
    · cases pc with
      | drainExpired =>
          refine ⟨hnot, fun leaseId => ?_⟩
          rw [List.map_nil, iff_false_right List.not_mem_nil]
          intro hmem
          exact hnew _ hmem rfl
      | drainRemove => cases hentry
      | announce | returned => trivial
      | _ => exact hnot
  step := by
    intro s i pc choice l' pc' events _ _ hpc hadv hglob hloc
    obtain ⟨hmove, rfl⟩ := leaseProgram_advance hadv
    have hi : i < s.tasks.length := (List.getElem?_eq_some_iff.mp hpc).1
    refine ⟨hglob.move hi (hloc i pc hpc) hmove,
      hmove.tallied hglob.dated (hloc i pc hpc), ?_⟩
    intro j pcj hji hj
    apply ((hloc j pcj hj).later (le_of_eq hmove.now_eq.symm)).append_of_ne
    intro e he
    rw [LeasePc.task_of_mem_events he]
    exact Ne.symm hji
  ambient := by
    intro s nanoseconds l' spawned _ _ hamb hglob hloc
    simp only [leaseProgram, Option.some.injEq, Prod.mk.injEq] at hamb
    obtain ⟨rfl, rfl⟩ := hamb
    refine ⟨⟨hglob.dated, hglob.tasks, hglob.returned⟩, ?_, ?_⟩
    · intro k pc hk
      cases hk
    · intro j pc hj
      apply (hloc j pc hj).later
      exact Int.le_add_of_nonneg_right (Int.natCast_nonneg _)

/-! ## No live lease is removed -/

/-- A lease that a sweep takes out of the store is due by its current record,
and has an end as long as the last instant is not reached. -/
theorem LeaseMove.due {config : LeaseConfig} {l l' : Landlord}
    {pc pc' : LeasePc} {log : List LeaseLog}
    (hmove : LeaseMove config l pc l' pc') (hl : l.Dated)
    (hpc : pc.Tallied l log i) (hsweeping : pc.Sweeping)
    {record : LeaseRecord} (hget : l.leases.leases[leaseId]? = some record)
    (hgone : l'.leases.leases[leaseId]? = none) :
    record.expiresAt ≤ l.now ∧
      (l.now < maxUtc → record.ttlSeconds ≠ leaseForever) := by
  cases hmove with
  | @removed listed cur todo removed hcur hsame =>
      obtain ⟨-, hdue, -, -⟩ := hpc
      -- The lease that is gone is the listed one.
      have hid : listed.leaseId = leaseId := by
        by_contra hne
        simp only [get_erase, if_neg hne, hget] at hgone
        cases hgone
      subst hid
      obtain rfl := Option.some.inj (hcur.symm.trans hget)
      have hexpired : cur.expiresAt ≤ l.now := by
        rw [hsame]
        exact hdue listed List.mem_cons_self
      refine ⟨hexpired, ?_⟩
      intro hnow hforever
      rw [(hl _ _ hcur).2 hforever] at hexpired
      exact absurd hnow (not_lt_of_ge hexpired)
  | kept | drained =>
      rw [hget] at hgone
      cases hgone
  | _ => exact False.elim hsweeping

/-- In every interleaving of calls and sweeps, a lease that a sweep removes is
due at that moment by its current record, and is not one without end as long as
the clock is before the last instant; and a sweep returns the leases that it has
removed, each once. -/
theorem drainExpired_removes_due (config : LeaseConfig) (start : Timestamp)
    {s : LeaseProc} (hreach : LeaseReachable config start s) :
    (∀ i choice s' pc, s.tasks[i]? = some pc → pc.Sweeping →
      (leaseProgram config).step s (.step i choice) = some s' →
      ∀ (leaseId : String) (record : LeaseRecord),
        s.shared.leases.leases[leaseId]? = some record →
        s'.shared.leases.leases[leaseId]? = none →
        record.expiresAt ≤ s.shared.now ∧
          (s.shared.now < maxUtc → record.ttlSeconds ≠ leaseForever)) ∧
    (∀ i records, .drained i records ∈ s.log →
      (records.map LeaseRecord.leaseId).Nodup ∧
        ∀ leaseId, leaseId ∈ records.map LeaseRecord.leaseId ↔
          .removed i leaseId ∈ s.log) := by
  obtain ⟨hglob, hloc⟩ := (leaseProgram_tallies config start).holds hreach
  constructor
  · intro i choice s' pc hpc hsweeping hstep leaseId record hget hgone
    obtain ⟨pc₁, l', pc', events, hpc₁, hadv, rfl⟩ := Program.step_step.mp hstep
    obtain rfl := Option.some.inj (hpc.symm.trans hpc₁)
    obtain ⟨hmove, -⟩ := leaseProgram_advance hadv
    exact hmove.due hglob.dated (hloc i pc hpc) hsweeping hget hgone
  · intro i records hmem
    obtain ⟨hnodup, htallies⟩ := hglob.returned i records hmem
    exact ⟨hnodup, fun leaseId => (htallies leaseId).symm⟩

def uncapped : LeaseConfig where
  maxTtl := none
  preferredTtl := 300

/-- A lease of a minute is removed when the minute is over. -/
def minuteOver : List LeaseAct :=
  [.call (.grant "job" 60), .step 0 (.uuid "lease-1"),
    .ambient (60 * 10 ^ 9), .call .drainExpired, .step 1 (.order .sorted),
    .step 1 .go, .step 1 .go]

def minuteSwept : LeaseProc :=
  (run (leaseProgram uncapped).step (LeaseProc.start 0)
    minuteOver).get (by decide +kernel)

theorem drainExpired_removes_due_minute :
    minuteSwept.log = [.removed 1 "lease-1", .drained 1 [{
      leaseId := "lease-1"
      resourceId := "job"
      grantedAt := 0
      expiresAt := 60 * 10 ^ 9
      ttlSeconds := 60 }]] ∧
    ∀ i records, .drained i records ∈ minuteSwept.log →
      ∀ leaseId, leaseId ∈ records.map LeaseRecord.leaseId ↔
        .removed i leaseId ∈ minuteSwept.log := by
  have hreach : LeaseReachable uncapped 0 minuteSwept :=
    ⟨minuteOver, (Option.some_get _).symm⟩
  refine ⟨rfl, ?_⟩
  intro i records hmem
  exact ((drainExpired_removes_due uncapped 0 hreach).2 i records hmem).2

end Coordin8
