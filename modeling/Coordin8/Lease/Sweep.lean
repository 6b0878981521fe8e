import Coordin8.Lease.Manager

/-!
# A sweep over a store that fails

One iteration of `run_reaper` over any lease store whose calls may fail, without
an effect when they do.  `drain_expired` collects the leases that it removes, and
hands them out only when no call has failed; an error in the middle of the loop
drops the ones collected so far, and nobody announces them.
-/

namespace Coordin8

open Support Support.DashMap

/-- The calls of the `LeaseStore` trait that a sweep makes, when they succeed,
and what the store holds. -/
structure LeaseStore (σ : Type*) where
  get : σ → String → Option LeaseRecord
  listExpired : σ → List LeaseRecord
  removeIfUnchanged : σ → LeaseRecord → Bool × σ

namespace LeaseStore

variable {σ : Type*}

/-- The lease is still the version in the record. -/
def Current (store : LeaseStore σ) (s : σ) (record : LeaseRecord) : Prop :=
  ∃ cur, store.get s record.leaseId = some cur ∧
    cur.expiresAt = record.expiresAt

/-- What the trait asks of `remove_if_unchanged`. -/
structure Lawful (store : LeaseStore σ) : Prop where
  removed : ∀ s record, store.Current s record →
    (store.removeIfUnchanged s record).1 = true ∧
      ∀ leaseId, store.get (store.removeIfUnchanged s record).2 leaseId =
        if record.leaseId = leaseId then none else store.get s leaseId
  kept : ∀ s record, ¬ store.Current s record →
    store.removeIfUnchanged s record = (false, s)

end LeaseStore

/-- What the outside does to a sweep: whether the listing fails, what other
calls change before it is back, and which removals fail. -/
structure SweepWeather (σ : Type*) where
  listFault : Option Error
  meanwhile : σ → σ
  fault : LeaseRecord → Option Error

section Sweep

variable {σ : Type*} (store : LeaseStore σ) (w : SweepWeather σ)

/-- The loop of `drain_expired`. -/
def drainLoop : σ → List LeaseRecord → List LeaseRecord →
    Except Error (List LeaseRecord) × σ
  | s, removed, [] => (.ok removed, s)
  | s, removed, record :: todo =>
      match w.fault record with
      | some e => (.error e, s)
      | none =>
          let (gone, s) := store.removeIfUnchanged s record
          drainLoop s (if gone then removed ++ [record] else removed) todo

def drainExpired (s : σ) : Except Error (List LeaseRecord) × σ :=
  match w.listFault with
  | some e => (.error e, w.meanwhile s)
  | none => drainLoop store w (w.meanwhile s) [] (store.listExpired s)

/-- One iteration of the reaper: what it sends, and the store after it. -/
def reaperIteration (s : σ) : List LeaseReclaimed × σ :=
  match drainExpired store w s with
  | (.ok expired, s) =>
      (expired.map fun record => { record := record, reason := .expired }, s)
  | (.error _, s) => ([], s)

/-- Every lease that the iteration has removed has been sent. -/
def AnnouncesRemoved (s : σ) : Prop :=
  ∀ leaseId, (∃ record, store.get (w.meanwhile s) leaseId = some record) →
    store.get (reaperIteration store w s).2 leaseId = none →
    ∃ e ∈ (reaperIteration store w s).1,
      e.record.leaseId = leaseId ∧ e.reason = .expired

/-- The records that the loop gets to before a removal fails. -/
def SweepWeather.reached (records : List LeaseRecord) : List LeaseRecord :=
  records.takeWhile fun record => (w.fault record).isNone

variable {store w}

/-! ## What the loop does -/

/-- After the loop has gone over some records, the current ones among them are
gone, and nothing else has changed. -/
structure Drained (store : LeaseStore σ) (s s' : σ) (reached : List LeaseRecord) :
    Prop where
  gone : ∀ record ∈ reached, store.Current s record →
    store.get s' record.leaseId = none
  same : ∀ leaseId, (∀ record ∈ reached, store.Current s record →
    record.leaseId ≠ leaseId) → store.get s' leaseId = store.get s leaseId

theorem Drained.refl (s : σ) : Drained store s s [] := by
  constructor
  · intro record hrecord
    cases hrecord
  · intro leaseId _
    rfl

theorem Drained.removed (hstore : store.Lawful) {s s' : σ}
    {record : LeaseRecord} {reached : List LeaseRecord}
    (hcurrent : store.Current s record)
    (h : Drained store (store.removeIfUnchanged s record).2 s' reached) :
    Drained store s s' (record :: reached) := by
  obtain ⟨-, hget⟩ := hstore.removed s record hcurrent
  -- The other leases are as current as they were.
  have hsame : ∀ r, record.leaseId ≠ r.leaseId →
      (store.Current (store.removeIfUnchanged s record).2 r ↔
        store.Current s r) := by
    intro r hne
    rw [LeaseStore.Current, LeaseStore.Current, hget, if_neg hne]
  have hnot : ∀ r, store.Current (store.removeIfUnchanged s record).2 r →
      record.leaseId ≠ r.leaseId := by
    rintro r ⟨cur, hcur, -⟩ heq
    rw [hget, if_pos heq] at hcur
    cases hcur
  have hrecord : store.get s' record.leaseId = none := by
    rw [h.same]
    · rw [hget, if_pos rfl]
    · intro r _ hr
      exact Ne.symm (hnot r hr)
  constructor
  · intro r hr hcur
    by_cases heq : record.leaseId = r.leaseId
    · rw [← heq]
      exact hrecord
    · rcases List.mem_cons.mp hr with rfl | hr
      · exact absurd rfl heq
      · exact h.gone r hr ((hsame r heq).mpr hcur)
  · intro leaseId hothers
    have hne := hothers record List.mem_cons_self hcurrent
    rw [h.same leaseId, hget, if_neg hne]
    intro r hr hcur
    have hcur' := (hsame r (hnot r hcur)).mp hcur
    exact hothers r (List.mem_cons_of_mem _ hr) hcur'

theorem Drained.kept {s s' : σ} {record : LeaseRecord}
    {reached : List LeaseRecord} (hchanged : ¬ store.Current s record)
    (h : Drained store s s' reached) : Drained store s s' (record :: reached) := by
  constructor
  · intro r hr hcur
    rcases List.mem_cons.mp hr with rfl | hr
    · exact absurd hcur hchanged
    · exact h.gone r hr hcur
  · intro leaseId hothers
    apply h.same
    intro r hr
    exact hothers r (List.mem_cons_of_mem _ hr)

variable (w) in
theorem drainLoop_drained (hstore : store.Lawful) (s : σ)
    (removed todo : List LeaseRecord) :
    Drained store s (drainLoop store w s removed todo).2 (w.reached todo) := by
  induction todo generalizing s removed with
  | nil => exact .refl s
  | cons record todo ih =>
      simp only [drainLoop, SweepWeather.reached, List.takeWhile_cons]
      cases hfault : w.fault record with
      | some e => exact .refl s
      | none =>
          by_cases hcurrent : store.Current s record
          · exact .removed hstore hcurrent (ih _ _)
          · have hkept := hstore.kept s record hcurrent
            simp only [hkept]
            exact .kept hcurrent (ih s removed)

theorem drainLoop_collects (hstore : store.Lawful) {s s' : σ}
    {removed todo records : List LeaseRecord}
    (h : drainLoop store w s removed todo = (.ok records, s')) :
    (∀ record ∈ removed, record ∈ records) ∧
      ∀ record ∈ todo, store.Current s record →
        record.leaseId ∈ records.map LeaseRecord.leaseId := by
  induction todo generalizing s removed with
  | nil =>
      obtain ⟨hrecords, -⟩ := Prod.mk.inj h
      obtain rfl := Except.ok.inj hrecords
      exact ⟨fun record hrecord => hrecord, fun record hrecord => by cases hrecord⟩
  | cons record todo ih =>
      simp only [drainLoop] at h
      cases hfault : w.fault record with
      | some e => simp [hfault] at h
      | none =>
          simp only [hfault] at h
          by_cases hcurrent : store.Current s record
          · obtain ⟨hgone, hget⟩ := hstore.removed s record hcurrent
            rw [hgone, if_pos rfl] at h
            obtain ⟨hold, hnew⟩ := ih h
            have hrecord : record ∈ records := by
              apply hold
              exact List.mem_append_right _ (List.mem_singleton_self record)
            refine ⟨fun r hr => hold r (List.mem_append_left _ hr), ?_⟩
            intro r hr hcur
            by_cases heq : record.leaseId = r.leaseId
            · rw [← heq]
              exact List.mem_map_of_mem hrecord
            · rcases List.mem_cons.mp hr with rfl | hr
              · exact absurd rfl heq
              · apply hnew r hr
                rw [LeaseStore.Current, hget, if_neg heq]
                exact hcur
          · simp only [hstore.kept s record hcurrent] at h
            obtain ⟨hold, hnew⟩ := ih h
            refine ⟨hold, ?_⟩
            intro r hr hcur
            rcases List.mem_cons.mp hr with rfl | hr
            · exact absurd hcur hcurrent
            · exact hnew r hr hcur

variable (store w) in
theorem drainLoop_ok_iff (s : σ) (removed todo : List LeaseRecord) :
    (∃ records, (drainLoop store w s removed todo).1 = .ok records) ↔
      ∀ record ∈ todo, w.fault record = none := by
  induction todo generalizing s removed with
  | nil => simp [drainLoop]
  | cons record todo ih =>
      simp only [drainLoop, List.forall_mem_cons]
      cases hfault : w.fault record with
      | some e => simp
      | none => simp only [ih, true_and]

/-! ## When everything is announced -/

/-- The leases that a sweep has removed are all announced exactly when the
listing fails, no removal fails, or no record that the loop gets to before the
first failing removal is still current. -/
theorem announcesRemoved_iff (hstore : store.Lawful) (s : σ) :
    AnnouncesRemoved store w s ↔
      w.listFault.isSome ∨
        (∀ record ∈ store.listExpired s, w.fault record = none) ∨
        ∀ record ∈ w.reached (store.listExpired s),
          ¬ store.Current (w.meanwhile s) record := by
  cases hlist : w.listFault with
  | some e =>
      refine iff_of_true ?_ (Or.inl rfl)
      intro leaseId hsome hnone
      obtain ⟨record, hget⟩ := hsome
      simp only [reaperIteration, drainExpired, hlist, hget] at hnone
      cases hnone
  | none =>
      have hdrained := drainLoop_drained w hstore (w.meanwhile s) []
        (store.listExpired s)
      have hok := drainLoop_ok_iff store w (w.meanwhile s) []
        (store.listExpired s)
      unfold AnnouncesRemoved reaperIteration drainExpired
      simp only [hlist, Option.isSome_none, Bool.false_eq_true, false_or]
      generalize hloop : drainLoop store w (w.meanwhile s) []
        (store.listExpired s) = result at hdrained hok ⊢
      obtain ⟨result, s'⟩ := result
      -- A lease that is gone was a current one that the loop got to.
      have hreached : ∀ leaseId,
          (∃ record, store.get (w.meanwhile s) leaseId = some record) →
          store.get s' leaseId = none →
          ∃ record ∈ w.reached (store.listExpired s),
            store.Current (w.meanwhile s) record ∧ record.leaseId = leaseId := by
        rintro leaseId ⟨record, hget⟩ hnone
        by_contra hothers
        push Not at hothers
        have hsame := hdrained.same leaseId hothers
        rw [hget] at hsame
        exact Option.some_ne_none record (hsame.symm.trans hnone)
      cases result with
      | ok records =>
          refine iff_of_true ?_ (Or.inl (hok.mp ⟨records, rfl⟩))
          intro leaseId hsome hnone
          obtain ⟨record, hmem, hcurrent, rfl⟩ := hreached leaseId hsome hnone
          have hlisted := (List.takeWhile_sublist _).mem hmem
          obtain ⟨r, hr, hid⟩ := List.mem_map.mp
            ((drainLoop_collects hstore hloop).2 record hlisted hcurrent)
          exact ⟨_, List.mem_map_of_mem hr, hid, rfl⟩
      | error e =>
          have hfault : ¬ ∀ record ∈ store.listExpired s,
              w.fault record = none := by
            intro hnone
            obtain ⟨records, hrecords⟩ := hok.mpr hnone
            cases hrecords
          rw [or_iff_right hfault]
          constructor
          · intro hall record hmem hcurrent
            obtain ⟨cur, hget, hsame⟩ := hcurrent
            have hnone := hdrained.gone record hmem ⟨cur, hget, hsame⟩
            obtain ⟨e', hsent, -⟩ := hall record.leaseId ⟨cur, hget⟩ hnone
            cases hsent
          · intro hchanged leaseId hsome hnone
            obtain ⟨record, hmem, hcurrent, -⟩ := hreached leaseId hsome hnone
            exact absurd hcurrent (hchanged record hmem)

end Sweep

/-! ## The in-memory store -/

/-- The in-memory lease store, at some time, with some order of its scan. -/
def localLeaseStore (it : LeaseIteration) (now : Timestamp) :
    LeaseStore InMemoryLeaseStore where
  get := InMemoryLeaseStore.get
  listExpired s := s.listExpired it now
  removeIfUnchanged := InMemoryLeaseStore.removeIfUnchanged

theorem localLeaseStore_lawful (it : LeaseIteration) (now : Timestamp) :
    (localLeaseStore it now).Lawful := by
  constructor
  · rintro s record ⟨cur, hget, hsame⟩
    simp only [localLeaseStore, InMemoryLeaseStore.get] at hget
    simp only [localLeaseStore, InMemoryLeaseStore.removeIfUnchanged, hget,
      if_pos hsame, InMemoryLeaseStore.get, true_and]
    intro leaseId
    exact get_erase _ _ _
  · intro s record hchanged
    simp only [localLeaseStore, InMemoryLeaseStore.removeIfUnchanged]
    cases hget : s.leases[record.leaseId]? with
    | none => rfl
    | some cur =>
        have hne : cur.expiresAt ≠ record.expiresAt := by
          intro hsame
          exact hchanged ⟨cur, hget, hsame⟩
        simp only [if_neg hne]

def minuteLease (leaseId : String) : LeaseRecord where
  leaseId := leaseId
  resourceId := "job"
  grantedAt := 0
  expiresAt := 60 * 10 ^ 9
  ttlSeconds := 60

/-- Two leases, both due after a minute. -/
def twoDue : InMemoryLeaseStore where
  leases := ((∅ : DashMap String LeaseRecord).insert "lease-1"
    (minuteLease "lease-1")).insert "lease-2" (minuteLease "lease-2")

def failingAt (leaseId : String) : SweepWeather InMemoryLeaseStore where
  listFault := none
  meanwhile := id
  fault record :=
    if record.leaseId = leaseId then some (.storage "throttled") else none

/-- The first lease is removed, the second removal fails, and nothing is
sent. -/
theorem removed_and_not_announced :
    reaperIteration (localLeaseStore .sorted (60 * 10 ^ 9)) (failingAt "lease-2")
        twoDue = ([], { leases := twoDue.leases.erase "lease-1" }) ∧
      ¬ AnnouncesRemoved (localLeaseStore .sorted (60 * 10 ^ 9))
        (failingAt "lease-2") twoDue := by
  refine ⟨by decide +kernel, ?_⟩
  intro hall
  obtain ⟨e, hmem, -⟩ := hall "lease-1" ⟨minuteLease "lease-1", rfl⟩ rfl
  cases hmem

/-- When the first removal fails, nothing is removed and nothing is to be
announced. -/
theorem announcesRemoved_iff_first :
    AnnouncesRemoved (localLeaseStore .sorted (60 * 10 ^ 9))
      (failingAt "lease-1") twoDue := by
  refine (announcesRemoved_iff (localLeaseStore_lawful _ _) twoDue).mpr ?_
  refine Or.inr (Or.inr ?_)
  have hreached : (failingAt "lease-1").reached
      ((localLeaseStore .sorted (60 * 10 ^ 9)).listExpired twoDue) = [] := by
    decide +kernel
  rw [hreached]
  intro record hrecord
  cases hrecord

end Coordin8
