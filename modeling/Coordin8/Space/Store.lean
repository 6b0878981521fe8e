import Coordin8.Space.Ledger
import Coordin8.Support.Index

/-!
# The in-memory store keeps the ledger

The six maps of `InMemorySpaceStore` are read as one ledger (`holdings`), and
`Coherent` says that the two lease indexes list exactly what the other maps
hold.  Every trait operation makes one `LedgerStep` and keeps `Coherent`.
-/

namespace Coordin8

open Support Support.DashMap

/-! ## Reading the maps as a ledger -/

/-- The contents of one family of buffers, at the places `place` names. -/
def placedAll (place : String → Place)
    (buffers : DashMap String (List TupleRecord)) : Holdings :=
  (contents buffers).map fun e => (place e.1, e.2)

theorem placedAll_push (place : String → Place)
    (buffers : DashMap String (List TupleRecord)) (x : String)
    (r : TupleRecord) :
    placedAll place (push buffers x r) =
      (place x, r) ::ₘ placedAll place buffers := by
  simp [placedAll, contents_push]

theorem placedAll_erase (place : String → Place)
    (buffers : DashMap String (List TupleRecord)) (x : String) :
    placedAll place buffers =
      placed (place x) (bucket buffers x) +
        placedAll place (buffers.erase x) := by
  rw [placedAll, contents_erase buffers x, Multiset.map_add]
  simp [placed, placedAll, Function.comp_def]

variable {buffers : DashMap String (List TupleRecord)} {x t : String}
  {r : TupleRecord} {p q : Place} {s : InMemorySpaceStore} {op : SpaceOp}

theorem placedAll_insert_of_perm (place : String → Place) {rest : List TupleRecord}
    (h : (bucket buffers x).Perm (r :: rest)) :
    placedAll place buffers =
      (place x, r) ::ₘ placedAll place (buffers.insert x rest) := by
  simp [placedAll, contents_insert_of_perm h]

theorem mem_placedAll {place : String → Place} :
    (p, r) ∈ placedAll place buffers ↔
      ∃ x, p = place x ∧ r ∈ bucket buffers x := by
  simp only [placedAll, Multiset.mem_map, Prod.exists, mem_contents,
    Prod.mk.injEq]
  constructor
  · rintro ⟨x, r', hr, rfl, rfl⟩
    exact ⟨x, rfl, hr⟩
  · rintro ⟨x, rfl, hr⟩
    exact ⟨x, r, hr, rfl, rfl⟩

namespace InMemorySpaceStore

/-- The visible tuples, as a ledger. -/
def visible (tuples : DashMap String TupleRecord) : Holdings :=
  (values tuples).map (Place.committed, ·)

/-- Everything the store holds, each record with its place. -/
def holdings (s : InMemorySpaceStore) : Holdings :=
  visible s.tuples + placedAll .uncommitted s.uncommitted +
    placedAll .taken s.txnTaken + placedAll .selfTaken s.txnSelfTaken

theorem holdings_new : holdings new = 0 := by
  simp [holdings, visible, placedAll, new]

/-- The buffer a transaction's place names. -/
def buffer (s : InMemorySpaceStore) : Place → List TupleRecord
  | .committed => []
  | .uncommitted x => bucket s.uncommitted x
  | .taken x => bucket s.txnTaken x
  | .selfTaken x => bucket s.txnSelfTaken x

section Membership

variable {s : InMemorySpaceStore} {r : TupleRecord} {x : String}

@[simp] theorem mem_holdings_committed :
    (.committed, r) ∈ s.holdings ↔ ∃ t : String, s.tuples[t]? = some r := by
  simp [holdings, visible, mem_placedAll, mem_values]

@[simp] theorem mem_holdings_uncommitted :
    (.uncommitted x, r) ∈ s.holdings ↔ r ∈ bucket s.uncommitted x := by
  simp [holdings, visible, mem_placedAll]

@[simp] theorem mem_holdings_taken :
    (.taken x, r) ∈ s.holdings ↔ r ∈ bucket s.txnTaken x := by
  simp [holdings, visible, mem_placedAll]

@[simp] theorem mem_holdings_selfTaken :
    (.selfTaken x, r) ∈ s.holdings ↔ r ∈ bucket s.txnSelfTaken x := by
  simp [holdings, visible, mem_placedAll]

theorem mem_buffer {p : Place} (hp : p.txn = some x) :
    r ∈ s.buffer p ↔ (p, r) ∈ s.holdings := by
  cases p with
  | committed => cases hp
  | uncommitted => rw [mem_holdings_uncommitted, buffer]
  | taken => rw [mem_holdings_taken, buffer]
  | selfTaken => rw [mem_holdings_selfTaken, buffer]

end Membership

/-! ## The invariant -/

/-- The records in transaction buffers, each with its transaction. -/
def buffered (s : InMemorySpaceStore) : Multiset (String × TupleRecord) :=
  contents s.uncommitted + contents s.txnTaken + contents s.txnSelfTaken

theorem map_snd_holdings (s : InMemorySpaceStore) :
    s.holdings.map Prod.snd = values s.tuples + s.buffered.map Prod.snd := by
  simp [holdings, visible, placedAll, buffered, add_assoc]

theorem mem_buffered :
    (x, r) ∈ s.buffered ↔ r ∈ bucket s.uncommitted x ∨
      r ∈ bucket s.txnTaken x ∨ r ∈ bucket s.txnSelfTaken x := by
  simp [buffered, mem_contents, or_assoc]

theorem exists_place_of_mem_buffered (h : (x, r) ∈ s.buffered) :
    ∃ p : Place, p.txn = some x ∧ (p, r) ∈ s.holdings := by
  rcases mem_buffered.mp h with h | h | h
  · exact ⟨.uncommitted x, rfl, mem_holdings_uncommitted.mpr h⟩
  · exact ⟨.taken x, rfl, mem_holdings_taken.mpr h⟩
  · exact ⟨.selfTaken x, rfl, mem_holdings_selfTaken.mpr h⟩

/-- Every id occurs once, and the indexes list exactly what the maps hold. -/
structure Coherent (s : InMemorySpaceStore) : Prop where
  tuples : Lists TupleRecord.tupleId id s.tuples (values s.tuples)
  leaseIndex : Lists TupleRecord.leaseId TupleRecord.tupleId s.leaseIndex
    (values s.tuples)
  txnLeaseIndex : Lists (fun e : String × TupleRecord => e.2.leaseId)
    (fun e => (e.1, e.2.tupleId)) s.txnLeaseIndex s.buffered
  ids : ((s.holdings.map Prod.snd).map TupleRecord.tupleId).Nodup
  leases : ((s.holdings.map Prod.snd).map TupleRecord.leaseId).Nodup

theorem coherent_new : Coherent new := by
  have hvalues : values new.tuples = 0 := by simp [new]
  have hbuffered : buffered new = 0 := by simp [buffered, new]
  refine ⟨?_, ?_, ?_, ?_, ?_⟩
  · rw [hvalues]
    exact Lists.empty _ _
  · rw [hvalues]
    exact Lists.empty _ _
  · rw [hbuffered]
    exact Lists.empty _ _
  · simp [holdings_new]
  · simp [holdings_new]

namespace Coherent

variable {s : InMemorySpaceStore} (hs : Coherent s)

include hs

theorem id_inj {r' : TupleRecord}
    (hr : (p, r) ∈ s.holdings) (hr' : (q, r') ∈ s.holdings)
    (hid : r.tupleId = r'.tupleId) : p = q ∧ r = r' := by
  have hnodup := hs.ids
  rw [Multiset.map_map] at hnodup
  exact Prod.mk.injEq .. ▸ Multiset.inj_on_of_nodup_map hnodup _ hr _ hr' hid

theorem lease_inj {r' : TupleRecord}
    (hr : (p, r) ∈ s.holdings) (hr' : (q, r') ∈ s.holdings)
    (hlease : r.leaseId = r'.leaseId) : p = q ∧ r = r' := by
  have hnodup := hs.leases
  rw [Multiset.map_map] at hnodup
  exact Prod.mk.injEq .. ▸ Multiset.inj_on_of_nodup_map hnodup _ hr _ hr' hlease

theorem key (h : s.tuples[t]? = some r) : r.tupleId = t := by
  obtain ⟨r', -, hkey, hval⟩ := (hs.tuples t r).mp h
  rw [← hkey, ← hval, id]

theorem get_of_mem (hr : (.committed, r) ∈ s.holdings) :
    s.tuples[r.tupleId]? = some r := by
  obtain ⟨t, ht⟩ := mem_holdings_committed.mp hr
  rw [hs.key ht, ht]

end Coherent

end InMemorySpaceStore

/-- The ids of the records held stay distinct when a step brings in only new
ones. -/
theorem LedgerStep.nodup_map {β : Type*} (f : TupleRecord → β)
    {H H' : Holdings} {res : SpaceResult}
    (hstep : LedgerStep H op res H')
    (hnodup : ((H.map Prod.snd).map f).Nodup)
    (hnew : ∀ r, op.written = some r → ∀ r' ∈ H.map Prod.snd, f r' ≠ f r) :
    ((H'.map Prod.snd).map f).Nodup := by
  have hle : H'.map Prod.snd ≤
      H.map Prod.snd + (op.written.toList : Multiset TupleRecord) := by
    rw [← hstep.conservation]
    exact Multiset.le_add_right _ _
  refine Multiset.nodup_of_le (Multiset.map_le_map hle) ?_
  cases hw : op.written with
  | none => simpa using hnodup
  | some r =>
      rw [Option.toList_some, Multiset.coe_singleton, Multiset.map_add,
        Multiset.map_singleton, add_comm, Multiset.singleton_add,
        Multiset.nodup_cons]
      refine ⟨?_, hnodup⟩
      rw [Multiset.mem_map]
      rintro ⟨r', hr', heq⟩
      exact hnew r hw r' hr' heq

/-! ## Each operation is a ledger step -/

section Distinct

variable {α β : Type*} {f : α → β} {a : α} {M N : Multiset α}

theorem ne_of_nodup_map_cons (h : ((a ::ₘ M).map f).Nodup) {b : α}
    (hb : b ∈ M) : f b ≠ f a := by
  rw [Multiset.map_cons, Multiset.nodup_cons] at h
  intro heq
  exact h.1 (heq ▸ Multiset.mem_map_of_mem f hb)

theorem ne_of_nodup_map_add (h : ((M + N).map f).Nodup) {b : α}
    (ha : a ∈ M) (hb : b ∈ N) : f b ≠ f a := by
  rw [Multiset.map_add, Multiset.nodup_add] at h
  intro heq
  exact Multiset.disjoint_left.mp h.2.2 (Multiset.mem_map_of_mem f ha)
    (heq ▸ Multiset.mem_map_of_mem f hb)

end Distinct

namespace InMemorySpaceStore

/-- One call of the store: a ledger step, with every index kept up to date. -/
structure Refines (s : InMemorySpaceStore) (op : SpaceOp) : Prop where
  ledger : LedgerStep s.holdings op (s.exec op).1 (s.exec op).2.holdings
  tuples : Lists TupleRecord.tupleId id (s.exec op).2.tuples
    (values (s.exec op).2.tuples)
  leaseIndex : Lists TupleRecord.leaseId TupleRecord.tupleId
    (s.exec op).2.leaseIndex (values (s.exec op).2.tuples)
  txnLeaseIndex : Lists (fun e : String × TupleRecord => e.2.leaseId)
    (fun e => (e.1, e.2.tupleId)) (s.exec op).2.txnLeaseIndex
    (s.exec op).2.buffered

/-- No record the store holds shares an id with `r`. -/
def New (s : InMemorySpaceStore) (r : TupleRecord) : Prop :=
  ∀ r' ∈ s.holdings.map Prod.snd,
    r'.tupleId ≠ r.tupleId ∧ r'.leaseId ≠ r.leaseId

theorem Refines.coherent (h : s.Refines op) (hs : Coherent s)
    (hnew : ∀ r, op.written = some r → s.New r) : Coherent (s.exec op).2 where
  tuples := h.tuples
  leaseIndex := h.leaseIndex
  txnLeaseIndex := h.txnLeaseIndex
  ids := h.ledger.nodup_map _ hs.ids fun r hr r' hr' => (hnew r hr r' hr').1
  leases := h.ledger.nodup_map _ hs.leases
    fun r hr r' hr' => (hnew r hr r' hr').2

theorem visible_insert {tuples : DashMap String TupleRecord}
    (h : tuples[t]? = none) (r : TupleRecord) :
    visible (tuples.insert t r) = (.committed, r) ::ₘ visible tuples := by
  simp [visible, values_insert_of_get_none h]

theorem visible_erase {tuples : DashMap String TupleRecord} (h : tuples[t]? = some r) :
    visible tuples = (.committed, r) ::ₘ visible (tuples.erase t) := by
  simp [visible, values_erase h]

theorem holdings_erase (h : s.tuples[t]? = some r) (index : DashMap String String) :
    s.holdings = (.committed, r) ::ₘ
      { s with tuples := s.tuples.erase t, leaseIndex := index }.holdings := by
  simp [holdings, visible_erase h]

/-- A buffer without the first record that has the tuple id `t`. -/
def dropFrom (buffers : DashMap String (List TupleRecord)) (x t : String) :
    DashMap String (List TupleRecord) :=
  buffers.insert x ((bucket buffers x).eraseP fun r => r.tupleId == t)

/-- The store without the record `r`, which is at the place `p`. -/
def drop (s : InMemorySpaceStore) (r : TupleRecord) (p : Place) :
    InMemorySpaceStore :=
  let index := s.txnLeaseIndex.erase r.leaseId
  match p with
  | .committed =>
      { s with
        tuples := s.tuples.erase r.tupleId
        leaseIndex := s.leaseIndex.erase r.leaseId }
  | .uncommitted x =>
      { s with
        txnLeaseIndex := index
        uncommitted := dropFrom s.uncommitted x r.tupleId }
  | .taken x =>
      { s with
        txnLeaseIndex := index
        txnTaken := dropFrom s.txnTaken x r.tupleId }
  | .selfTaken x =>
      { s with
        txnLeaseIndex := index
        txnSelfTaken := dropFrom s.txnSelfTaken x r.tupleId }

namespace Coherent

variable {s : InMemorySpaceStore} (hs : Coherent s)

include hs

theorem nodup_ids_visible :
    ((values s.tuples).map TupleRecord.tupleId).Nodup := by
  have h := hs.ids
  rw [map_snd_holdings, Multiset.map_add] at h
  exact (Multiset.nodup_add.mp h).1

theorem nodup_leases_visible :
    ((values s.tuples).map TupleRecord.leaseId).Nodup := by
  have h := hs.leases
  rw [map_snd_holdings, Multiset.map_add] at h
  exact (Multiset.nodup_add.mp h).1

theorem nodup_leases_buffered :
    (s.buffered.map fun e => e.2.leaseId).Nodup := by
  have h := hs.leases
  rw [map_snd_holdings, Multiset.map_add, Multiset.map_map] at h
  exact (Multiset.nodup_add.mp h).2.1

theorem get_of_new (hnew : s.New r) : s.tuples[r.tupleId]? = none := by
  rw [hs.tuples.get_eq_none]
  intro r' hr'
  refine (hnew r' ?_).1
  rw [map_snd_holdings]
  exact Multiset.mem_add.mpr (Or.inl hr')

theorem refines_insert (hnew : s.New r) : s.Refines (.insert r) := by
  have hnone := hs.get_of_new hnew
  have hvalues : ∀ r' ∈ values s.tuples,
      r'.tupleId ≠ r.tupleId ∧ r'.leaseId ≠ r.leaseId := by
    intro r' hr'
    refine hnew r' ?_
    rw [map_snd_holdings]
    exact Multiset.mem_add.mpr (Or.inl hr')
  refine ⟨?_, ?_, ?_, hs.txnLeaseIndex⟩
  · have hholdings : (s.insert r).holdings =
        (.committed, r) ::ₘ s.holdings := by
      simp [holdings, insert, visible_insert hnone]
    simpa only [exec, hholdings] using LedgerStep.insert s.holdings r
  · simp only [exec, insert, values_insert_of_get_none hnone]
    exact hs.tuples.insert (a := r) fun r' hr' => (hvalues r' hr').1
  · simp only [exec, insert, values_insert_of_get_none hnone]
    exact hs.leaseIndex.insert (a := r) fun r' hr' => (hvalues r' hr').2

theorem refines_insertUncommitted
    (hnew : s.New r) : s.Refines (.insertUncommitted x r) := by
  refine ⟨?_, hs.tuples, hs.leaseIndex, ?_⟩
  · have hholdings : (s.insertUncommitted x r).holdings =
        (.uncommitted x, r) ::ₘ s.holdings := by
      simp [holdings, insertUncommitted, placedAll_push]
    simpa only [exec, hholdings] using
      LedgerStep.insertUncommitted s.holdings x r
  · have hbuffered : (s.insertUncommitted x r).buffered =
        (x, r) ::ₘ s.buffered := by
      simp [buffered, insertUncommitted, contents_push]
    simp only [exec, hbuffered]
    refine hs.txnLeaseIndex.insert (a := (x, r)) ?_
    rintro ⟨y, r'⟩ hr'
    refine (hnew r' ?_).2
    rw [map_snd_holdings]
    exact Multiset.mem_add.mpr (Or.inr (Multiset.mem_map_of_mem _ hr'))

theorem lists_erase (h : s.tuples[t]? = some r) :
    Lists TupleRecord.tupleId id (s.tuples.erase t)
        (values (s.tuples.erase t)) ∧
      Lists TupleRecord.leaseId TupleRecord.tupleId
        (s.leaseIndex.erase r.leaseId) (values (s.tuples.erase t)) := by
  obtain rfl := hs.key h
  have hids := hs.nodup_ids_visible
  have hleases := hs.nodup_leases_visible
  have htuples := hs.tuples
  have hindex := hs.leaseIndex
  rw [values_erase h] at hids hleases htuples hindex
  exact ⟨htuples.erase fun b hb => ne_of_nodup_map_cons hids hb,
    hindex.erase fun b hb => ne_of_nodup_map_cons hleases hb⟩

theorem refines_remove (t : String) : s.Refines (.remove t) := by
  cases h : s.tuples[t]? with
  | none =>
      have hexec : s.exec (.remove t) = (.tuple none, s) := by
        simp [exec, remove, h]
      refine ⟨?_, ?_, ?_, ?_⟩ <;> rw [hexec]
      · refine LedgerStep.removeAbsent _ _ fun r hr heq => ?_
        have hget := hs.get_of_mem hr
        rw [heq, h] at hget
        cases hget
      · exact hs.tuples
      · exact hs.leaseIndex
      · exact hs.txnLeaseIndex
  | some r =>
      have hexec : s.exec (.remove t) = (.tuple (some r),
          { s with
            tuples := s.tuples.erase t
            leaseIndex := s.leaseIndex.erase r.leaseId }) := by
        simp [exec, remove, h]
      have hlists := hs.lists_erase h
      refine ⟨?_, ?_, ?_, ?_⟩ <;> rw [hexec]
      · rw [holdings_erase h (s.leaseIndex.erase r.leaseId), ← hs.key h]
        exact LedgerStep.remove _ r
      · exact hlists.1
      · exact hlists.2
      · exact hs.txnLeaseIndex

/-! ### Expiry -/

theorem rows_buffered (hr : (p, r) ∈ s.holdings) (hp : p.txn = some x) :
    s.leaseIndex[r.leaseId]? = none ∧
      s.txnLeaseIndex[r.leaseId]? = some (x, r.tupleId) := by
  constructor
  · rw [hs.leaseIndex.get_eq_none]
    intro r' hr' hlease
    obtain ⟨t, ht⟩ := mem_values.mp hr'
    obtain ⟨rfl, -⟩ := hs.lease_inj (mem_holdings_committed.mpr ⟨t, ht⟩) hr
      hlease
    cases hp
  · have hmem : (x, r) ∈ s.buffered := by
      rw [mem_buffered]
      cases p <;> simp_all [Place.txn]
    exact hs.txnLeaseIndex.get hmem

theorem refines_expire_buffered {l : String}
    {s' : InMemorySpaceStore} (hlease : r.leaseId = l)
    (hexec : s.exec (.removeByLease l) = (.tuple (some r), s'))
    (hholdings : s.holdings = (p, r) ::ₘ s'.holdings)
    (hbuffered : s.buffered = (x, r) ::ₘ s'.buffered)
    (htuples : s'.tuples = s.tuples)
    (hleaseIndex : s'.leaseIndex = s.leaseIndex)
    (htxnLeaseIndex : s'.txnLeaseIndex = s.txnLeaseIndex.erase l) :
    s.Refines (.removeByLease l) := by
  subst hlease
  refine ⟨?_, ?_, ?_, ?_⟩ <;> rw [hexec]
  · rw [hholdings]
    exact LedgerStep.expire _ _ r
  · rw [htuples]
    exact hs.tuples
  · rw [htuples, hleaseIndex]
    exact hs.leaseIndex
  · have hnodup := hs.nodup_leases_buffered
    have hlists := hs.txnLeaseIndex
    rw [hbuffered] at hnodup hlists
    rw [htxnLeaseIndex]
    exact hlists.erase fun b hb => ne_of_nodup_map_cons hnodup hb

theorem find?_tupleId (hp : p.txn = some x) (hr : (p, r) ∈ s.holdings) :
    ((s.buffer p).find? fun r' => r'.tupleId == r.tupleId) = some r := by
  refine find?_eq_some_of_unique ((mem_buffer hp).mpr hr) (by simp)
    fun r' hr' hid => ?_
  exact (hs.id_inj ((mem_buffer hp).mp hr') hr (by simpa using hid)).2

/-- A buffer of another place has no record with the tuple id of `r`. -/
theorem removeFrom_eq_none (hr : (p, r) ∈ s.holdings) (hpq : q ≠ p)
    (hq : q.txn = some x) (hbuf : s.buffer q = bucket buffers x) :
    removeFrom buffers x r.tupleId = none := by
  refine takeFirst_eq_none.mpr fun r' hr' => ?_
  refine Bool.eq_false_iff.mpr fun hid => hpq ?_
  rw [← hbuf, mem_buffer hq] at hr'
  exact (hs.id_inj hr' hr (by simpa using hid)).1

theorem removeByLease_at (hr : (p, r) ∈ s.holdings) :
    s.removeByLease r.leaseId = (some r, s.drop r p) := by
  cases p with
  | committed =>
      have hget := hs.get_of_mem hr
      have hl : s.leaseIndex[r.leaseId]? = some r.tupleId :=
        hs.leaseIndex.get (mem_values.mpr ⟨_, hget⟩)
      simp [removeByLease, hl, hget, drop]
  | uncommitted x =>
      obtain ⟨hl, htl⟩ := hs.rows_buffered hr rfl
      have hu := takeFirst_of_find? (hs.find?_tupleId rfl hr)
      simp [removeByLease, removeBuffered, removeFrom, hl, htl, hu, drop,
        dropFrom]
  | taken x =>
      obtain ⟨hl, htl⟩ := hs.rows_buffered hr rfl
      have hu := hs.removeFrom_eq_none (q := .uncommitted x) hr (by simp) rfl rfl
      have ht := takeFirst_of_find? (hs.find?_tupleId rfl hr)
      rw [removeFrom] at hu
      simp [removeByLease, removeBuffered, removeFrom, hl, htl, hu, ht, drop,
        dropFrom]
  | selfTaken x =>
      obtain ⟨hl, htl⟩ := hs.rows_buffered hr rfl
      have hu := hs.removeFrom_eq_none (q := .uncommitted x) hr (by simp) rfl rfl
      have ht := hs.removeFrom_eq_none (q := .taken x) hr (by simp) rfl rfl
      have ho := takeFirst_of_find? (hs.find?_tupleId rfl hr)
      rw [removeFrom] at hu ht
      simp [removeByLease, removeBuffered, removeFrom, hl, htl, hu, ht, ho,
        drop, dropFrom]

theorem removeByLease_absent {l : String}
    (habsent : ∀ p r, (p, r) ∈ s.holdings → r.leaseId ≠ l) :
    s.removeByLease l = (none, s) := by
  have hl : s.leaseIndex[l]? = none := by
    rw [hs.leaseIndex.get_eq_none]
    intro r hr
    obtain ⟨t, ht⟩ := mem_values.mp hr
    exact habsent .committed r (mem_holdings_committed.mpr ⟨t, ht⟩)
  have htl : s.txnLeaseIndex[l]? = none := by
    rw [hs.txnLeaseIndex.get_eq_none]
    rintro ⟨x, r⟩ he
    obtain ⟨p, -, hp⟩ := exists_place_of_mem_buffered he
    exact habsent p r hp
  simp [removeByLease, removeBuffered, hl, htl]

theorem drop_buffered (hp : p.txn = some x) (hr : (p, r) ∈ s.holdings) :
    s.holdings = (p, r) ::ₘ (s.drop r p).holdings ∧
      s.buffered = (x, r) ::ₘ (s.drop r p).buffered := by
  have hperm := perm_cons_eraseP (hs.find?_tupleId hp hr)
  cases p with
  | committed => cases hp
  | uncommitted y | taken y | selfTaken y =>
      obtain rfl := Option.some.inj hp
      rw [buffer] at hperm
      constructor
      · simp [holdings, drop, dropFrom, placedAll_insert_of_perm _ hperm]
      · simp [buffered, drop, dropFrom, contents_insert_of_perm hperm]

theorem refines_removeByLease (l : String) : s.Refines (.removeByLease l) := by
  by_cases hheld : ∃ p r, (p, r) ∈ s.holdings ∧ r.leaseId = l
  · obtain ⟨p, r, hr, rfl⟩ := hheld
    have hexec : s.exec (.removeByLease r.leaseId) =
        (.tuple (some r), s.drop r p) := by
      simp [exec, hs.removeByLease_at hr]
    cases p with
    | committed =>
        have hget := hs.get_of_mem hr
        have hlists := hs.lists_erase hget
        refine ⟨?_, ?_, ?_, ?_⟩ <;> rw [hexec]
        · rw [holdings_erase hget (s.leaseIndex.erase r.leaseId)]
          exact LedgerStep.expire _ _ r
        · exact hlists.1
        · exact hlists.2
        · exact hs.txnLeaseIndex
    | uncommitted x | taken x | selfTaken x =>
        obtain ⟨hholdings, hbuffered⟩ := hs.drop_buffered rfl hr
        exact hs.refines_expire_buffered rfl hexec hholdings hbuffered rfl rfl
          rfl
  · push Not at hheld
    have hexec : s.exec (.removeByLease l) = (.tuple none, s) := by
      simp [exec, hs.removeByLease_absent hheld]
    refine ⟨?_, ?_, ?_, ?_⟩ <;> rw [hexec]
    · exact LedgerStep.expireAbsent _ _ hheld
    · exact hs.tuples
    · exact hs.leaseIndex
    · exact hs.txnLeaseIndex

/-! ### Takes -/

omit hs in
theorem takeCommitted_cases (s : InMemorySpaceStore) (it : TupleIteration)
    (ops : DashMap String MatchOp) (txnId : Option String) :
    s.takeCommitted it ops txnId = (none, s) ∨
      ∃ t r, s.tuples[t]? = some r ∧ templateMatches ops r.attrs = true ∧
        s.takeCommitted it ops txnId = (some r, s.claim r t txnId) := by
  unfold takeCommitted
  cases hfind : (it.entries s.tuples).find? fun e =>
      templateMatches ops e.2.attrs with
  | none => exact Or.inl rfl
  | some entry =>
      obtain ⟨t, r⟩ := entry
      have hget := it.mem_entries.mp (List.mem_of_find?_eq_some hfind)
      refine Or.inr ⟨t, r, hget, by simpa using List.find?_some hfind, ?_⟩
      simp [hget]

theorem refines_takeNothing {it : TupleIteration} {template : Attrs}
    {txnId : Option String}
    (hexec : s.takeMatch it template txnId = (none, s)) :
    s.Refines (.takeMatch it template txnId) := by
  have hexec' : s.exec (.takeMatch it template txnId) = (.tuple none, s) := by
    simp [exec, hexec]
  refine ⟨?_, ?_, ?_, ?_⟩ <;> rw [hexec']
  · exact LedgerStep.takeNothing _ _ _ _
  · exact hs.tuples
  · exact hs.leaseIndex
  · exact hs.txnLeaseIndex

theorem refines_take (it : TupleIteration) (template : Attrs) :
    s.Refines (.takeMatch it template none) := by
  rcases takeCommitted_cases s it (parseTemplate template) none with
    hnone | ⟨t, r, hget, -, hsome⟩
  · exact hs.refines_takeNothing (by simp [takeMatch, hnone])
  · have hexec : s.exec (.takeMatch it template none) = (.tuple (some r),
        { s with
          tuples := s.tuples.erase t
          leaseIndex := s.leaseIndex.erase r.leaseId }) := by
      simp [exec, takeMatch, hsome, claim]
    have hlists := hs.lists_erase hget
    refine ⟨?_, ?_, ?_, ?_⟩ <;> rw [hexec]
    · rw [holdings_erase hget (s.leaseIndex.erase r.leaseId)]
      exact LedgerStep.take _ _ _ r
    · exact hlists.1
    · exact hlists.2
    · exact hs.txnLeaseIndex

/-- A transaction takes one of its own writes: the record changes buffer, and
its index row stays. -/
theorem refines_takeOwn {it : TupleIteration} {template : Attrs}
    (htake : takeFirst
      (fun r => templateMatches (parseTemplate template) r.attrs)
      s.uncommitted x = some (r, buffers)) :
    s.Refines (.takeMatch it template (some x)) := by
  obtain ⟨-, rest, hperm, rfl⟩ := takeFirst_eq_some htake
  have hexec : s.exec (.takeMatch it template (some x)) = (.tuple (some r),
      { s with
        uncommitted := s.uncommitted.insert x rest
        txnSelfTaken := push s.txnSelfTaken x r }) := by
    simp [exec, takeMatch, takeUncommitted, htake]
  refine ⟨?_, ?_, ?_, ?_⟩ <;> rw [hexec]
  · have hstep := LedgerStep.takeOwn (visible s.tuples +
      placedAll .uncommitted (s.uncommitted.insert x rest) +
      placedAll .taken s.txnTaken + placedAll .selfTaken s.txnSelfTaken)
      it template x r
    simpa only [holdings, placedAll_insert_of_perm .uncommitted hperm,
      placedAll_push, Multiset.add_cons, Multiset.cons_add] using hstep
  · exact hs.tuples
  · exact hs.leaseIndex
  · have hlists := hs.txnLeaseIndex
    simpa only [buffered, contents_insert_of_perm hperm, contents_push,
      Multiset.add_cons, Multiset.cons_add] using hlists

theorem refines_takeTxn (it : TupleIteration) (template : Attrs) (x : String) :
    s.Refines (.takeMatch it template (some x)) := by
  cases htake : takeFirst
      (fun r => templateMatches (parseTemplate template) r.attrs)
      s.uncommitted x with
  | some out => exact hs.refines_takeOwn htake
  | none =>
      rcases takeCommitted_cases s it (parseTemplate template) (some x) with
        hnone | ⟨t, r, hget, -, hsome⟩
      · exact hs.refines_takeNothing
          (by simp [takeMatch, takeUncommitted, htake, hnone])
      · have hexec : s.exec (.takeMatch it template (some x)) =
            (.tuple (some r),
              { s with
                tuples := s.tuples.erase t
                leaseIndex := s.leaseIndex.erase r.leaseId
                txnLeaseIndex :=
                  s.txnLeaseIndex.insert r.leaseId (x, r.tupleId)
                txnTaken := push s.txnTaken x r }) := by
          simp [exec, takeMatch, takeUncommitted, htake, hsome, claim]
        have hlists := hs.lists_erase hget
        refine ⟨?_, ?_, ?_, ?_⟩ <;> rw [hexec]
        · have hstep := LedgerStep.takeTxn (visible (s.tuples.erase t) +
            placedAll .uncommitted s.uncommitted +
            placedAll .taken s.txnTaken +
            placedAll .selfTaken s.txnSelfTaken) it template x r
          simpa only [holdings, visible_erase hget, placedAll_push,
            Multiset.add_cons, Multiset.cons_add] using hstep
        · exact hlists.1
        · exact hlists.2
        · have hleases := hs.leases
          rw [map_snd_holdings, values_erase hget, Multiset.cons_add] at hleases
          simp only [buffered, contents_push, Multiset.add_cons,
            Multiset.cons_add]
          refine hs.txnLeaseIndex.insert (a := (x, r)) ?_
          rintro ⟨y, r'⟩ hr'
          refine ne_of_nodup_map_cons hleases ?_
          exact Multiset.mem_add.mpr
            (Or.inr (Multiset.mem_map_of_mem Prod.snd hr'))

end Coherent

/-! ### The end of a transaction -/

/-- Commit and abort both empty the buffers of `x`, drop the index rows of
`rows`, and publish the records `back`. -/
def closeTxn (s : InMemorySpaceStore) (x : String)
    (back rows : List TupleRecord) : InMemorySpaceStore :=
  { s with
    uncommitted := s.uncommitted.erase x
    txnTaken := s.txnTaken.erase x
    txnSelfTaken := s.txnSelfTaken.erase x
    txnLeaseIndex := eraseAll TupleRecord.leaseId s.txnLeaseIndex rows
    tuples := insertAll TupleRecord.tupleId id s.tuples back
    leaseIndex := insertAll TupleRecord.leaseId TupleRecord.tupleId
      s.leaseIndex back }

theorem foldl_publish (s : InMemorySpaceStore) (records : List TupleRecord) :
    records.foldl publish s =
      { s with
        txnLeaseIndex := eraseAll TupleRecord.leaseId s.txnLeaseIndex records
        tuples := insertAll TupleRecord.tupleId id s.tuples records
        leaseIndex := insertAll TupleRecord.leaseId TupleRecord.tupleId
          s.leaseIndex records } := by
  induction records generalizing s with
  | nil => rfl
  | cons r records ih =>
      rw [List.foldl_cons, ih]
      rfl

theorem commitTxn_eq (s : InMemorySpaceStore) (x : String) :
    s.commitTxn x =
      ((bucket s.uncommitted x, bucket s.txnTaken x ++ bucket s.txnSelfTaken x),
        s.closeTxn x (bucket s.uncommitted x)
          (bucket s.uncommitted x ++
            (bucket s.txnTaken x ++ bucket s.txnSelfTaken x))) := by
  simp only [commitTxn, foldl_publish, unindex, closeTxn]
  congr 2
  exact List.foldl_append.symm

theorem abortTxn_eq (s : InMemorySpaceStore) (x : String) :
    s.abortTxn x =
      ((bucket s.uncommitted x ++ bucket s.txnSelfTaken x, bucket s.txnTaken x),
        s.closeTxn x (bucket s.txnTaken x)
          (bucket s.uncommitted x ++ bucket s.txnSelfTaken x ++
            bucket s.txnTaken x)) := by
  simp only [abortTxn, foldl_publish, unindex, closeTxn]
  congr 2
  exact List.foldl_append.symm

/-- A commit drops the rows of all buffered records and publishes the
writes. -/
theorem commit_rows (s : InMemorySpaceStore) (x : String) :
    ((bucket s.uncommitted x ++
        (bucket s.txnTaken x ++ bucket s.txnSelfTaken x) : List TupleRecord) :
        Multiset TupleRecord) =
      bucket s.uncommitted x + bucket s.txnTaken x + bucket s.txnSelfTaken x ∧
    ((bucket s.uncommitted x ++
        (bucket s.txnTaken x ++ bucket s.txnSelfTaken x) : List TupleRecord) :
        Multiset TupleRecord) =
      bucket s.uncommitted x +
        (bucket s.txnTaken x ++ bucket s.txnSelfTaken x :
          List TupleRecord) := by
  refine ⟨?_, (Multiset.coe_add _ _).symm⟩
  simp only [← Multiset.coe_add]
  abel

/-- An abort drops the rows of all buffered records and publishes what was
taken. -/
theorem abort_rows (s : InMemorySpaceStore) (x : String) :
    ((bucket s.uncommitted x ++ bucket s.txnSelfTaken x ++
        bucket s.txnTaken x : List TupleRecord) : Multiset TupleRecord) =
      bucket s.uncommitted x + bucket s.txnTaken x + bucket s.txnSelfTaken x ∧
    ((bucket s.uncommitted x ++ bucket s.txnSelfTaken x ++
        bucket s.txnTaken x : List TupleRecord) : Multiset TupleRecord) =
      bucket s.txnTaken x +
        (bucket s.uncommitted x ++ bucket s.txnSelfTaken x :
          List TupleRecord) := by
  simp only [← Multiset.coe_add]
  constructor <;> abel

/-- What is left of the holdings when the buffers of `x` are taken out. -/
def outside (s : InMemorySpaceStore) (x : String) : Holdings :=
  visible s.tuples + placedAll .uncommitted (s.uncommitted.erase x) +
    placedAll .taken (s.txnTaken.erase x) +
    placedAll .selfTaken (s.txnSelfTaken.erase x)

theorem holdings_outside (s : InMemorySpaceStore) (x : String) :
    s.holdings = placed (.uncommitted x) (bucket s.uncommitted x) +
      placed (.taken x) (bucket s.txnTaken x) +
      placed (.selfTaken x) (bucket s.txnSelfTaken x) + s.outside x := by
  rw [holdings, placedAll_erase .uncommitted _ x, placedAll_erase .taken _ x,
    placedAll_erase .selfTaken _ x, outside]
  abel

theorem outside_txn (s : InMemorySpaceStore) (x : String) (p : Place)
    (r : TupleRecord) (h : (p, r) ∈ s.outside x) : p.txn ≠ some x := by
  have herase : ∀ (buffers : DashMap String (List TupleRecord)) (y : String),
      r ∈ bucket (buffers.erase x) y → y ≠ x := by
    rintro buffers y hr rfl
    simp [bucket_erase] at hr
  simp only [outside, Multiset.mem_add, mem_placedAll] at h
  rcases h with ((h | ⟨y, rfl, hr⟩) | ⟨y, rfl, hr⟩) | ⟨y, rfl, hr⟩
  · obtain ⟨r', -, heq⟩ := Multiset.mem_map.mp h
    simp [← (Prod.mk.inj heq).1, Place.txn]
  all_goals simpa [Place.txn] using herase _ y hr

namespace Coherent

variable {s : InMemorySpaceStore} (hs : Coherent s) {x : String}
  {back gone rows : List TupleRecord}
  (hrows : (rows : Multiset TupleRecord) = bucket s.uncommitted x +
    bucket s.txnTaken x + bucket s.txnSelfTaken x)
  (hback : (rows : Multiset TupleRecord) = back + gone)

include hrows in
omit hs in
theorem buffered_close (back : List TupleRecord) :
    s.buffered = (rows.map (x, ·) : List (String × TupleRecord)) +
      (s.closeTxn x back rows).buffered := by
  have hmap : ((rows.map (x, ·) : List (String × TupleRecord)) :
      Multiset (String × TupleRecord)) =
      (rows : Multiset TupleRecord).map (x, ·) := rfl
  rw [hmap, hrows, buffered, contents_erase s.uncommitted x,
    contents_erase s.txnTaken x, contents_erase s.txnSelfTaken x, buffered]
  simp only [closeTxn, Multiset.map_add, Multiset.map_coe]
  abel

include hrows hback

omit hs in
theorem map_snd_holdings_close :
    s.holdings.map Prod.snd =
      (back : Multiset TupleRecord) + (gone + (s.outside x).map Prod.snd) := by
  rw [holdings_outside s x, Multiset.map_add, Multiset.map_add,
    Multiset.map_add, map_snd_placed, map_snd_placed, map_snd_placed, ← hrows,
    hback, add_assoc]

omit hs in
/-- Records put back are new to the visible store, under any kind of id. -/
theorem back_distinct {f : TupleRecord → String}
    (hnodup : ((s.holdings.map Prod.snd).map f).Nodup) :
    (back.map f).Nodup ∧ ∀ b ∈ back, ∀ r ∈ values s.tuples, f r ≠ f b := by
  rw [map_snd_holdings_close hrows hback] at hnodup
  constructor
  · rw [Multiset.map_add] at hnodup
    exact Multiset.coe_nodup.mp (Multiset.nodup_add.mp hnodup).1
  · intro b hb r hr
    refine ne_of_nodup_map_add hnodup (Multiset.mem_coe.mpr hb) ?_
    refine Multiset.mem_add.mpr (Or.inr (Multiset.mem_map.mpr
      ⟨(.committed, r), ?_, rfl⟩))
    simp [outside, visible, hr]

include hs

theorem values_close :
    values (s.closeTxn x back rows).tuples =
      (back : Multiset TupleRecord) + values s.tuples := by
  obtain ⟨hnodup, hne⟩ := back_distinct hrows hback hs.ids
  rw [closeTxn, values_insertAll hnodup]
  · simp
  · intro b hb
    exact hs.tuples.get_eq_none.mpr (hne b hb)

theorem holdings_close :
    (s.closeTxn x back rows).holdings =
      placed .committed back + s.outside x := by
  have hvisible : visible (s.closeTxn x back rows).tuples =
      placed .committed back + visible s.tuples := by
    rw [visible, hs.values_close hrows hback, Multiset.map_add]
    simp [placed, visible]
  rw [holdings, hvisible, outside]
  simp only [closeTxn]
  abel

theorem lists_close :
    Lists TupleRecord.tupleId id (s.closeTxn x back rows).tuples
        (values (s.closeTxn x back rows).tuples) ∧
      Lists TupleRecord.leaseId TupleRecord.tupleId
        (s.closeTxn x back rows).leaseIndex
        (values (s.closeTxn x back rows).tuples) ∧
      Lists (fun e : String × TupleRecord => e.2.leaseId)
        (fun e => (e.1, e.2.tupleId))
        (s.closeTxn x back rows).txnLeaseIndex
        (s.closeTxn x back rows).buffered := by
  obtain ⟨hidNodup, hidNe⟩ := back_distinct hrows hback hs.ids
  obtain ⟨hleaseNodup, hleaseNe⟩ := back_distinct hrows hback hs.leases
  rw [hs.values_close hrows hback]
  refine ⟨hs.tuples.insertAll hidNodup hidNe,
    hs.leaseIndex.insertAll hleaseNodup hleaseNe, ?_⟩
  have hlists := hs.txnLeaseIndex
  have hnodup := hs.nodup_leases_buffered
  rw [buffered_close hrows back] at hlists hnodup
  have hrowsErase : (s.closeTxn x back rows).txnLeaseIndex =
      eraseAll (fun e : String × TupleRecord => e.2.leaseId)
        s.txnLeaseIndex (rows.map (x, ·)) := by
    simp [closeTxn, eraseAll, List.foldl_map]
  rw [hrowsErase]
  refine hlists.eraseAll fun e he b hb => ?_
  exact ne_of_nodup_map_add hnodup (Multiset.mem_coe.mpr he) hb

/-- An operation that answers `result` and ends the transaction refines the
ledger once its step is one. -/
theorem refines_close {result : SpaceResult}
    (hexec : s.exec op = (result, s.closeTxn x back rows))
    (hstep : LedgerStep s.holdings op result
      (placed .committed back + s.outside x)) : s.Refines op := by
  obtain ⟨htuples, hleases, htxn⟩ := hs.lists_close hrows hback
  refine ⟨?_, ?_, ?_, ?_⟩ <;> simp only [hexec]
  · rw [hs.holdings_close hrows hback]
    exact hstep
  · exact htuples
  · exact hleases
  · exact htxn

omit hrows hback

theorem refines_commitTxn (x : String) : s.Refines (.commitTxn x) := by
  obtain ⟨hrows, hback⟩ := commit_rows s x
  refine hs.refines_close hrows hback (by rw [exec, commitTxn_eq]) ?_
  rw [holdings_outside s x]
  exact LedgerStep.commit _ x _ _ _ (s.outside_txn x)

theorem refines_abortTxn (x : String) : s.Refines (.abortTxn x) := by
  obtain ⟨hrows, hback⟩ := abort_rows s x
  refine hs.refines_close hrows hback (by rw [exec, abortTxn_eq]) ?_
  rw [holdings_outside s x]
  exact LedgerStep.abort _ x _ _ _ (s.outside_txn x)

/-! ### All operations -/

theorem refines_stationary (hop : op.Stationary) : s.Refines op := by
  have hsame : (s.exec op).2.tuples = s.tuples ∧
      (s.exec op).2.leaseIndex = s.leaseIndex ∧
      (s.exec op).2.txnLeaseIndex = s.txnLeaseIndex ∧
      (s.exec op).2.buffered = s.buffered ∧
      (s.exec op).2.holdings = s.holdings := by
    cases op with
    | removeWatch w =>
        cases h : s.watches[w]? <;>
          simp [exec, removeWatch, h, buffered, holdings]
    | removeWatchByLease l =>
        cases h : s.watchLeaseIndex[l]? with
        | none => simp [exec, removeWatchByLease, h]
        | some w =>
            cases hw : s.watches[w]? <;>
              simp [exec, removeWatchByLease, h, hw, buffered, holdings]
    | get | findMatch | findAllMatches | hasTxn | listAll | createWatch
    | listWatches => exact ⟨rfl, rfl, rfl, rfl, rfl⟩
    | _ => exact False.elim hop
  obtain ⟨htuples, hleaseIndex, htxnLeaseIndex, hbuffered, hholdings⟩ := hsame
  refine ⟨?_, ?_, ?_, ?_⟩
  · rw [hholdings]
    exact LedgerStep.stationary _ _ _ hop
  · rw [htuples]
    exact hs.tuples
  · rw [htuples, hleaseIndex]
    exact hs.leaseIndex
  · rw [hbuffered, htxnLeaseIndex]
    exact hs.txnLeaseIndex

/-- Every call of the trait makes one ledger step and keeps the indexes. -/
theorem refines (op : SpaceOp) (hnew : ∀ r, op.written = some r → s.New r) :
    s.Refines op := by
  cases op with
  | insert r => exact hs.refines_insert (hnew r rfl)
  | insertUncommitted x r => exact hs.refines_insertUncommitted (hnew r rfl)
  | remove t => exact hs.refines_remove t
  | removeByLease l => exact hs.refines_removeByLease l
  | takeMatch it template txnId =>
      cases txnId with
      | none => exact hs.refines_take it template
      | some x => exact hs.refines_takeTxn it template x
  | commitTxn x => exact hs.refines_commitTxn x
  | abortTxn x => exact hs.refines_abortTxn x
  | _ => exact hs.refines_stationary trivial

end Coherent

end InMemorySpaceStore

end Coordin8
