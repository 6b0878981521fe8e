import Coordin8.Space.Store
import Coordin8.Support.Transition

/-!
# Runs of the in-memory Space store

A run starts from the empty store and makes any calls of the trait, in any
order; the one condition is that a write brings ids no earlier write used, as
the Space manager does with fresh UUIDs.  Every run of the store is a run of
the ledger, so what the ledger guarantees holds of the maps: the indexes agree
with the records, no tuple is lost and none is handed out twice.
-/

namespace Coordin8

open Support Support.DashMap

/-- One call on the store, recorded in the history.  A write under ids that
were used before is not enabled. -/
def storeStep (s : InMemorySpaceStore × History) (op : SpaceOp) :
    Option (InMemorySpaceStore × History) :=
  if fresh s.2 op then
    some ((s.1.exec op).2, s.2 ++ [(op, (s.1.exec op).1)])
  else
    none

/-- `s` is reached from the empty store by the calls recorded in `h`. -/
def StoreRun (h : History) (s : InMemorySpaceStore) : Prop :=
  Reachable storeStep (InMemorySpaceStore.new, []) (s, h)

variable {h : History} {s : InMemorySpaceStore} {r : TupleRecord}

/-- A record that a fresh call brings shares no id with what the store holds. -/
theorem LedgerRun.new_of_fresh
    {op : SpaceOp} (hledger : LedgerRun h s.holdings)
    (hfresh : fresh h op = true) : ∀ r, op.written = some r → s.New r := by
  intro r hr r' hr'
  refine fresh_iff.mp hfresh r hr r' ?_
  rw [← Multiset.mem_coe, hledger.balance]
  exact Multiset.mem_add.mpr (Or.inl hr')

namespace StoreRun

open InMemorySpaceStore

theorem coherent_and_ledgerRun
    (hrun : StoreRun h s) : Coherent s ∧ LedgerRun h s.holdings := by
  refine Reachable.invariant
    (P := fun c : InMemorySpaceStore × History =>
      Coherent c.1 ∧ LedgerRun c.2 c.1.holdings) ?_ ?_ hrun
  · rw [holdings_new]
    exact ⟨coherent_new, LedgerRun.new⟩
  · rintro ⟨s, h⟩ op c - ⟨hs, hledger⟩ hstep
    rw [storeStep] at hstep
    split at hstep
    · next hfresh =>
      obtain rfl := Option.some.inj hstep
      have hnew := hledger.new_of_fresh hfresh
      have hrefines := hs.refines op hnew
      exact ⟨hrefines.coherent hs hnew, hledger.step hfresh hrefines.ledger⟩
    · cases hstep

theorem coherent (hrun : StoreRun h s) : Coherent s :=
  hrun.coherent_and_ledgerRun.1

theorem ledgerRun (hrun : StoreRun h s) : LedgerRun h s.holdings :=
  hrun.coherent_and_ledgerRun.2

theorem ledgerStep {op : SpaceOp}
    (hrun : StoreRun h s) (hfresh : fresh h op = true) :
    LedgerStep s.holdings op (s.exec op).1 (s.exec op).2.holdings :=
  (hrun.coherent.refines op (hrun.ledgerRun.new_of_fresh hfresh)).ledger

end StoreRun

/-! ## The maps stay in step -/

namespace InMemorySpaceStore

/-- All records in the visible tuples and in the buffers. -/
def records (s : InMemorySpaceStore) : Multiset TupleRecord :=
  values s.tuples + (contents s.uncommitted).map Prod.snd +
    (contents s.txnTaken).map Prod.snd +
    (contents s.txnSelfTaken).map Prod.snd

theorem map_snd_holdings_eq_records (s : InMemorySpaceStore) :
    s.holdings.map Prod.snd = s.records := by
  simp [map_snd_holdings, buffered, records, add_assoc]

namespace Coherent

variable {s : InMemorySpaceStore} (hs : Coherent s)

include hs

theorem leaseIndex_iff (l t : String) :
    s.leaseIndex[l]? = some t ↔ ∃ r, s.tuples[t]? = some r ∧ r.leaseId = l := by
  rw [hs.leaseIndex l t]
  constructor
  · rintro ⟨r, hr, rfl, rfl⟩
    exact ⟨r, hs.tuples.get hr, rfl⟩
  · rintro ⟨r, hr, rfl⟩
    exact ⟨r, mem_values.mpr ⟨t, hr⟩, rfl, hs.key hr⟩

/-- A row of the transaction index points at the one buffer that holds the
record. -/
theorem txnLeaseIndex_iff (l x t : String) :
    s.txnLeaseIndex[l]? = some (x, t) ↔
      ∃! p : Place, p.txn = some x ∧
        ∃ r ∈ s.buffer p, r.leaseId = l ∧ r.tupleId = t := by
  rw [hs.txnLeaseIndex l (x, t)]
  constructor
  · rintro ⟨⟨y, r⟩, hr, rfl, hval⟩
    obtain ⟨rfl, rfl⟩ := Prod.mk.inj hval
    obtain ⟨p, hp, hmem⟩ := exists_place_of_mem_buffered hr
    refine ⟨p, ⟨hp, r, (mem_buffer hp).mpr hmem, rfl, rfl⟩, ?_⟩
    rintro q ⟨hq, r', hr', -, hid⟩
    exact (hs.id_inj ((mem_buffer hq).mp hr') hmem hid).1
  · rintro ⟨p, ⟨hp, r, hr, rfl, rfl⟩, -⟩
    refine ⟨(x, r), mem_buffered.mpr ?_, rfl, rfl⟩
    cases p with
    | committed => cases hp
    | uncommitted => exact Or.inl (Option.some.inj hp ▸ hr)
    | taken => exact Or.inr (Or.inl (Option.some.inj hp ▸ hr))
    | selfTaken => exact Or.inr (Or.inr (Option.some.inj hp ▸ hr))

theorem removeByLease_held {p : Place} (hr : (p, r) ∈ s.holdings) :
    (s.removeByLease r.leaseId).1 = some r ∧
      s.holdings = (p, r) ::ₘ (s.removeByLease r.leaseId).2.holdings := by
  have hstep := (hs.refines_removeByLease r.leaseId).ledger
  rcases hstep.expire_cases with ⟨q, r', hlease, hres, hH⟩ | ⟨-, -, habsent⟩
  · have hr' : (q, r') ∈ s.holdings := by
      rw [hH]
      exact Multiset.mem_cons_self _ _
    obtain ⟨rfl, rfl⟩ := hs.lease_inj hr hr' hlease.symm
    exact ⟨by simpa [exec] using hres, hH⟩
  · exact absurd rfl (habsent p r hr)

end Coherent

end InMemorySpaceStore

/-- In every state of the store: a tuple id occurs once across the visible
tuples and all buffers, each index has exactly the rows it should have, and an
expiry finds the tuple of its lease wherever it is. -/
theorem store_representation {h : History} {s : InMemorySpaceStore}
    (hrun : StoreRun h s) :
    (s.records.map TupleRecord.tupleId).Nodup ∧
      (∀ (t : String) (r : TupleRecord),
        s.tuples[t]? = some r → r.tupleId = t) ∧
      (∀ l t : String, s.leaseIndex[l]? = some t ↔
        ∃ r, s.tuples[t]? = some r ∧ r.leaseId = l) ∧
      (∀ l x t, s.txnLeaseIndex[l]? = some (x, t) ↔
        ∃! p : Place, p.txn = some x ∧
          ∃ r ∈ s.buffer p, r.leaseId = l ∧ r.tupleId = t) ∧
      ∀ p r, (p, r) ∈ s.holdings →
        (s.removeByLease r.leaseId).1 = some r ∧
          s.holdings = (p, r) ::ₘ (s.removeByLease r.leaseId).2.holdings := by
  have hs := hrun.coherent
  refine ⟨?_, fun _ _ => hs.key, hs.leaseIndex_iff, hs.txnLeaseIndex_iff,
    fun _ _ => hs.removeByLease_held⟩
  rw [← InMemorySpaceStore.map_snd_holdings_eq_records]
  exact hs.ids

/-- A tuple with no attributes; a template without fields matches it. -/
def order (n : String) : TupleRecord where
  tupleId := "order-" ++ n
  attrs := ∅
  payload := []
  leaseId := "lease-" ++ n
  writtenBy := "shop"
  writtenAt := 0
  inputTupleId := none

/-- A transaction takes its own write and then a visible tuple. -/
def shopTakes : List SpaceOp :=
  [.insert (order "1"), .insertUncommitted "t" (order "2"),
    .takeMatch Iteration.sorted ∅ (some "t"),
    .takeMatch Iteration.sorted ∅ (some "t")]

def shop : InMemorySpaceStore × History :=
  (run storeStep (.new, []) shopTakes).get (by decide)

theorem shop_run : StoreRun shop.2 shop.1 :=
  ⟨shopTakes, rfl⟩

theorem store_representation_shop :
    StoreRun shop.2 shop.1 ∧
      shop.1.txnLeaseIndex["lease-1"]? = some ("t", "order-1") ∧
      ∃! p : Place, p.txn = some "t" ∧ ∃ r ∈ shop.1.buffer p,
        r.leaseId = "lease-1" ∧ r.tupleId = "order-1" :=
  ⟨shop_run, by decide,
    ((store_representation shop_run).2.2.2.1 _ _ _).mp (by decide)⟩

/-! ## Nothing is lost, nothing is handed out twice -/

/-- A call of the history is where a record left when it handed it out. -/
theorem LedgerRun.leaves_once {H : Holdings}
    (hrun : LedgerRun h H) (hr : r ∈ departed h) :
    ∃! i : Nat, ∃ e, h[i]? = some e ∧ r ∈ leaving e := by
  have hnodup : (departed h).Nodup := by
    have hids := hrun.nodup_ids
    rw [Multiset.map_add] at hids
    exact Multiset.coe_nodup.mp
      ((Multiset.nodup_add.mp hids).2.1.of_map TupleRecord.tupleId)
  have hdisjoint := (List.nodup_flatMap.mp hnodup).2
  rw [List.pairwise_iff_getElem] at hdisjoint
  obtain ⟨e, he, hleaving⟩ := List.mem_flatMap.mp hr
  obtain ⟨i, hi, rfl⟩ := List.getElem_of_mem he
  refine ⟨i, ⟨h[i], List.getElem?_eq_getElem hi, hleaving⟩, ?_⟩
  rintro j ⟨e', hj, hleaving'⟩
  obtain ⟨hlen, rfl⟩ := List.getElem?_eq_some_iff.mp hj
  rcases Nat.lt_trichotomy i j with hlt | heq | hlt
  · exact absurd hleaving' (List.disjoint_left.mp
      (hdisjoint i j hi hlen hlt) hleaving)
  · exact heq.symm
  · exact absurd hleaving (List.disjoint_left.mp
      (hdisjoint j i hlen hi hlt) hleaving')

/-- In every run: what was ever written is what the maps hold and what has
left, counted with multiplicity; ids do not repeat, so nothing is in two of
these parts; each record leaves in one call only; and two takes hand out the
same tuple only when an abort of the first taker's transaction restored it in
between. -/
theorem store_ledger {h : History} {s : InMemorySpaceStore}
    (hrun : StoreRun h s) :
    (inserted h : Multiset TupleRecord) = s.records + departed h ∧
      ((s.records + departed h).map TupleRecord.tupleId).Nodup ∧
      (∀ r ∈ departed h, ∃! i : Nat, ∃ e, h[i]? = some e ∧ r ∈ leaving e) ∧
      ∀ h₁ e h₂ e' h₃, h = h₁ ++ e :: h₂ ++ e' :: h₃ →
        ∀ x y r r', TookUnder x r e → TookUnder y r' e' →
          r'.tupleId = r.tupleId → ∃ a ∈ h₂, RestoredBy x r a := by
  have hledger := hrun.ledgerRun
  rw [← InMemorySpaceStore.map_snd_holdings_eq_records]
  refine ⟨hledger.balance, hledger.nodup_ids, fun _ => hledger.leaves_once, ?_⟩
  rintro h₁ e h₂ e' h₃ rfl x y r r' htook htook' hid
  rw [List.append_cons] at hledger
  obtain ⟨H, hprefix⟩ := hledger.of_append
  exact hprefix.restored_of_took_twice htook htook' hid

/-- The transaction of `shop` aborts, and another client takes the restored
tuple. -/
theorem shop_retake :
    StoreRun
      ([(.insert (order "1"), .unit),
        (.insertUncommitted "t" (order "2"), .unit),
        (.takeMatch Iteration.sorted ∅ (some "t"),
          .tuple (some (order "2")))] ++
        (.takeMatch Iteration.sorted ∅ (some "t"), .tuple (some (order "1"))) ::
        [(.abortTxn "t", .lists [order "2"] [order "1"])] ++
        (.takeMatch Iteration.sorted ∅ none, .tuple (some (order "1"))) :: [])
      .new :=
  ⟨shopTakes ++ [.abortTxn "t", .takeMatch Iteration.sorted ∅ none], rfl⟩

theorem store_ledger_shop :
    ∃ a ∈ [((.abortTxn "t", .lists [order "2"] [order "1"]) :
        SpaceOp × SpaceResult)], RestoredBy (some "t") (order "1") a :=
  (store_ledger shop_retake).2.2.2 _ _ _ _ _ rfl _ _ _ _
    ⟨_, _, rfl⟩ ⟨_, _, rfl⟩ rfl

end Coordin8
