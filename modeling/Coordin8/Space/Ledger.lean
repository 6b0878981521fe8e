import Coordin8.Provider.SpaceStore
import Mathlib.Algebra.Order.Group.Multiset
import Mathlib.Tactic.Abel

/-!
# The Space as a ledger of places

What the Space store is for, without its maps and indexes: every tuple it holds
is at one place, either visible to all or in one of the three buffers of a
transaction, and an operation moves records from place to place, lets one in,
or hands some back to the caller.  `LedgerStep` says which moves each operation
may make.  The facts about whole runs (nothing is lost, nothing is handed out
twice, what a transaction has pending) are proved here, for every ledger run;
`Coordin8.Space.Store` shows that the in-memory store makes only such runs.
-/

namespace Coordin8

open Support

/-- Where the Space holds a record. -/
inductive Place where
  | committed
  | uncommitted (txnId : String)
  | taken (txnId : String)
  | selfTaken (txnId : String)
deriving DecidableEq, Repr

/-- The transaction that owns a place. -/
def Place.txn : Place → Option String
  | .committed => none
  | .uncommitted x | .taken x | .selfTaken x => some x

/-- All records the Space holds, each with its place. -/
abbrev Holdings := Multiset (Place × TupleRecord)

/-- The holdings of a list of records at one place. -/
def placed (p : Place) (records : List TupleRecord) : Holdings :=
  (records.map (p, ·) : List (Place × TupleRecord))

variable {p q : Place} {r r' : TupleRecord} {H : Holdings}

@[simp] theorem mem_placed {records : List TupleRecord} : (q, r) ∈ placed p records ↔ q = p ∧ r ∈ records := by
  simp [placed, eq_comm, and_comm]

@[simp] theorem map_snd_placed (p : Place) (records : List TupleRecord) :
    (placed p records).map Prod.snd = (records : Multiset TupleRecord) := by
  simp [placed, Function.comp_def]

/-- The record an operation brings into the Space. -/
def SpaceOp.written : SpaceOp → Option TupleRecord
  | .insert r | .insertUncommitted _ r => some r
  | _ => none

/-- Operations that leave every tuple where it is. -/
def SpaceOp.Stationary : SpaceOp → Prop
  | .get _ | .findMatch .. | .findAllMatches .. | .hasTxn _ | .listAll _
  | .createWatch _ | .removeWatch _ | .removeWatchByLease _
  | .listWatches _ => True
  | _ => False

/-- The moves an operation makes, given what it returns. -/
inductive LedgerStep : Holdings → SpaceOp → SpaceResult → Holdings → Prop where
  | insert (H : Holdings) (r : TupleRecord) :
      LedgerStep H (.insert r) .unit ((.committed, r) ::ₘ H)
  | insertUncommitted (H : Holdings) (x : String) (r : TupleRecord) :
      LedgerStep H (.insertUncommitted x r) .unit ((.uncommitted x, r) ::ₘ H)
  | remove (H : Holdings) (r : TupleRecord) :
      LedgerStep ((.committed, r) ::ₘ H) (.remove r.tupleId) (.tuple (some r)) H
  | removeAbsent (H : Holdings) (t : String)
      (habsent : ∀ r, (.committed, r) ∈ H → r.tupleId ≠ t) :
      LedgerStep H (.remove t) (.tuple none) H
  | expire (H : Holdings) (p : Place) (r : TupleRecord) :
      LedgerStep ((p, r) ::ₘ H) (.removeByLease r.leaseId) (.tuple (some r)) H
  | expireAbsent (H : Holdings) (l : String)
      (habsent : ∀ p r, (p, r) ∈ H → r.leaseId ≠ l) :
      LedgerStep H (.removeByLease l) (.tuple none) H
  | take (H : Holdings) (it : TupleIteration) (template : Attrs)
      (r : TupleRecord) :
      LedgerStep ((.committed, r) ::ₘ H) (.takeMatch it template none)
        (.tuple (some r)) H
  | takeOwn (H : Holdings) (it : TupleIteration) (template : Attrs)
      (x : String) (r : TupleRecord) :
      LedgerStep ((.uncommitted x, r) ::ₘ H) (.takeMatch it template (some x))
        (.tuple (some r)) ((.selfTaken x, r) ::ₘ H)
  | takeTxn (H : Holdings) (it : TupleIteration) (template : Attrs)
      (x : String) (r : TupleRecord) :
      LedgerStep ((.committed, r) ::ₘ H) (.takeMatch it template (some x))
        (.tuple (some r)) ((.taken x, r) ::ₘ H)
  | takeNothing (H : Holdings) (it : TupleIteration) (template : Attrs)
      (x : Option String) :
      LedgerStep H (.takeMatch it template x) (.tuple none) H
  | commit (H : Holdings) (x : String) (writes taken own : List TupleRecord)
      (hothers : ∀ p r, (p, r) ∈ H → p.txn ≠ some x) :
      LedgerStep
        (placed (.uncommitted x) writes + placed (.taken x) taken +
          placed (.selfTaken x) own + H)
        (.commitTxn x) (.lists writes (taken ++ own))
        (placed .committed writes + H)
  | abort (H : Holdings) (x : String) (writes taken own : List TupleRecord)
      (hothers : ∀ p r, (p, r) ∈ H → p.txn ≠ some x) :
      LedgerStep
        (placed (.uncommitted x) writes + placed (.taken x) taken +
          placed (.selfTaken x) own + H)
        (.abortTxn x) (.lists (writes ++ own) taken)
        (placed .committed taken + H)
  | stationary (H : Holdings) (op : SpaceOp) (res : SpaceResult)
      (hop : op.Stationary) : LedgerStep H op res H

/-! ## Runs -/

/-- The calls made so far, each with what it returned. -/
abbrev History := List (SpaceOp × SpaceResult)

/-- Every record ever written. -/
def inserted (h : History) : List TupleRecord :=
  h.filterMap fun e => e.1.written

/-- A write brings a tuple id and a lease id that no earlier write used. -/
def fresh (h : History) (op : SpaceOp) : Bool :=
  match op.written with
  | none => true
  | some r =>
      (inserted h).all fun r' =>
        r'.tupleId != r.tupleId && r'.leaseId != r.leaseId

inductive LedgerRun : History → Holdings → Prop where
  | new : LedgerRun [] 0
  | step {h : History} {H H' : Holdings} {op : SpaceOp} {res : SpaceResult}
      (hrun : LedgerRun h H) (hfresh : fresh h op = true)
      (hstep : LedgerStep H op res H') : LedgerRun (h ++ [(op, res)]) H'

/-- The records one call hands out of the Space for good. -/
def leaving : SpaceOp × SpaceResult → List TupleRecord
  | (.remove _, .tuple r) => r.toList
  | (.removeByLease _, .tuple r) => r.toList
  | (.takeMatch _ _ none, .tuple r) => r.toList
  | (.commitTxn _, .lists _ taken) => taken
  | (.abortTxn _, .lists discarded _) => discarded
  | _ => []

/-- Every record that has left the Space. -/
def departed (h : History) : List TupleRecord :=
  h.flatMap leaving

theorem inserted_append (h h' : History) :
    inserted (h ++ h') = inserted h ++ inserted h' :=
  List.filterMap_append

theorem departed_append (h h' : History) :
    departed (h ++ h') = departed h ++ departed h' :=
  List.flatMap_append

variable {h : History}

theorem fresh_iff {op : SpaceOp} :
    fresh h op = true ↔ ∀ r, op.written = some r → ∀ r' ∈ inserted h,
      r'.tupleId ≠ r.tupleId ∧ r'.leaseId ≠ r.leaseId := by
  unfold fresh
  cases op.written with
  | none | some r => simp

/-- What is held after a call and what it handed out make up what was held
before and what it brought in. -/
theorem LedgerStep.conservation
    {H' : Holdings} {op : SpaceOp} {res : SpaceResult}
    (hstep : LedgerStep H op res H') :
    H'.map Prod.snd + (leaving (op, res) : Multiset TupleRecord) =
      H.map Prod.snd + (op.written.toList : Multiset TupleRecord) := by
  cases hstep with
  | commit H x writes taken own hothers | abort H x writes taken own hothers =>
      simp only [leaving, SpaceOp.written, Option.toList_none,
        Multiset.coe_nil, Multiset.map_add, map_snd_placed, add_zero,
        ← Multiset.coe_add]
      abel
  | stationary H op res hop =>
      cases op <;> simp_all [SpaceOp.Stationary, leaving, SpaceOp.written]
  | takeNothing H it template x =>
      cases x <;> simp [leaving, SpaceOp.written]
  | _ => simp [leaving, SpaceOp.written, ← Multiset.singleton_add, add_comm]

/-- Every record ever written is held or has left, counted with
multiplicity. -/
theorem LedgerRun.balance (hrun : LedgerRun h H) :
    (inserted h : Multiset TupleRecord) =
      H.map Prod.snd + (departed h : Multiset TupleRecord) := by
  induction hrun with
  | new => simp [inserted, departed]
  | @step h H H' op res hrun hfresh hstep ih =>
      have hcons := hstep.conservation
      rw [inserted_append, departed_append, ← Multiset.coe_add,
        ← Multiset.coe_add, ih]
      have hins : inserted [(op, res)] = op.written.toList := by
        cases hw : op.written <;> simp [inserted, hw]
      have hdep : departed [(op, res)] = leaving (op, res) := by
        simp [departed]
      rw [hins, hdep]
      calc
        H.map Prod.snd + departed h + op.written.toList =
            H.map Prod.snd + op.written.toList + departed h := by abel
        _ = H'.map Prod.snd + leaving (op, res) + departed h := by rw [hcons]
        _ = H'.map Prod.snd + (departed h + leaving (op, res)) := by abel

/-- No two writes share a tuple id or a lease id. -/
theorem LedgerRun.inserted_distinct (hrun : LedgerRun h H) :
    (inserted h).Pairwise fun r r' =>
      r.tupleId ≠ r'.tupleId ∧ r.leaseId ≠ r'.leaseId := by
  induction hrun with
  | new => simp [inserted]
  | @step h H H' op res hrun hfresh hstep ih =>
      rw [inserted_append, List.pairwise_append]
      refine ⟨ih, ?_, ?_⟩
      · cases hw : op.written <;> simp [inserted, hw]
      · intro r hr r' hr'
        have hw : op.written = some r' := by
          simpa [inserted] using hr'
        exact fresh_iff.mp hfresh r' hw r hr

/-! ## What one step does to one record -/

/-- The ways a call moves a record from one place to another. -/
inductive Move : SpaceOp → SpaceResult → Place → Place → TupleRecord → Prop where
  | takeOwn (it : TupleIteration) (template : Attrs) (x : String)
      (r : TupleRecord) :
      Move (.takeMatch it template (some x)) (.tuple (some r))
        (.uncommitted x) (.selfTaken x) r
  | takeTxn (it : TupleIteration) (template : Attrs) (x : String)
      (r : TupleRecord) :
      Move (.takeMatch it template (some x)) (.tuple (some r))
        .committed (.taken x) r
  | publish (x : String) (writes taken : List TupleRecord) (r : TupleRecord)
      (hr : r ∈ writes) :
      Move (.commitTxn x) (.lists writes taken) (.uncommitted x) .committed r
  | restore (x : String) (discarded taken : List TupleRecord)
      (r : TupleRecord) (hr : r ∈ taken) :
      Move (.abortTxn x) (.lists discarded taken) (.taken x) .committed r

/-- The ways a record leaves the Space from its place. -/
inductive Leave : SpaceOp → Place → TupleRecord → Prop where
  | remove (r : TupleRecord) : Leave (.remove r.tupleId) .committed r
  | expire (p : Place) (r : TupleRecord) : Leave (.removeByLease r.leaseId) p r
  | take (it : TupleIteration) (template : Attrs) (r : TupleRecord) :
      Leave (.takeMatch it template none) .committed r
  | commitTaken (x : String) (r : TupleRecord) :
      Leave (.commitTxn x) (.taken x) r
  | commitOwn (x : String) (r : TupleRecord) :
      Leave (.commitTxn x) (.selfTaken x) r
  | abortWrite (x : String) (r : TupleRecord) :
      Leave (.abortTxn x) (.uncommitted x) r
  | abortOwn (x : String) (r : TupleRecord) :
      Leave (.abortTxn x) (.selfTaken x) r

namespace LedgerStep

variable {H H' : Holdings} {op : SpaceOp} {res : SpaceResult}

theorem mem_after (hstep : LedgerStep H op res H') (hr : (q, r) ∈ H') :
    (q, r) ∈ H ∨ (op = .insert r ∧ q = .committed) ∨
      (∃ x, op = .insertUncommitted x r ∧ q = .uncommitted x) ∨
      ∃ p, (p, r) ∈ H ∧ Move op res p q r := by
  cases hstep with
  | insert H r₀ =>
      rcases Multiset.mem_cons.mp hr with heq | hr
      · obtain ⟨rfl, rfl⟩ := Prod.mk.inj heq
        exact Or.inr (Or.inl ⟨rfl, rfl⟩)
      · exact Or.inl hr
  | insertUncommitted H x r₀ =>
      rcases Multiset.mem_cons.mp hr with heq | hr
      · obtain ⟨rfl, rfl⟩ := Prod.mk.inj heq
        exact Or.inr (Or.inr (Or.inl ⟨x, rfl, rfl⟩))
      · exact Or.inl hr
  | takeOwn H it template x r₀ =>
      rcases Multiset.mem_cons.mp hr with heq | hr
      · obtain ⟨rfl, rfl⟩ := Prod.mk.inj heq
        exact Or.inr (Or.inr (Or.inr
          ⟨.uncommitted x, by simp, Move.takeOwn it template x r⟩))
      · exact Or.inl (Multiset.mem_cons_of_mem hr)
  | takeTxn H it template x r₀ =>
      rcases Multiset.mem_cons.mp hr with heq | hr
      · obtain ⟨rfl, rfl⟩ := Prod.mk.inj heq
        exact Or.inr (Or.inr (Or.inr
          ⟨.committed, by simp, Move.takeTxn it template x r⟩))
      · exact Or.inl (Multiset.mem_cons_of_mem hr)
  | commit H x writes taken own hothers =>
      rcases Multiset.mem_add.mp hr with hr | hr
      · obtain ⟨rfl, hw⟩ := mem_placed.mp hr
        exact Or.inr (Or.inr (Or.inr
          ⟨.uncommitted x, by simp [hw], Move.publish x writes _ r hw⟩))
      · exact Or.inl (Multiset.mem_add.mpr (Or.inr hr))
  | abort H x writes taken own hothers =>
      rcases Multiset.mem_add.mp hr with hr | hr
      · obtain ⟨rfl, ht⟩ := mem_placed.mp hr
        exact Or.inr (Or.inr (Or.inr
          ⟨.taken x, by simp [ht], Move.restore x _ taken r ht⟩))
      · exact Or.inl (Multiset.mem_add.mpr (Or.inr hr))
  | remove | expire | take => exact Or.inl (Multiset.mem_cons_of_mem hr)
  | removeAbsent | expireAbsent | takeNothing | stationary => exact Or.inl hr

theorem mem_before (hstep : LedgerStep H op res H') (hr : (p, r) ∈ H) :
    (p, r) ∈ H' ∨ (∃ q, (q, r) ∈ H' ∧ Move op res p q r) ∨ Leave op p r := by
  cases hstep with
  | insert | insertUncommitted => exact Or.inl (Multiset.mem_cons_of_mem hr)
  | remove _ r₀ =>
      rcases Multiset.mem_cons.mp hr with heq | hr
      · obtain ⟨rfl, rfl⟩ := Prod.mk.inj heq
        exact Or.inr (Or.inr (Leave.remove r))
      · exact Or.inl hr
  | expire _ p₀ r₀ =>
      rcases Multiset.mem_cons.mp hr with heq | hr
      · obtain ⟨rfl, rfl⟩ := Prod.mk.inj heq
        exact Or.inr (Or.inr (Leave.expire p r))
      · exact Or.inl hr
  | take _ it template r₀ =>
      rcases Multiset.mem_cons.mp hr with heq | hr
      · obtain ⟨rfl, rfl⟩ := Prod.mk.inj heq
        exact Or.inr (Or.inr (Leave.take it template r))
      · exact Or.inl hr
  | takeOwn H it template x r₀ =>
      rcases Multiset.mem_cons.mp hr with heq | hr
      · obtain ⟨rfl, rfl⟩ := Prod.mk.inj heq
        exact Or.inr (Or.inl
          ⟨.selfTaken x, by simp, Move.takeOwn it template x r⟩)
      · exact Or.inl (Multiset.mem_cons_of_mem hr)
  | takeTxn H it template x r₀ =>
      rcases Multiset.mem_cons.mp hr with heq | hr
      · obtain ⟨rfl, rfl⟩ := Prod.mk.inj heq
        exact Or.inr (Or.inl ⟨.taken x, by simp, Move.takeTxn it template x r⟩)
      · exact Or.inl (Multiset.mem_cons_of_mem hr)
  | commit H x writes taken own hothers =>
      simp only [Multiset.mem_add, mem_placed] at hr
      rcases hr with ((⟨rfl, hr⟩ | ⟨rfl, hr⟩) | ⟨rfl, hr⟩) | hr
      · exact Or.inr (Or.inl
          ⟨.committed, by simp [hr], Move.publish x writes _ r hr⟩)
      · exact Or.inr (Or.inr (Leave.commitTaken x r))
      · exact Or.inr (Or.inr (Leave.commitOwn x r))
      · exact Or.inl (Multiset.mem_add.mpr (Or.inr hr))
  | abort H x writes taken own hothers =>
      simp only [Multiset.mem_add, mem_placed] at hr
      rcases hr with ((⟨rfl, hr⟩ | ⟨rfl, hr⟩) | ⟨rfl, hr⟩) | hr
      · exact Or.inr (Or.inr (Leave.abortWrite x r))
      · exact Or.inr (Or.inl
          ⟨.committed, by simp [hr], Move.restore x _ taken r hr⟩)
      · exact Or.inr (Or.inr (Leave.abortOwn x r))
      · exact Or.inl (Multiset.mem_add.mpr (Or.inr hr))
  | removeAbsent | expireAbsent | takeNothing | stationary => exact Or.inl hr

/-- What a take returned was visible, or an own write of its transaction. -/
theorem taken_from {it : TupleIteration} {template : Attrs}
    {x : Option String}
    (hstep : LedgerStep H (.takeMatch it template x) (.tuple (some r)) H') :
    (.committed, r) ∈ H ∨ ∃ y, x = some y ∧ (.uncommitted y, r) ∈ H := by
  cases hstep with
  | take | takeTxn => exact Or.inl (Multiset.mem_cons_self _ _)
  | takeOwn H it template y => exact Or.inr ⟨y, rfl, by simp⟩
  | stationary _ _ _ hop => exact False.elim hop

theorem taken_to {it : TupleIteration} {template : Attrs}
    {x : Option String}
    (hstep : LedgerStep H (.takeMatch it template x) (.tuple (some r)) H') :
    x = none ∨
      ∃ y, x = some y ∧ ((.taken y, r) ∈ H' ∨ (.selfTaken y, r) ∈ H') := by
  cases hstep with
  | take => exact Or.inl rfl
  | takeTxn H it template y | takeOwn H it template y =>
      exact Or.inr ⟨y, rfl, by simp⟩
  | stationary _ _ _ hop => exact False.elim hop

/-- An expiry removes the one record with that lease, wherever it is. -/
theorem expire_cases {l : String}
    (hstep : LedgerStep H (.removeByLease l) res H') :
    (∃ p r, r.leaseId = l ∧ res = .tuple (some r) ∧ H = (p, r) ::ₘ H') ∨
      (res = .tuple none ∧ H' = H ∧ ∀ p r, (p, r) ∈ H → r.leaseId ≠ l) := by
  cases hstep with
  | expire _ p r => exact Or.inl ⟨p, r, rfl, rfl, rfl⟩
  | expireAbsent _ _ habsent => exact Or.inr ⟨rfl, rfl, habsent⟩
  | stationary _ _ _ hop => exact False.elim hop

end LedgerStep

/-! ## No record is handed out twice -/

namespace LedgerRun

variable {h : History} {H : Holdings}

theorem mem_inserted (hrun : LedgerRun h H)
    (hr : (p, r) ∈ H) : r ∈ inserted h := by
  rw [← Multiset.mem_coe, hrun.balance]
  exact Multiset.mem_add.mpr (Or.inl (Multiset.mem_map_of_mem Prod.snd hr))

theorem inserted_id_inj (hrun : LedgerRun h H)
    (hr : r ∈ inserted h) (hr' : r' ∈ inserted h)
    (hid : r.tupleId = r'.tupleId) : r = r' := by
  have hnodup : ((inserted h).map TupleRecord.tupleId).Nodup :=
    List.pairwise_map.mpr (hrun.inserted_distinct.imp fun hne => hne.1)
  exact List.inj_on_of_nodup_map hnodup hr hr' hid

theorem nodup_ids (hrun : LedgerRun h H) :
    ((H.map Prod.snd + (departed h : Multiset TupleRecord)).map
      TupleRecord.tupleId).Nodup := by
  rw [← hrun.balance]
  exact Multiset.coe_nodup.mpr
    (List.pairwise_map.mpr (hrun.inserted_distinct.imp fun hne => hne.1))

theorem nodup_leases (hrun : LedgerRun h H) :
    ((H.map Prod.snd + (departed h : Multiset TupleRecord)).map
      TupleRecord.leaseId).Nodup := by
  rw [← hrun.balance]
  exact Multiset.coe_nodup.mpr
    (List.pairwise_map.mpr (hrun.inserted_distinct.imp fun hne => hne.2))

theorem id_inj (hrun : LedgerRun h H)
    (hr : (p, r) ∈ H) (hr' : (q, r') ∈ H) (hid : r.tupleId = r'.tupleId) :
    p = q ∧ r = r' := by
  have hnodup := hrun.nodup_ids
  rw [Multiset.map_add, Multiset.map_map] at hnodup
  exact Prod.mk.injEq .. ▸ Multiset.inj_on_of_nodup_map
    (Multiset.nodup_add.mp hnodup).1 _ hr _ hr' hid

theorem lease_inj (hrun : LedgerRun h H) (hr : (p, r) ∈ H) (hr' : (q, r') ∈ H)
    (hlease : r.leaseId = r'.leaseId) : p = q ∧ r = r' := by
  have hnodup := hrun.nodup_leases
  rw [Multiset.map_add, Multiset.map_map] at hnodup
  exact Prod.mk.injEq .. ▸ Multiset.inj_on_of_nodup_map
    (Multiset.nodup_add.mp hnodup).1 _ hr _ hr' hlease

theorem of_snoc {e : SpaceOp × SpaceResult} (hrun : LedgerRun (h ++ [e]) H) :
    ∃ H₀, LedgerRun h H₀ ∧ fresh h e.1 = true ∧ LedgerStep H₀ e.1 e.2 H := by
  generalize hg : h ++ [e] = g at hrun
  cases hrun with
  | new => simp at hg
  | step hrun hfresh hstep =>
      obtain ⟨rfl, rfl⟩ := List.append_singleton_inj.mp hg
      exact ⟨_, hrun, hfresh, hstep⟩

theorem of_append {h' : History} (hrun : LedgerRun (h ++ h') H) :
    ∃ H₀, LedgerRun h H₀ := by
  induction h' using List.reverseRecOn generalizing H with
  | nil => exact ⟨H, by simpa using hrun⟩
  | append_singleton h' e ih =>
      rw [← List.append_assoc] at hrun
      obtain ⟨H₀, hrun, -, -⟩ := hrun.of_snoc
      exact ih hrun

theorem ne_departed (hrun : LedgerRun h H)
    (hr : (p, r) ∈ H) (hr' : r' ∈ departed h) : r.tupleId ≠ r'.tupleId := by
  have hnodup := hrun.nodup_ids
  rw [Multiset.map_add] at hnodup
  intro heq
  refine Multiset.disjoint_left.mp (Multiset.nodup_add.mp hnodup).2.2
    (Multiset.mem_map_of_mem _ (Multiset.mem_map_of_mem Prod.snd hr)) ?_
  exact heq ▸ Multiset.mem_map_of_mem _ (Multiset.mem_coe.mpr hr')

end LedgerRun

/-- The call `e` is a take under `x` that handed out `r`. -/
def TookUnder (x : Option String) (r : TupleRecord)
    (e : SpaceOp × SpaceResult) : Prop :=
  ∃ it template, e = (.takeMatch it template x, .tuple (some r))

/-- The call `e` aborted the transaction `x` and restored `r`. -/
def RestoredBy (x : Option String) (r : TupleRecord)
    (e : SpaceOp × SpaceResult) : Prop :=
  ∃ y discarded restored, x = some y ∧ r ∈ restored ∧
    e = (.abortTxn y, .lists discarded restored)

/-- The record `r` is nowhere, or where the transaction `x` keeps what it
took. -/
def HeldBack (x : Option String) (r : TupleRecord) (H : Holdings) : Prop :=
  ∀ p r', (p, r') ∈ H → r'.tupleId = r.tupleId →
    ∃ y, x = some y ∧ (p = .taken y ∨ p = .selfTaken y)

variable {h₁ h₂ : History}

namespace LedgerRun

variable {h : History} {H H' : Holdings} {x : Option String} {r : TupleRecord}
  {e : SpaceOp × SpaceResult}

theorem mem_inserted_of_took
    (hrun : LedgerRun (h₁ ++ e :: h₂) H) (htook : TookUnder x r e) :
    r ∈ inserted (h₁ ++ e :: h₂) := by
  obtain ⟨it, template, rfl⟩ := htook
  rw [List.append_cons] at hrun ⊢
  obtain ⟨H₂, hrun⟩ := hrun.of_append
  obtain ⟨H₁, hrun, -, hstep⟩ := hrun.of_snoc
  have hmem : r ∈ inserted h₁ := by
    rcases hstep.taken_from with hr | ⟨y, -, hr⟩
    · exact hrun.mem_inserted hr
    · exact hrun.mem_inserted hr
  rw [inserted_append, inserted_append]
  exact List.mem_append_left _ (List.mem_append_left _ hmem)

theorem heldBack_of_took (hrun : LedgerRun (h ++ [e]) H)
    (htook : TookUnder x r e) : HeldBack x r H := by
  obtain ⟨H₀, -, -, hstep⟩ := hrun.of_snoc
  obtain ⟨it, template, rfl⟩ := htook
  intro p r' hr' hid
  rcases hstep.taken_to with rfl | ⟨y, rfl, hy | hy⟩
  · refine absurd hid (hrun.ne_departed hr' ?_)
    simp [departed, leaving]
  · exact ⟨y, rfl, Or.inl (hrun.id_inj hr' hy hid).1⟩
  · exact ⟨y, rfl, Or.inr (hrun.id_inj hr' hy hid).1⟩

/-- A record held back stays so until an abort restores it. -/
theorem heldBack_step (hrun : LedgerRun h H) (hfresh : fresh h e.1 = true)
    (hstep : LedgerStep H e.1 e.2 H') (hmem : r ∈ inserted h)
    (hheld : HeldBack x r H) (hrestored : ¬ RestoredBy x r e) :
    HeldBack x r H' := by
  intro q r' hr' hid
  rcases hstep.mem_after hr' with hr | ⟨hop, -⟩ | ⟨y, hop, -⟩ | ⟨p, hr, hmove⟩
  · exact hheld q r' hr hid
  · exact absurd hid.symm (fresh_iff.mp hfresh r' (by rw [hop]; rfl) r hmem).1
  · exact absurd hid.symm (fresh_iff.mp hfresh r' (by rw [hop]; rfl) r hmem).1
  · obtain ⟨y, rfl, hp⟩ := hheld p r' hr hid
    obtain ⟨op, res⟩ := e
    cases hmove with
    | takeOwn | takeTxn | publish => simp at hp
    | restore z discarded restored _ hrest =>
        obtain rfl : z = y := by simpa using hp
        obtain rfl := hrun.inserted_id_inj (hrun.mem_inserted hr) hmem hid
        exact absurd ⟨z, discarded, restored, rfl, hrest, rfl⟩ hrestored

/-- After a take, the record is held back or an abort has restored it. -/
theorem restored_or_heldBack
    (hrun : LedgerRun (h₁ ++ e :: h₂) H) (htook : TookUnder x r e) :
    (∃ e' ∈ h₂, RestoredBy x r e') ∨ HeldBack x r H := by
  induction h₂ using List.reverseRecOn generalizing H with
  | nil => exact Or.inr (hrun.heldBack_of_took htook)
  | append_singleton h₂ e' ih =>
      rw [← List.cons_append, ← List.append_assoc] at hrun
      obtain ⟨H₀, hrun, hfresh, hstep⟩ := hrun.of_snoc
      by_cases hrestored : ∃ e ∈ h₂ ++ [e'], RestoredBy x r e
      · exact Or.inl hrestored
      · push Not at hrestored
        rcases ih hrun with ⟨e, he, hr⟩ | hheld
        · exact absurd hr (hrestored e (List.mem_append_left _ he))
        · refine Or.inr (hrun.heldBack_step hfresh hstep ?_ hheld
            (hrestored e' (by simp)))
          exact hrun.mem_inserted_of_took htook

/-- Two takes hand out the same tuple only when the first was under a
transaction whose abort, between the two, restored it. -/
theorem restored_of_took_twice {y : Option String} {e' : SpaceOp × SpaceResult}
    (hrun : LedgerRun (h₁ ++ e :: h₂ ++ [e']) H) (htook : TookUnder x r e)
    (htook' : TookUnder y r' e') (hid : r'.tupleId = r.tupleId) :
    ∃ a ∈ h₂, RestoredBy x r a := by
  obtain ⟨H₀, hrun, -, hstep⟩ := hrun.of_snoc
  rcases hrun.restored_or_heldBack htook with hrestored | hheld
  · exact hrestored
  · obtain ⟨it, template, rfl⟩ := htook'
    rcases hstep.taken_from with hr | ⟨z, -, hr⟩ <;>
      obtain ⟨_, _, hp⟩ := hheld _ _ hr hid <;>
      simp at hp

end LedgerRun

end Coordin8
