import Coordin8.Space.Runs

/-!
# Open writes do not disturb outsiders

Two stores that differ only in the own writes of one open transaction, run on
the same calls, answer every outside query alike: what a transaction has
written and not committed does not reach a client outside it, not even through
takes, expiries, or the commits and aborts of others.
-/

namespace Coordin8

open Support Support.DashMap

/-- The calls that may happen while the writes of `x` stay open. -/
def SpaceOp.LeavesOpen (x : String) : SpaceOp → Prop
  | .commitTxn y => y ≠ x
  | .takeMatch _ _ txnId => txnId ≠ some x
  | _ => True

/-- A query made without a transaction, or under one other than `x`. -/
def SpaceOp.OutsideQuery (x : String) : SpaceOp → Prop
  | .findMatch _ _ txnId | .takeMatch _ _ txnId
  | .findAllMatches _ _ txnId => txnId ≠ some x
  | .get _ | .listAll _ => True
  | _ => False

namespace InMemorySpaceStore

/-- The stores differ only in the own writes of `x`, taken by `x` itself or
not.  The transaction index, which lists them, may differ too. -/
structure Alike (x : String) (s₁ s₂ : InMemorySpaceStore) : Prop where
  tuples : s₁.tuples = s₂.tuples
  leaseIndex : s₁.leaseIndex = s₂.leaseIndex
  watches : s₁.watches = s₂.watches
  watchLeaseIndex : s₁.watchLeaseIndex = s₂.watchLeaseIndex
  txnTaken : s₁.txnTaken = s₂.txnTaken
  uncommitted : AgreeOff x s₁.uncommitted s₂.uncommitted
  txnSelfTaken : AgreeOff x s₁.txnSelfTaken s₂.txnSelfTaken

namespace Alike

variable {x : String} {s₁ s₂ s₃ : InMemorySpaceStore}

theorem refl (x : String) (s : InMemorySpaceStore) : Alike x s s :=
  ⟨rfl, rfl, rfl, rfl, rfl, fun _ _ => rfl, fun _ _ => rfl⟩

theorem symm (h : Alike x s₁ s₂) : Alike x s₂ s₁ :=
  ⟨h.tuples.symm, h.leaseIndex.symm, h.watches.symm, h.watchLeaseIndex.symm,
    h.txnTaken.symm, h.uncommitted.symm, h.txnSelfTaken.symm⟩

theorem trans (h : Alike x s₁ s₂) (h' : Alike x s₂ s₃) : Alike x s₁ s₃ :=
  ⟨h.tuples.trans h'.tuples, h.leaseIndex.trans h'.leaseIndex,
    h.watches.trans h'.watches, h.watchLeaseIndex.trans h'.watchLeaseIndex,
    h.txnTaken.trans h'.txnTaken, h.uncommitted.trans h'.uncommitted,
    h.txnSelfTaken.trans h'.txnSelfTaken⟩

theorem ownWrites_eq (h : Alike x s₁ s₂) {txnId : Option String}
    (htxn : txnId ≠ some x) : s₁.ownWrites txnId = s₂.ownWrites txnId := by
  cases txnId with
  | none => rfl
  | some y => exact h.uncommitted.bucket_eq fun heq => htxn (heq ▸ rfl)

/-! ## Expiry -/

/-- The places whose contents are the same in both stores. -/
def Shared (x : String) (p : Place) : Prop :=
  p ≠ .uncommitted x ∧ p ≠ .selfTaken x

theorem mem_holdings (h : Alike x s₁ s₂) {p : Place} (hp : Shared x p)
    {r : TupleRecord} : (p, r) ∈ s₁.holdings ↔ (p, r) ∈ s₂.holdings := by
  cases p with
  | committed => simp [h.tuples]
  | uncommitted y =>
      have hy : y ≠ x := fun heq => hp.1 (heq ▸ rfl)
      simp [h.uncommitted.bucket_eq hy]
  | taken y => simp [h.txnTaken]
  | selfTaken y =>
      have hy : y ≠ x := fun heq => hp.2 (heq ▸ rfl)
      simp [h.txnSelfTaken.bucket_eq hy]

theorem drop (h : Alike x s₁ s₂) (r : TupleRecord) {p : Place}
    (hp : Shared x p) : Alike x (s₁.drop r p) (s₂.drop r p) := by
  obtain ⟨htuples, hindex, hwatches, hwindex, htaken, huncommitted, hself⟩ := h
  cases p with
  | committed =>
      exact ⟨by simp [InMemorySpaceStore.drop, htuples],
        by simp [InMemorySpaceStore.drop, hindex], hwatches, hwindex, htaken,
        huncommitted, hself⟩
  | uncommitted y =>
      refine ⟨htuples, hindex, hwatches, hwindex, htaken, ?_, hself⟩
      have hy : y ≠ x := fun heq => hp.1 (heq ▸ rfl)
      simp only [InMemorySpaceStore.drop, dropFrom, huncommitted.bucket_eq hy]
      exact huncommitted.insert y _
  | taken y =>
      exact ⟨htuples, hindex, hwatches, hwindex,
        by simp [InMemorySpaceStore.drop, htaken], huncommitted, hself⟩
  | selfTaken y =>
      refine ⟨htuples, hindex, hwatches, hwindex, htaken, huncommitted, ?_⟩
      have hy : y ≠ x := fun heq => hp.2 (heq ▸ rfl)
      simp only [InMemorySpaceStore.drop, dropFrom, hself.bucket_eq hy]
      exact hself.insert y _

theorem drop_own (s : InMemorySpaceStore) (r : TupleRecord) {p : Place}
    (hp : ¬ Shared x p) : Alike x (s.drop r p) s := by
  have hcases : p = .uncommitted x ∨ p = .selfTaken x := by
    rw [Shared] at hp
    tauto
  rcases hcases with rfl | rfl
  · exact ⟨rfl, rfl, rfl, rfl, rfl, AgreeOff.insert_self _ _ _, fun _ _ => rfl⟩
  · exact ⟨rfl, rfl, rfl, rfl, rfl, fun _ _ => rfl, AgreeOff.insert_self _ _ _⟩

/-- An expiry that hits no shared place changes nothing an outsider sees. -/
theorem removeByLease_own (hs : Coherent s₁) {l : String}
    (hnone : ∀ p r, Shared x p → (p, r) ∈ s₁.holdings → r.leaseId ≠ l) :
    Alike x (s₁.removeByLease l).2 s₁ := by
  by_cases hheld : ∃ p r, (p, r) ∈ s₁.holdings ∧ r.leaseId = l
  · obtain ⟨p, r, hr, rfl⟩ := hheld
    rw [hs.removeByLease_at hr]
    exact drop_own s₁ r fun hp => hnone p r hp hr rfl
  · push Not at hheld
    rw [hs.removeByLease_absent hheld]
    exact refl x s₁

theorem removeByLease (h : Alike x s₁ s₂) (hs₁ : Coherent s₁)
    (hs₂ : Coherent s₂) (l : String) :
    Alike x (s₁.removeByLease l).2 (s₂.removeByLease l).2 := by
  by_cases hheld : ∃ p r, Shared x p ∧ (p, r) ∈ s₁.holdings ∧ r.leaseId = l
  · obtain ⟨p, r, hp, hr, rfl⟩ := hheld
    rw [hs₁.removeByLease_at hr,
      hs₂.removeByLease_at ((h.mem_holdings hp).mp hr)]
    exact h.drop r hp
  · push Not at hheld
    refine (removeByLease_own hs₁ hheld).trans (h.trans ?_)
    refine (removeByLease_own hs₂ fun p r hp hr => ?_).symm
    exact hheld p r hp ((h.mem_holdings hp).mpr hr)

/-! ## Takes and the ends of transactions -/

theorem claim (h : Alike x s₁ s₂) (r : TupleRecord) (t : String)
    (txnId : Option String) :
    Alike x (s₁.claim r t txnId) (s₂.claim r t txnId) := by
  obtain ⟨htuples, hindex, hwatches, hwindex, htaken, huncommitted, hself⟩ := h
  cases txnId with
  | none =>
      exact ⟨by simp [InMemorySpaceStore.claim, htuples],
        by simp [InMemorySpaceStore.claim, hindex], hwatches, hwindex, htaken,
        huncommitted, hself⟩
  | some y =>
      exact ⟨by simp [InMemorySpaceStore.claim, htuples],
        by simp [InMemorySpaceStore.claim, hindex], hwatches, hwindex,
        by simp [InMemorySpaceStore.claim, htaken], huncommitted, hself⟩

theorem takeCommitted (h : Alike x s₁ s₂) (it : TupleIteration)
    (ops : DashMap String MatchOp) (txnId : Option String) :
    (s₁.takeCommitted it ops txnId).1 = (s₂.takeCommitted it ops txnId).1 ∧
      Alike x (s₁.takeCommitted it ops txnId).2
        (s₂.takeCommitted it ops txnId).2 := by
  simp only [InMemorySpaceStore.takeCommitted, h.tuples]
  split
  · exact ⟨rfl, h⟩
  · split
    · exact ⟨rfl, h.claim _ _ txnId⟩
    · exact ⟨rfl, h⟩

theorem takeMatch (h : Alike x s₁ s₂) (it : TupleIteration)
    (template : Attrs) {txnId : Option String} (htxn : txnId ≠ some x) :
    (s₁.takeMatch it template txnId).1 = (s₂.takeMatch it template txnId).1 ∧
      Alike x (s₁.takeMatch it template txnId).2
        (s₂.takeMatch it template txnId).2 := by
  cases txnId with
  | none => exact h.takeCommitted it _ none
  | some y =>
      have hy : y ≠ x := fun heq => htxn (heq ▸ rfl)
      rcases h.uncommitted.takeFirst hy
          fun r => templateMatches (parseTemplate template) r.attrs with
        ⟨h₁, h₂⟩ | ⟨r, m₁, m₂, h₁, h₂, hagree⟩
      · simp only [InMemorySpaceStore.takeMatch, takeUncommitted, h₁, h₂]
        exact h.takeCommitted it _ (some y)
      · simp only [InMemorySpaceStore.takeMatch, takeUncommitted, h₁, h₂]
        exact ⟨trivial, h.tuples, h.leaseIndex, h.watches, h.watchLeaseIndex,
          h.txnTaken, hagree, h.txnSelfTaken.push y r⟩

theorem closeTxn (h : Alike x s₁ s₂) (y : String)
    (back rows₁ rows₂ : List TupleRecord) :
    Alike x (s₁.closeTxn y back rows₁) (s₂.closeTxn y back rows₂) where
  tuples := by simp [InMemorySpaceStore.closeTxn, h.tuples]
  leaseIndex := by simp [InMemorySpaceStore.closeTxn, h.leaseIndex]
  watches := h.watches
  watchLeaseIndex := h.watchLeaseIndex
  txnTaken := by simp [InMemorySpaceStore.closeTxn, h.txnTaken]
  uncommitted := h.uncommitted.erase y
  txnSelfTaken := h.txnSelfTaken.erase y

/-! ## All operations -/

/-- A call that leaves the writes of `x` open keeps the stores alike, and
outside queries answer the same. -/
theorem exec (h : Alike x s₁ s₂) (hs₁ : Coherent s₁) (hs₂ : Coherent s₂)
    {op : SpaceOp} (hop : op.LeavesOpen x) :
    Alike x (s₁.exec op).2 (s₂.exec op).2 ∧
      (op.OutsideQuery x → (s₁.exec op).1 = (s₂.exec op).1) := by
  cases op with
  | insert r =>
      refine ⟨⟨?_, ?_, h.watches, h.watchLeaseIndex, h.txnTaken,
        h.uncommitted, h.txnSelfTaken⟩, False.elim⟩
      · simp [InMemorySpaceStore.exec, insert, h.tuples]
      · simp [InMemorySpaceStore.exec, insert, h.leaseIndex]
  | insertUncommitted y r =>
      exact ⟨⟨h.tuples, h.leaseIndex, h.watches, h.watchLeaseIndex,
        h.txnTaken, h.uncommitted.push y r, h.txnSelfTaken⟩, False.elim⟩
  | get t =>
      exact ⟨h, fun _ => by simp [InMemorySpaceStore.exec, get, h.tuples]⟩
  | remove t =>
      refine ⟨?_, False.elim⟩
      cases hget : s₂.tuples[t]? with
      | none => simpa [InMemorySpaceStore.exec, remove, h.tuples, hget] using h
      | some r =>
          have hremoved := h.claim r t none
          simpa [InMemorySpaceStore.exec, remove, h.tuples, hget,
            InMemorySpaceStore.claim] using hremoved
  | removeByLease l => exact ⟨h.removeByLease hs₁ hs₂ l, False.elim⟩
  | findMatch it template txnId =>
      refine ⟨h, fun htxn => ?_⟩
      simp [InMemorySpaceStore.exec, findMatch, h.tuples, h.ownWrites_eq htxn]
  | takeMatch it template txnId =>
      obtain ⟨hres, hstore⟩ := h.takeMatch it template hop
      exact ⟨hstore, fun _ => by simp [InMemorySpaceStore.exec, hres]⟩
  | findAllMatches it template txnId =>
      refine ⟨h, fun htxn => ?_⟩
      simp [InMemorySpaceStore.exec, findAllMatches, h.tuples,
        h.ownWrites_eq htxn]
  | commitTxn y =>
      refine ⟨?_, False.elim⟩
      simp only [InMemorySpaceStore.exec, commitTxn_eq,
        h.uncommitted.bucket_eq hop]
      exact h.closeTxn y _ _ _
  | abortTxn y =>
      refine ⟨?_, False.elim⟩
      simp only [InMemorySpaceStore.exec, abortTxn_eq, h.txnTaken]
      exact h.closeTxn y _ _ _
  | hasTxn y => exact ⟨h, False.elim⟩
  | listAll it =>
      exact ⟨h, fun _ => by simp [InMemorySpaceStore.exec, listAll, h.tuples]⟩
  | createWatch w =>
      refine ⟨⟨h.tuples, h.leaseIndex, ?_, ?_, h.txnTaken, h.uncommitted,
        h.txnSelfTaken⟩, False.elim⟩
      · simp [InMemorySpaceStore.exec, createWatch, h.watches]
      · simp [InMemorySpaceStore.exec, createWatch, h.watchLeaseIndex]
  | removeWatch w =>
      refine ⟨?_, False.elim⟩
      simp only [InMemorySpaceStore.exec, removeWatch, h.watches,
        h.watchLeaseIndex]
      split
      · exact ⟨h.tuples, h.leaseIndex, rfl, rfl, h.txnTaken, h.uncommitted,
          h.txnSelfTaken⟩
      · exact h
  | removeWatchByLease l =>
      refine ⟨?_, False.elim⟩
      simp only [InMemorySpaceStore.exec, removeWatchByLease, h.watches,
        h.watchLeaseIndex]
      split
      · exact h
      · split <;> exact ⟨h.tuples, h.leaseIndex, rfl, rfl, h.txnTaken,
          h.uncommitted, h.txnSelfTaken⟩
  | listWatches it => exact ⟨h, False.elim⟩

end Alike

end InMemorySpaceStore

/-- The same call in two runs, with the same answer to an outside query. -/
def AnsweredAlike (x : String) (e₁ e₂ : SpaceOp × SpaceResult) : Prop :=
  e₁.1 = e₂.1 ∧ (e₁.1.OutsideQuery x → e₁.2 = e₂.2)

theorem storeStep_eq_some {s : InMemorySpaceStore} {h : History}
    {op : SpaceOp} {c : InMemorySpaceStore × History}
    (hstep : storeStep (s, h) op = some c) :
    c = ((s.exec op).2, h ++ [(op, (s.exec op).1)]) := by
  rw [storeStep] at hstep
  split at hstep
  · exact (Option.some.inj hstep).symm
  · cases hstep

theorem run_storeStep_history {s s' : InMemorySpaceStore} {h h' : History}
    {ops : List SpaceOp} (hrun : run storeStep (s, h) ops = some (s', h')) :
    ∃ g, h' = h ++ g ∧ g.map Prod.fst = ops := by
  refine run_invariant
    (P := fun ops (c : InMemorySpaceStore × History) =>
      ∃ g, c.2 = h ++ g ∧ g.map Prod.fst = ops) ⟨[], by simp⟩ ?_ hrun
  rintro ops ⟨s, -⟩ op c - ⟨g, rfl, rfl⟩ hstep
  rw [storeStep_eq_some hstep]
  exact ⟨g ++ [(op, (s.exec op).1)], by simp⟩

/-- Take two reachable stores that differ only in the open writes of `x`, and
run the same calls from both: any calls but a commit of `x` and takes under
`x`.  Every outside query is answered the same in both runs, and the stores
again differ only in the open writes of `x`. -/
theorem outsiders_undisturbed {x : String} {s₁ s₂ s₁' s₂' : InMemorySpaceStore}
    {h₁ h₂ h₁' h₂' : History} (hreach₁ : StoreRun h₁ s₁)
    (hreach₂ : StoreRun h₂ s₂) (halike : s₁.Alike x s₂) {ops : List SpaceOp}
    (hops : ∀ op ∈ ops, op.LeavesOpen x)
    (hrun₁ : run storeStep (s₁, h₁) ops = some (s₁', h₁'))
    (hrun₂ : run storeStep (s₂, h₂) ops = some (s₂', h₂')) :
    s₁'.Alike x s₂' ∧ ∃ g₁ g₂, h₁' = h₁ ++ g₁ ∧ h₂' = h₂ ++ g₂ ∧
      g₁.map Prod.fst = ops ∧ List.Forall₂ (AnsweredAlike x) g₁ g₂ := by
  let Related (c₁ c₂ : InMemorySpaceStore × History) : Prop :=
    StoreRun c₁.2 c₁.1 ∧ StoreRun c₂.2 c₂.1 ∧ c₁.1.Alike x c₂.1 ∧
      ∃ g₁ g₂, c₁.2 = h₁ ++ g₁ ∧ c₂.2 = h₂ ++ g₂ ∧
        List.Forall₂ (AnsweredAlike x) g₁ g₂
  have hrelated : Related (s₁', h₁') (s₂', h₂') := by
    refine run_related ?_ hops ?_ hrun₁ hrun₂
    · rintro ⟨s₁, -⟩ ⟨s₂, -⟩ op c₁ c₂ hop
        ⟨hr₁, hr₂, hs, g₁, g₂, rfl, rfl, hg⟩ hstep₁ hstep₂
      refine ⟨hr₁.tail hstep₁, hr₂.tail hstep₂, ?_⟩
      rw [storeStep_eq_some hstep₁, storeStep_eq_some hstep₂]
      obtain ⟨hs', hanswer⟩ := hs.exec hr₁.coherent hr₂.coherent hop
      refine ⟨hs', g₁ ++ [(op, (s₁.exec op).1)], g₂ ++ [(op, (s₂.exec op).1)],
        by simp, by simp, ?_⟩
      exact List.rel_append hg (List.Forall₂.cons ⟨rfl, hanswer⟩ .nil)
    · exact ⟨hreach₁, hreach₂, halike, [], [], by simp, by simp, .nil⟩
  obtain ⟨-, -, hs, g₁, g₂, hg₁, hg₂, hg⟩ := hrelated
  obtain ⟨g, hg', hcalls⟩ := run_storeStep_history hrun₁
  obtain rfl : g₁ = g := List.append_cancel_left (hg₁.symm.trans hg')
  exact ⟨hs, g₁, g₂, hg₁, hg₂, hcalls, hg⟩

def quiet : InMemorySpaceStore × History :=
  (run storeStep (.new, []) [.insert (order "1")]).get (by decide)

def busy : InMemorySpaceStore × History :=
  (run storeStep quiet [.insertUncommitted "t" (order "2")]).get (by decide)

/-- A client takes a tuple, the open write expires, its transaction aborts. -/
def visit : List SpaceOp :=
  [.takeMatch Iteration.sorted ∅ none, .removeByLease "lease-2",
    .abortTxn "t", .listAll Iteration.sorted]

theorem quiet_busy_alike : busy.1.Alike "t" quiet.1 :=
  ⟨rfl, rfl, rfl, rfl, rfl, AgreeOff.insert_self _ _ _, fun _ _ => rfl⟩

theorem outsiders_undisturbed_shop :
    busy.1.Alike "t" quiet.1 ∧ (∀ op ∈ visit, op.LeavesOpen "t") ∧
      ((run storeStep busy visit).get (by decide)).1.Alike "t"
        ((run storeStep quiet visit).get (by decide)).1 := by
  have hvisit : ∀ op ∈ visit, op.LeavesOpen "t" := by
    simp [visit, SpaceOp.LeavesOpen]
  have hquiet : StoreRun quiet.2 quiet.1 := ⟨[.insert (order "1")], rfl⟩
  have hbusy : StoreRun busy.2 busy.1 :=
    ⟨[.insert (order "1"), .insertUncommitted "t" (order "2")], rfl⟩
  exact ⟨quiet_busy_alike, hvisit, (outsiders_undisturbed hbusy hquiet
    quiet_busy_alike hvisit rfl rfl).1⟩

end Coordin8
