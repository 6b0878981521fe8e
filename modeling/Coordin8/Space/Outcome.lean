import Coordin8.Space.Runs

/-!
# How a transaction ends in the Space

What a transaction has pending is a function of the calls made since it last
ended: its buffers hold the tuples it wrote and the tuples it took, except
those whose lease expired meanwhile.  From this a commit publishes exactly the
writes the transaction did not take itself, an abort puts back exactly what it
took from the visible tuples, and neither touches another transaction.
-/

namespace Coordin8

open Support Support.DashMap

/-! ## The calls since a transaction last ended -/

/-- The call ends the transaction `x`. -/
def SpaceOp.finishes (x : String) : SpaceOp → Bool
  | .commitTxn y | .abortTxn y => y == x
  | _ => false

/-- The calls made since the last commit or abort of `x`; all calls, when there
was none. -/
def episode (x : String) (h : History) : History :=
  h.foldl (fun g e => if e.1.finishes x then [] else g ++ [e]) []

theorem episode_snoc (x : String) (h : History) (e : SpaceOp × SpaceResult) :
    episode x (h ++ [e]) =
      if e.1.finishes x then [] else episode x h ++ [e] := by
  simp [episode]

theorem episode_spec (x : String) (h : History) :
    (∃ h₀, h = h₀ ++ episode x h) ∧
      ∀ e ∈ episode x h, e.1.finishes x = false := by
  induction h using List.reverseRecOn with
  | nil => exact ⟨⟨[], rfl⟩, by simp [episode]⟩
  | append_singleton h e ih =>
      obtain ⟨⟨h₀, hh⟩, hnot⟩ := ih
      rw [episode_snoc]
      split
      · exact ⟨⟨h ++ [e], by simp⟩, by simp⟩
      · next hfin =>
        refine ⟨⟨h₀, by rw [← List.append_assoc, ← hh]⟩, ?_⟩
        intro e' he'
        rcases List.mem_append.mp he' with he' | he'
        · exact hnot e' he'
        · rw [List.mem_singleton.mp he']
          simpa using hfin

variable {x : String} {h : History} {P : SpaceOp × SpaceResult → Prop}
  {r : TupleRecord} {H : Holdings} {p : Place}

theorem episode_eq_self
    (hnot : ∀ e ∈ h, e.1.finishes x = false) : episode x h = h := by
  induction h using List.reverseRecOn with
  | nil => rfl
  | append_singleton h e ih =>
      have hlast := hnot e (by simp)
      rw [episode_snoc, hlast,
        ih fun e' he' => hnot e' (List.mem_append_left _ he')]
      rfl

/-- The call `e` writes `r` under the transaction `x`. -/
def WroteUnder (x : String) (r : TupleRecord)
    (e : SpaceOp × SpaceResult) : Prop :=
  e.1 = .insertUncommitted x r

/-- A call of `g` meets `P`, and the lease of `r` did not expire after it. -/
def AliveSince (P : SpaceOp × SpaceResult → Prop) (r : TupleRecord)
    (g : History) : Prop :=
  ∃ g₁ e g₂, g = g₁ ++ e :: g₂ ∧ P e ∧
    ∀ e' ∈ g₂, e'.1 ≠ .removeByLease r.leaseId

theorem not_aliveSince_nil (P : SpaceOp × SpaceResult → Prop)
    (r : TupleRecord) : ¬ AliveSince P r [] := by
  rintro ⟨g₁, e, g₂, heq, -⟩
  simp at heq

theorem AliveSince.exists_mem {g : History} (halive : AliveSince P r g) :
    ∃ e ∈ g, P e := by
  obtain ⟨g₁, e, g₂, rfl, hP, -⟩ := halive
  exact ⟨e, by simp, hP⟩

theorem aliveSince_snoc
    {g : History} {e : SpaceOp × SpaceResult} :
    AliveSince P r (g ++ [e]) ↔
      P e ∨ (AliveSince P r g ∧ e.1 ≠ .removeByLease r.leaseId) := by
  constructor
  · rintro ⟨g₁, e₀, g₂, heq, hP, hno⟩
    induction g₂ using List.reverseRecOn with
    | nil =>
        obtain ⟨-, rfl⟩ := List.append_singleton_inj.mp heq
        exact Or.inl hP
    | append_singleton g₂ e' =>
        rw [← List.cons_append, ← List.append_assoc] at heq
        obtain ⟨rfl, rfl⟩ := List.append_singleton_inj.mp heq
        exact Or.inr ⟨⟨g₁, e₀, g₂, rfl, hP,
          fun a ha => hno a (List.mem_append_left _ ha)⟩,
          hno e (by simp)⟩
  · rintro (hP | ⟨⟨g₁, e₀, g₂, rfl, hP, hno⟩, hlast⟩)
    · exact ⟨g, e, [], rfl, hP, by simp⟩
    · refine ⟨g₁, e₀, g₂ ++ [e], by simp, hP, ?_⟩
      intro a ha
      rcases List.mem_append.mp ha with ha | ha
      · exact hno a ha
      · rw [List.mem_singleton.mp ha]
        exact hlast

/-! ## What a transaction has pending -/

theorem LedgerStep.finished {H' : Holdings} {op : SpaceOp}
    {res : SpaceResult} (hstep : LedgerStep H op res H')
    (hfin : op.finishes x = true)
    (hr : (p, r) ∈ H') : p.txn ≠ some x := by
  cases hstep with
  | commit H y writes taken own hothers | abort H y writes taken own hothers =>
      obtain rfl : y = x := by simpa [SpaceOp.finishes] using hfin
      rcases Multiset.mem_add.mp hr with hr | hr
      · obtain ⟨rfl, -⟩ := mem_placed.mp hr
        simp [Place.txn]
      · exact hothers p r hr
  | stationary _ op _ hop =>
      cases op <;> first | exact False.elim hop | cases hfin
  | _ => cases hfin

/-- The record whose lease expires is nowhere afterwards. -/
theorem LedgerRun.expired_gone
    {e : SpaceOp × SpaceResult}
    (hrun : LedgerRun (h ++ [e]) H) (he : e.1 = .removeByLease r.leaseId)
    (p : Place) : (p, r) ∉ H := by
  obtain ⟨op, res⟩ := e
  subst he
  intro hr
  obtain ⟨H₀, hrun₀, -, hstep⟩ := hrun.of_snoc
  rcases hstep.expire_cases with ⟨q, r', hlease, hres, rfl⟩ | ⟨-, rfl, hno⟩
  · obtain ⟨-, rfl⟩ := hrun₀.lease_inj (Multiset.mem_cons_of_mem hr)
      (Multiset.mem_cons_self _ _) hlease.symm
    dsimp only at hres
    subst hres
    exact absurd rfl (hrun.ne_departed hr (by simp [departed, leaving]))
  · exact hno p r hr rfl

/-- `K` are the places where `x` keeps `r` after a call that meets `P`, until
`x` ends or the lease of `r` expires. -/
structure Tracks (x : String) (r : TupleRecord) (K : Place → Prop)
    (P : SpaceOp × SpaceResult → Prop) : Prop where
  owned : ∀ p, K p → p.txn = some x
  put : ∀ {H op res H'}, LedgerStep H op res H' → P (op, res) →
    ∃ p, K p ∧ (p, r) ∈ H'
  enter : ∀ {H op res H' q}, LedgerStep H op res H' → K q → (q, r) ∈ H' →
    P (op, res) ∨ ∃ p, K p ∧ (p, r) ∈ H
  stay : ∀ {H op res H' p}, LedgerStep H op res H' →
    op.finishes x = false → op ≠ .removeByLease r.leaseId →
    K p → (p, r) ∈ H → ∃ q, K q ∧ (q, r) ∈ H'

theorem Tracks.held_iff {K : Place → Prop} (htracks : Tracks x r K P) (hrun : LedgerRun h H) :
    (∃ p, K p ∧ (p, r) ∈ H) ↔ AliveSince P r (episode x h) := by
  induction hrun with
  | new => simpa [episode] using not_aliveSince_nil P r
  | @step h H H' op res hrun hfresh hstep ih =>
      rw [episode_snoc]
      cases hfin : op.finishes x with
      | true =>
          simp only [if_true]
          refine iff_of_false ?_ (not_aliveSince_nil P r)
          rintro ⟨p, hp, hr⟩
          exact hstep.finished hfin hr (htracks.owned p hp)
      | false =>
          simp only [Bool.false_eq_true, if_false]
          rw [aliveSince_snoc, ← ih]
          constructor
          · rintro ⟨q, hq, hr⟩
            rcases htracks.enter hstep hq hr with hP | hbefore
            · exact Or.inl hP
            · refine Or.inr ⟨hbefore, fun hop => ?_⟩
              exact (hrun.step hfresh hstep).expired_gone hop q hr
          · rintro (hP | ⟨⟨p, hp, hr⟩, hop⟩)
            · exact htracks.put hstep hP
            · exact htracks.stay hstep hfin hop hp hr

/-- The buffers that hold what `x` wrote. -/
def Place.Writes (x : String) (p : Place) : Prop :=
  p = .uncommitted x ∨ p = .selfTaken x

/-- The buffers that hold what `x` took. -/
def Place.Takes (x : String) (p : Place) : Prop :=
  p = .taken x ∨ p = .selfTaken x

theorem finishes_commitTxn_self (x : String) :
    (SpaceOp.commitTxn x).finishes x = true := by
  simp [SpaceOp.finishes]

theorem finishes_abortTxn_self (x : String) :
    (SpaceOp.abortTxn x).finishes x = true := by
  simp [SpaceOp.finishes]

/-- A buffered record of `x` leaves only when its lease expires or `x` ends. -/
theorem Leave.of_txn {op : SpaceOp}
    (hleave : Leave op p r) (hp : p.txn = some x) :
    op = .removeByLease r.leaseId ∨ op.finishes x = true := by
  cases hleave with
  | remove | take => cases hp
  | expire => exact Or.inl rfl
  | commitTaken | commitOwn =>
      obtain rfl := Option.some.inj hp
      exact Or.inr (finishes_commitTxn_self _)
  | abortWrite | abortOwn =>
      obtain rfl := Option.some.inj hp
      exact Or.inr (finishes_abortTxn_self _)

theorem tracks_writes (x : String) (r : TupleRecord) :
    Tracks x r (Place.Writes x) (WroteUnder x r) where
  owned := by
    rintro p (rfl | rfl) <;> rfl
  put := by
    rintro H op res H' hstep rfl
    refine ⟨.uncommitted x, Or.inl rfl, ?_⟩
    cases hstep with
    | insertUncommitted => exact Multiset.mem_cons_self _ _
    | stationary _ _ _ hop => exact False.elim hop
  enter := by
    intro H op res H' q hstep hq hr
    rcases hstep.mem_after hr with
      hsame | ⟨-, rfl⟩ | ⟨y, hop, rfl⟩ | ⟨p, hfrom, hmove⟩
    · exact Or.inr ⟨q, hq, hsame⟩
    · simp [Place.Writes] at hq
    · obtain rfl : y = x := by simpa [Place.Writes] using hq
      exact Or.inl hop
    · cases hmove with
      | takeOwn it template y _ =>
          obtain rfl : y = x := by simpa [Place.Writes] using hq
          exact Or.inr ⟨.uncommitted y, Or.inl rfl, hfrom⟩
      | takeTxn | publish | restore => simp [Place.Writes] at hq
  stay := by
    intro H op res H' p hstep hfin hop hp hr
    rcases hstep.mem_before hr with hr | ⟨q, hr, hmove⟩ | hleave
    · exact ⟨p, hp, hr⟩
    · cases hmove with
      | takeOwn it template y _ =>
          obtain rfl : y = x := by simpa [Place.Writes] using hp
          exact ⟨.selfTaken y, Or.inr rfl, hr⟩
      | publish y _ _ _ _ =>
          obtain rfl : y = x := by simpa [Place.Writes] using hp
          simp [finishes_commitTxn_self] at hfin
      | takeTxn | restore => simp [Place.Writes] at hp
    · have hown : p.txn = some x := by
        rcases hp with rfl | rfl <;> rfl
      rcases hleave.of_txn hown with heq | hend
      · exact absurd heq hop
      · simp [hend] at hfin

theorem tracks_takes (x : String) (r : TupleRecord) :
    Tracks x r (Place.Takes x) (TookUnder (some x) r) where
  owned := by
    rintro p (rfl | rfl) <;> rfl
  put := by
    rintro H op res H' hstep ⟨it, template, heq⟩
    obtain ⟨rfl, rfl⟩ := Prod.mk.inj heq
    rcases hstep.taken_to with hnone | ⟨y, hy, hr⟩
    · cases hnone
    · obtain rfl := Option.some.inj hy
      rcases hr with hr | hr
      · exact ⟨.taken x, Or.inl rfl, hr⟩
      · exact ⟨.selfTaken x, Or.inr rfl, hr⟩
  enter := by
    intro H op res H' q hstep hq hr
    rcases hstep.mem_after hr with
      hr | ⟨-, rfl⟩ | ⟨y, -, rfl⟩ | ⟨p, hr, hmove⟩
    · exact Or.inr ⟨q, hq, hr⟩
    · simp [Place.Takes] at hq
    · simp [Place.Takes] at hq
    · cases hmove with
      | takeOwn it template y _ | takeTxn it template y _ =>
          obtain rfl : y = x := by simpa [Place.Takes] using hq
          exact Or.inl ⟨it, template, rfl⟩
      | publish | restore => simp [Place.Takes] at hq
  stay := by
    intro H op res H' p hstep hfin hop hp hr
    rcases hstep.mem_before hr with hr | ⟨q, hr, hmove⟩ | hleave
    · exact ⟨p, hp, hr⟩
    · cases hmove with
      | restore y _ _ _ _ =>
          obtain rfl : y = x := by simpa [Place.Takes] using hp
          simp [finishes_abortTxn_self] at hfin
      | takeOwn | takeTxn | publish => simp [Place.Takes] at hp
    · have hown : p.txn = some x := by
        rcases hp with rfl | rfl <;> rfl
      rcases hleave.of_txn hown with heq | hend
      · exact absurd heq hop
      · simp [hend] at hfin

namespace LedgerRun

variable {h : History} {H : Holdings} {x : String} {r : TupleRecord}

/-- What `x` wrote since it last ended is in its own buffers, if anywhere. -/
theorem place_of_wrote (hrun : LedgerRun h H)
    (hwrote : ∃ e ∈ episode x h, WroteUnder x r e)
    (hr : (p, r) ∈ H) : p.Writes x := by
  induction hrun generalizing p with
  | new => simp at hr
  | @step h H H' op res hrun hfresh hstep ih =>
      rw [episode_snoc] at hwrote
      cases hfin : op.finishes x with
      | true => simp [hfin] at hwrote
      | false =>
          simp only [hfin, Bool.false_eq_true, if_false, List.mem_append,
            List.mem_singleton] at hwrote
          obtain ⟨e, he | rfl, hw⟩ := hwrote
          · have hmem : r ∈ inserted h := by
              obtain ⟨⟨h₀, hh⟩, -⟩ := episode_spec x h
              rw [hh]
              refine List.mem_filterMap.mpr ⟨e, List.mem_append_right _ he, ?_⟩
              rw [hw]
              rfl
            rcases hstep.mem_after hr with
              hr | ⟨rfl, -⟩ | ⟨y, rfl, -⟩ | ⟨q, hr, hmove⟩
            · exact ih ⟨e, he, hw⟩ hr
            · exact absurd rfl (fresh_iff.mp hfresh r rfl r hmem).1
            · exact absurd rfl (fresh_iff.mp hfresh r rfl r hmem).1
            · have hq := ih ⟨e, he, hw⟩ hr
              cases hmove with
              | takeOwn it template y _ =>
                  obtain rfl : y = x := by simpa [Place.Writes] using hq
                  exact Or.inr rfl
              | publish y _ _ _ _ =>
                  obtain rfl : y = x := by simpa [Place.Writes] using hq
                  simp [finishes_commitTxn_self] at hfin
              | takeTxn | restore => simp [Place.Writes] at hq
          · obtain ⟨q, hq, hr'⟩ := (tracks_writes x r).put hstep hw
            obtain ⟨rfl, -⟩ :=
              (hrun.step hfresh hstep).id_inj hr hr' rfl
            exact hq

/-- What `x` took since it last ended is in its own buffers, if anywhere. -/
theorem place_of_took (hrun : LedgerRun h H)
    (htook : ∃ e ∈ episode x h, TookUnder (some x) r e)
    (hr : (p, r) ∈ H) : p.Takes x := by
  obtain ⟨e, he, htook⟩ := htook
  obtain ⟨⟨h₀, hh⟩, hnot⟩ := episode_spec x h
  obtain ⟨g₁, g₂, hg⟩ := List.append_of_mem he
  rw [hh, hg, ← List.append_assoc] at hrun
  rcases hrun.restored_or_heldBack htook with
    ⟨a, ha, y, _, _, hy, -, rfl⟩ | hheld
  · obtain rfl := Option.some.inj hy
    have hend := hnot _
      (hg ▸ List.mem_append_right g₁ (List.mem_cons_of_mem e ha))
    simp [finishes_abortTxn_self] at hend
  · obtain ⟨y, hy, hp⟩ := hheld p r hr rfl
    obtain rfl := Option.some.inj hy
    exact hp

theorem mem_uncommitted_iff (hrun : LedgerRun h H) :
    (.uncommitted x, r) ∈ H ↔
      AliveSince (WroteUnder x r) r (episode x h) ∧
        ¬ ∃ e ∈ episode x h, TookUnder (some x) r e := by
  rw [← (tracks_writes x r).held_iff hrun]
  constructor
  · intro hr
    refine ⟨⟨_, Or.inl rfl, hr⟩, fun htook => ?_⟩
    simpa [Place.Takes] using hrun.place_of_took htook hr
  · rintro ⟨⟨p, rfl | rfl, hr⟩, hnot⟩
    · exact hr
    · exact absurd (((tracks_takes x r).held_iff hrun).mp
        ⟨_, Or.inr rfl, hr⟩).exists_mem hnot

theorem mem_taken_iff (hrun : LedgerRun h H) :
    (.taken x, r) ∈ H ↔
      AliveSince (TookUnder (some x) r) r (episode x h) ∧
        ¬ ∃ e ∈ episode x h, WroteUnder x r e := by
  rw [← (tracks_takes x r).held_iff hrun]
  constructor
  · intro hr
    refine ⟨⟨_, Or.inl rfl, hr⟩, fun hwrote => ?_⟩
    simpa [Place.Writes] using hrun.place_of_wrote hwrote hr
  · rintro ⟨⟨p, rfl | rfl, hr⟩, hnot⟩
    · exact hr
    · exact absurd (((tracks_writes x r).held_iff hrun).mp
        ⟨_, Or.inr rfl, hr⟩).exists_mem hnot

end LedgerRun

/-! ## Commit and abort -/

namespace InMemorySpaceStore

/-- `s'` is `s` after the transaction `x` ended and made the records `back`
visible.  Nothing else changed. -/
structure Ended (s : InMemorySpaceStore) (x : String)
    (back : List TupleRecord) (s' : InMemorySpaceStore) : Prop where
  tuples : ∀ (t : String) (r : TupleRecord), s'.tuples[t]? = some r ↔
    s.tuples[t]? = some r ∨ (r ∈ back ∧ r.tupleId = t)
  leaseIndex : ∀ l t : String, s'.leaseIndex[l]? = some t ↔
    s.leaseIndex[l]? = some t ∨ ∃ r ∈ back, r.leaseId = l ∧ r.tupleId = t
  buffer : ∀ p y, p.txn = some y →
    s'.buffer p = if y = x then [] else s.buffer p
  txnLeaseIndex : ∀ l y t : String, s'.txnLeaseIndex[l]? = some (y, t) ↔
    y ≠ x ∧ s.txnLeaseIndex[l]? = some (y, t)
  watches : s'.watches = s.watches
  watchLeaseIndex : s'.watchLeaseIndex = s.watchLeaseIndex

namespace Coherent

variable {s : InMemorySpaceStore} (hs : Coherent s) {x : String}
  {back gone rows : List TupleRecord}
  (hrows : (rows : Multiset TupleRecord) = bucket s.uncommitted x +
    bucket s.txnTaken x + bucket s.txnSelfTaken x)
  (hback : (rows : Multiset TupleRecord) = back + gone)

include hs hrows hback

theorem ended_close : s.Ended x back (s.closeTxn x back rows) where
  tuples := by
    intro t r
    rw [(hs.lists_close hrows hback).1 t r, hs.values_close hrows hback,
      hs.tuples t r]
    simp only [Multiset.mem_add, Multiset.mem_coe, id]
    constructor
    · rintro ⟨a, ha | ha, hkey, rfl⟩
      · exact Or.inr ⟨ha, hkey⟩
      · exact Or.inl ⟨a, ha, hkey, rfl⟩
    · rintro (⟨a, ha, hkey, rfl⟩ | ⟨hr, hkey⟩)
      · exact ⟨a, Or.inr ha, hkey, rfl⟩
      · exact ⟨r, Or.inl hr, hkey, rfl⟩
  leaseIndex := by
    intro l t
    rw [(hs.lists_close hrows hback).2.1 l t, hs.values_close hrows hback,
      hs.leaseIndex l t]
    simp only [Multiset.mem_add, Multiset.mem_coe]
    constructor
    · rintro ⟨a, ha | ha, hrow⟩
      · exact Or.inr ⟨a, ha, hrow⟩
      · exact Or.inl ⟨a, ha, hrow⟩
    · rintro (⟨a, ha, hrow⟩ | ⟨a, ha, hrow⟩)
      · exact ⟨a, Or.inr ha, hrow⟩
      · exact ⟨a, Or.inl ha, hrow⟩
  buffer := by
    intro p y hp
    cases p with
    | committed => cases hp
    | uncommitted z | taken z | selfTaken z =>
        obtain rfl := Option.some.inj hp
        simp [InMemorySpaceStore.buffer, closeTxn, bucket_erase, eq_comm]
  txnLeaseIndex := by
    intro l y t
    have hold := hs.txnLeaseIndex l (y, t)
    rw [buffered_close hrows back] at hold
    rw [(hs.lists_close hrows hback).2.2 l (y, t), hold]
    constructor
    · rintro ⟨⟨z, r⟩, he, hkey, hval⟩
      obtain ⟨rfl, rfl⟩ := Prod.mk.inj hval
      refine ⟨?_, (z, r), Multiset.mem_add.mpr (Or.inr he), hkey, rfl⟩
      rintro rfl
      simp [mem_buffered, closeTxn, bucket_erase] at he
    · rintro ⟨hne, ⟨z, r⟩, he, hkey, hval⟩
      obtain ⟨rfl, rfl⟩ := Prod.mk.inj hval
      refine ⟨(z, r), ?_, hkey, rfl⟩
      rcases Multiset.mem_add.mp he with he | he
      · simp [hne.symm] at he
      · exact he
  watches := rfl
  watchLeaseIndex := rfl

theorem nodup_close : back.Nodup ∧ gone.Nodup := by
  have hswap : (rows : Multiset TupleRecord) = gone + back := by
    rw [hback, add_comm]
  exact ⟨(back_distinct hrows hback hs.ids).1.of_map _,
    (back_distinct hrows hswap hs.ids).1.of_map _⟩

end Coherent

end InMemorySpaceStore

namespace StoreRun

open InMemorySpaceStore

variable {h : History} {s : InMemorySpaceStore} {x : String} {r : TupleRecord}

theorem mem_uncommitted_or_selfTaken (hrun : StoreRun h s) :
    r ∈ bucket s.uncommitted x ++ bucket s.txnSelfTaken x ↔
      AliveSince (WroteUnder x r) r (episode x h) := by
  rw [← (tracks_writes x r).held_iff hrun.ledgerRun, List.mem_append]
  simp [Place.Writes, or_and_right, exists_or]

theorem mem_taken_or_selfTaken (hrun : StoreRun h s) :
    r ∈ bucket s.txnTaken x ++ bucket s.txnSelfTaken x ↔
      AliveSince (TookUnder (some x) r) r (episode x h) := by
  rw [← (tracks_takes x r).held_iff hrun.ledgerRun, List.mem_append]
  simp [Place.Takes, or_and_right, exists_or]

theorem mem_uncommitted (hrun : StoreRun h s) :
    r ∈ bucket s.uncommitted x ↔
      AliveSince (WroteUnder x r) r (episode x h) ∧
        ¬ ∃ e ∈ episode x h, TookUnder (some x) r e := by
  rw [← mem_holdings_uncommitted]
  exact hrun.ledgerRun.mem_uncommitted_iff

theorem mem_taken (hrun : StoreRun h s) :
    r ∈ bucket s.txnTaken x ↔
      AliveSince (TookUnder (some x) r) r (episode x h) ∧
        ¬ ∃ e ∈ episode x h, WroteUnder x r e := by
  rw [← mem_holdings_taken]
  exact hrun.ledgerRun.mem_taken_iff

/-- After the transaction ended, a record is held only if it is one of those
put back, or was outside the transaction. -/
theorem notMem_records_close (hrun : StoreRun h s)
    {back gone rows : List TupleRecord}
    (hrows : (rows : Multiset TupleRecord) = bucket s.uncommitted x +
      bucket s.txnTaken x + bucket s.txnSelfTaken x)
    (hback : (rows : Multiset TupleRecord) = back + gone)
    (hr : r ∉ back) (howned : ∀ p, (p, r) ∈ s.holdings → p.txn = some x) :
    r ∉ (s.closeTxn x back rows).records := by
  rw [← map_snd_holdings_eq_records, hrun.coherent.holdings_close hrows hback,
    Multiset.map_add, map_snd_placed, Multiset.mem_add, not_or]
  refine ⟨by simpa using hr, ?_⟩
  rw [Multiset.mem_map]
  rintro ⟨⟨p, r'⟩, hmem, rfl⟩
  refine s.outside_txn x p r' hmem (howned p ?_)
  rw [s.holdings_outside x]
  exact Multiset.mem_add.mpr (Or.inr hmem)

end StoreRun

/-- How a transaction ends, after any run.  An abort returns the writes whose
lease is still alive, own takes included, and the tuples taken from the visible
ones; the latter are visible and indexed again, and no write of the transaction
is anywhere in the store.  A commit makes visible exactly the writes that are
still alive and were not taken by the transaction itself, and returns them with
all tuples taken; none of those is anywhere in the store.  Nothing else
changes. -/
theorem txn_all_or_nothing {h : History} {s : InMemorySpaceStore}
    (hrun : StoreRun h s) (x : String) :
    (∀ discarded restored s',
      s.abortTxn x = ((discarded, restored), s') →
        s.Ended x restored s' ∧ discarded.Nodup ∧ restored.Nodup ∧
        (∀ r, r ∈ discarded ↔ AliveSince (WroteUnder x r) r (episode x h)) ∧
        (∀ r, r ∈ restored ↔
          AliveSince (TookUnder (some x) r) r (episode x h) ∧
            ¬ ∃ e ∈ episode x h, WroteUnder x r e) ∧
        ∀ r, (∃ e ∈ episode x h, WroteUnder x r e) → r ∉ s'.records) ∧
    ∀ published taken s',
      s.commitTxn x = ((published, taken), s') →
        s.Ended x published s' ∧ published.Nodup ∧ taken.Nodup ∧
        (∀ r, r ∈ published ↔
          AliveSince (WroteUnder x r) r (episode x h) ∧
            ¬ ∃ e ∈ episode x h, TookUnder (some x) r e) ∧
        (∀ r, r ∈ taken ↔ AliveSince (TookUnder (some x) r) r (episode x h)) ∧
        ∀ r, (∃ e ∈ episode x h, TookUnder (some x) r e) → r ∉ s'.records := by
  have hs := hrun.coherent
  constructor
  · intro discarded restored s' heq
    rw [InMemorySpaceStore.abortTxn_eq] at heq
    simp only [Prod.mk.injEq] at heq
    obtain ⟨⟨rfl, rfl⟩, rfl⟩ := heq
    obtain ⟨hrows, hback⟩ := InMemorySpaceStore.abort_rows s x
    obtain ⟨hrestored, hdiscarded⟩ := hs.nodup_close hrows hback
    refine ⟨hs.ended_close hrows hback, hdiscarded, hrestored,
      fun r => hrun.mem_uncommitted_or_selfTaken, fun r => hrun.mem_taken, ?_⟩
    intro r hwrote
    refine hrun.notMem_records_close hrows hback ?_ fun p hp => ?_
    · exact fun hr => (hrun.mem_taken.mp hr).2 hwrote
    · exact (tracks_writes x r).owned p
        (hrun.ledgerRun.place_of_wrote hwrote hp)
  · intro published taken s' heq
    rw [InMemorySpaceStore.commitTxn_eq] at heq
    simp only [Prod.mk.injEq] at heq
    obtain ⟨⟨rfl, rfl⟩, rfl⟩ := heq
    obtain ⟨hrows, hback⟩ := InMemorySpaceStore.commit_rows s x
    obtain ⟨hpublished, htaken⟩ := hs.nodup_close hrows hback
    refine ⟨hs.ended_close hrows hback, hpublished, htaken,
      fun r => hrun.mem_uncommitted, fun r => hrun.mem_taken_or_selfTaken, ?_⟩
    intro r htook
    refine hrun.notMem_records_close hrows hback ?_ fun p hp => ?_
    · exact fun hr => (hrun.mem_uncommitted.mp hr).2 htook
    · exact (tracks_takes x r).owned p (hrun.ledgerRun.place_of_took htook hp)

theorem shop_episode : episode "t" shop.2 = shop.2 :=
  episode_eq_self (by decide)

theorem txn_all_or_nothing_shop :
    StoreRun shop.2 shop.1 ∧
      (shop.1.abortTxn "t").1 = ([order "2"], [order "1"]) ∧
      (shop.1.commitTxn "t").1 = ([], [order "1", order "2"]) ∧
      (shop.1.abortTxn "t").2.tuples["order-1"]? = some (order "1") ∧
      AliveSince (TookUnder (some "t") (order "1")) (order "1") shop.2 ∧
      AliveSince (TookUnder (some "t") (order "2")) (order "2") shop.2 := by
  have houtcome := txn_all_or_nothing shop_run "t"
  rw [shop_episode] at houtcome
  obtain ⟨hended, -, -, -, hrestored, -⟩ := houtcome.1 [order "2"] [order "1"]
    (shop.1.abortTxn "t").2 (Prod.ext (by decide) rfl)
  obtain ⟨-, -, -, -, htaken, -⟩ := houtcome.2 [] [order "1", order "2"]
    (shop.1.commitTxn "t").2 (Prod.ext (by decide) rfl)
  refine ⟨shop_run, by decide, by decide, ?_, ?_, ?_⟩
  · exact (hended.tuples "order-1" (order "1")).mpr (Or.inr ⟨by simp, rfl⟩)
  · exact ((hrestored (order "1")).mp (by simp)).1
  · exact (htaken (order "2")).mp (by simp)

end Coordin8
