import Coordin8.Djinn.Votes

/-!
# Tuples of finished transactions

A transaction is finished when its outcome is recorded, no task of the
coordinator works on it any more, and every call to the Space for it has been
handled.  Nobody will commit or abort it again, so a tuple in its buffers is
lost to everybody.  The handlers leave the buffers empty; a client's call that
reaches the store after the Space was released fills them again, and nothing in
the code prevents that.
-/

namespace Coordin8

open Support Support.DashMap

/-- The coordinator is done with the transaction `x`, and so are its calls to
the Space. -/
structure Finished (s : Djinn) (x : String) : Prop where
  outcome : ∃ r : TransactionRecord, s.txn.shared.txns.records[x]? = some r ∧
    (r.state = .committed ∨ r.state = .aborted)
  idle : ∀ pc ∈ s.txn.tasks, pc.owned ≠ some x
  handled : ∀ call ∈ s.calls, call.txnId = x →
    ∃ j reply, call.handler = some j ∧
      s.space.tasks[j]? = some (.returned (.ok reply))

section Finished

variable {config : DjinnConfig} {s s' : Djinn} {act : DjinnAct} {x : String}
  {r : TransactionRecord} {k : Nat}

/-- The Space is among the participants of a transaction it enlisted in. -/
theorem DjinnReachable.participant (hreach : DjinnReachable config s)
    (henlisted : s.Enlisted config x)
    (hr : s.txn.shared.txns.records[x]? = some r) :
    ∃ k : Nat, (endpoints r.participants)[k]? = some config.endpoint := by
  obtain ⟨p, hp, hmem⟩ := henlisted
  have hrec := hreach.txn.glob.record x
  rw [hr] at hrec
  have hpart : p ∈ r.participants := by
    rw [hrec.2.1]
    exact List.mem_filterMap.mpr ⟨_, (mem_about rfl).mpr hmem, rfl⟩
  exact List.mem_iff_getElem?.mp (hp ▸ List.mem_map_of_mem hpart)

theorem Finished.replied (hfin : Finished s x) (hreach : DjinnReachable config s)
    {kind : CallKind}
    (hcalled : config.endpoint ∈ callsOf kind (about x s.txn.log)) :
    ∃ reply, s.Replied x kind reply := by
  obtain ⟨call, hcall, htxn, hkind⟩ := hreach.onRecord (mem_callsOf.mp hcalled)
  obtain ⟨j, reply, hj, hreply⟩ := hfin.handled call hcall htxn
  exact ⟨reply, call, hcall, htxn, hkind, j, hj, hreply⟩

theorem Finished.settled (hfin : Finished s x) (hreach : DjinnReachable config s)
    (hr : s.txn.shared.txns.records[x]? = some r) :
    ∃ result, Settled x r (about x s.txn.log) result := by
  obtain ⟨r', hr', hfinal⟩ := hfin.outcome
  obtain rfl := Option.some.inj (hr.symm.trans hr')
  have hactive : r.state ≠ .active := by
    rcases hfinal with h | h <;> simp [h]
  obtain ⟨i, pc, hpc, -, hp⟩ := hreach.txn.claimed hr hactive
  rcases hp.owned (hreach.txn.glob.keyed x r hr) with
    hown | ⟨lease, result, rfl⟩ | ⟨result, rfl⟩
  · exact absurd hown (hfin.idle pc (List.mem_of_getElem? hpc))
  · exact ⟨result, hp.2⟩
  · rcases hp with hsettled | ⟨hvoting, -⟩
    · exact ⟨result, hsettled⟩
    · simp [hvoting] at hfinal

theorem single_voted {g : List TxnEvent} {ep : String} {v : Option Int32}
    (hg : Rounds x g (roundCalls [ep] [] [] [])
      (roundVotes (votesOf [v]) noVotes)) :
    .voted x .prepareAndCommit 0 v ∈ g :=
  (hg.votes .prepareAndCommit 0 v).mpr rfl

theorem getElem?_endpoints_singleton {p : ParticipantRecord} {ep : String}
    (h : (endpoints [p])[k]? = some ep) : k = 0 := by
  cases k with
  | zero => rfl
  | succ k => cases h

theorem mem_toCommit {eps : List String} {vs : List (Option Int32)}
    {ep : String} (hk : eps[k]? = some ep) (hv : vs[k]? = some (some 0)) :
    ep ∈ toCommit eps vs := by
  have hzip : (ep, some 0) ∈ eps.zip vs :=
    List.mem_of_getElem? (List.getElem?_zip_eq_some.mpr ⟨hk, hv⟩)
  exact List.mem_map.mpr ⟨_, List.mem_filter.mpr ⟨hzip, by simp⟩, rfl⟩

theorem CommitGround.released (hreach : DjinnReachable config s)
    (hfin : Finished s x) (hr : s.txn.shared.txns.records[x]? = some r)
    (hk : (endpoints r.participants)[k]? = some config.endpoint)
    (hground : CommitGround x r.participants (about x s.txn.log)) :
    Released x s.space.log := by
  have hvoted : ∀ {kind v}, .voted x kind k (some v) ∈ about x s.txn.log →
      s.Replied x kind (.vote v) :=
    fun hv => hreach.voted hr hk ((mem_about rfl).mp hv)
  cases hground with
  | nobody hps =>
      rw [hps] at hk
      cases hk
  | @single p v hps hv hg =>
      obtain rfl := getElem?_endpoints_singleton (hps ▸ hk)
      have hmem := single_voted hg
      rcases hv with rfl | rfl <;>
        exact hreach.released (hvoted hmem) (Or.inl (by simp))
  | @unanimous vs hps hlen hvs hg =>
      have hlt : k < vs.length := by
        have hlt := (List.getElem?_eq_some_iff.mp hk).1
        rwa [endpoints, List.length_map, ← hlen] at hlt
      have hget := List.getElem?_eq_getElem hlt
      have hmem := (hg.votes .prepare k vs[k]).mpr hget
      rcases hvs vs[k] (List.getElem_mem hlt) with h0 | h1
      -- The Space had something to commit, and was told to.
      · obtain ⟨reply, hreplied⟩ := hfin.replied hreach
          ((hg.calls .commit).mem_iff.mpr (mem_toCommit hk (h0 ▸ hget)))
        exact hreach.released hreplied (Or.inl (by simp))
      · rw [h1] at hmem
        exact hreach.released (hvoted hmem) (Or.inr (by simp))

theorem AbortGround.released {result : TxnResult}
    (hreach : DjinnReachable config s) (hfin : Finished s x)
    (hk : (endpoints r.participants)[k]? = some config.endpoint)
    (hground : AbortGround x r.participants (about x s.txn.log)
      (endpoints r.participants) result) : Released x s.space.log := by
  have hcalls : (callsOf .abort (about x s.txn.log)).Perm
      (endpoints r.participants) := by
    cases hground with
    | asked hg | vetoed _ _ _ hg => exact hg.calls .abort
  obtain ⟨reply, hreplied⟩ := hfin.replied hreach
    (hcalls.mem_iff.mpr (List.mem_of_getElem? hk))
  exact hreach.released hreplied (Or.inl (by simp))

/-- The Space has been released from every finished transaction it enlisted
in. -/
theorem Finished.released (hfin : Finished s x)
    (hreach : DjinnReachable config s) (henlisted : s.Enlisted config x) :
    Released x s.space.log := by
  obtain ⟨r, hr, -⟩ := hfin.outcome
  obtain ⟨k, hk⟩ := hreach.participant henlisted hr
  obtain ⟨result, hsettled⟩ := hfin.settled hreach hr
  cases hsettled with
  | committed _ hground => exact hground.released hreach hfin hr hk
  | aborted _ hground => exact hground.released hreach hfin hk
  | singleVeto _ hveto =>
      -- The Space never votes against a commit.
      obtain ⟨v, h0, h1, p, hps, hg⟩ := hveto
      obtain rfl := getElem?_endpoints_singleton (hps ▸ hk)
      rcases hreach.vote_cases (hreach.voted hr hk
        ((mem_about rfl).mp (single_voted hg))) with hv | hv
      · exact absurd hv h0
      · exact absurd hv h1

/-- A finished transaction stays finished, so no call for it is made again. -/
theorem Finished.step (hfin : Finished s x) (hreach : DjinnReachable config s)
    (hmove : DjinnMove config s act s') : Finished s' x := by
  obtain ⟨r, hr, hfinal⟩ := hfin.outcome
  have hactive : r.state ≠ .active := by
    rcases hfinal with h | h <;> simp [h]
  obtain ⟨acts, hrun⟩ := hmove.txn_run
  obtain ⟨r', hr', -, -, hkept⟩ := hreach.txn.kept hrun hr hactive
  refine ⟨⟨r', hr', hkept hfinal ▸ hfinal⟩,
    hreach.txn.idle_run hr hactive hfin.idle hrun, fun call hcall htxn => ?_⟩
  rcases hmove.call_before hcall with
    ⟨call₀, hcall₀, -, htxn₀, -, hsame⟩ | ⟨-, -, pc, hpc, hown⟩
  · obtain ⟨j, reply, hj, hreply⟩ :=
      hfin.handled call₀ hcall₀ (htxn₀.trans htxn)
    rcases hsame with rfl | ⟨hnone, -⟩
    · exact ⟨j, reply, hj, hmove.returned hreply⟩
    · rw [hj] at hnone
      cases hnone
  · exact absurd (hown.trans (congrArg some htxn))
      (hfin.idle pc (List.mem_of_getElem? hpc))

theorem Finished.run {acts : List DjinnAct} (hfin : Finished s x)
    (hreach : DjinnReachable config s)
    (hrun : Support.run (Djinn.step config) s acts = some s') :
    Finished s' x :=
  Reachable.invariant (P := fun s' => Finished s' x) hfin
    (fun _ _ _ ⟨_, hm⟩ hfin hstep =>
      hfin.step (hreach.append hm) (.of_step hstep)) ⟨_, hrun⟩

end Finished

/-! ## Whole runs -/

/-- Every call of a client under `x` reaches the store before the Space is
released from `x`. -/
def InTime (x : String) (s : Djinn) : DjinnAct → Prop
  | .space act => ReachesInTime x s.space act
  | _ => True

instance (x : String) (s : Djinn) : ∀ act, Decidable (InTime x s act)
  | .space act => inferInstanceAs (Decidable (ReachesInTime x s.space act))
  | .txn _ | .enlist _ | .send .. | .deliver _ | .answer _ | .fail _ =>
      .isTrue trivial

theorem Cleared.djinnStep {config : DjinnConfig} {s s' : Djinn} {x : String}
    {act : DjinnAct} (hreach : DjinnReachable config s)
    (hcleared : Cleared x s.space) (htimely : InTime x s act)
    (hmove : DjinnMove config s act s') : Cleared x s'.space := by
  cases hmove with
  | txn | send | answer | fail => exact hcleared
  | space _ hstep => exact hcleared.step hreach.space htimely hstep
  | deliver _ _ hstep =>
      refine hcleared.step hreach.space ?_ hstep
      trivial
  | enlist hpc _ _ hstep =>
      refine hcleared.step hreach.space ?_ hstep
      intro pc hpc' hx
      obtain rfl := Option.some.inj (hpc.symm.trans hpc')
      cases hx

/-- In every run in which the calls under `x` reach the store before the Space
is released from `x`: once `x` is finished, nothing is buffered under `x`, at
that moment or later. -/
theorem no_tuple_stranded {config : DjinnConfig} {acts acts' : List DjinnAct}
    {s s' : Djinn} {x : String}
    (hrun : run (Djinn.step config) Djinn.new acts = some s)
    (hfin : Finished s x)
    (hlater : run (Djinn.step config) s acts' = some s')
    (hmeet : StepsMeet (Djinn.step config) (InTime x) Djinn.new
      (acts ++ acts')) : s'.space.shared.store.Vacant x := by
  have hrun' := run_append_eq_some.mpr ⟨s, hrun, hlater⟩
  have hreach : DjinnReachable config s := ⟨acts, hrun⟩
  have hreach' : DjinnReachable config s' := ⟨_, hrun'⟩
  have hcleared : Cleared x s'.space := by
    refine run_invariant_of_stepsMeet (P := fun s => Cleared x s.space) ?_ ?_
      hrun' hmeet
    · rintro ⟨e, he, -⟩
      cases he
    · intro s act s' hreach hcleared htimely hstep
      exact hcleared.djinnStep hreach htimely (.of_step hstep)
  by_cases henlisted : s'.Enlisted config x
  · exact hcleared ((hfin.run hreach hlater).released hreach' henlisted)
  · refine InMemorySpaceStore.vacant_iff.mpr fun p r hp hr => ?_
    exact henlisted (hreach'.enrolled.held p r x hr hp)

/-- A Djinn that lets every endpoint enlist. -/
def bundle : DjinnConfig where
  txn := openHouse
  space := {
    lease := .default
    enlister := some "localhost:9006"
    capacity := 256
    tupleCapacity := 256 }
  endpoint := "localhost:9006"
  linked := rfl

def booking : WriteRequest where
  attrs := ∅
  payload := []
  ttlSecs := 60
  writtenBy := "shop"
  inputTupleId := none
  txnId := some "t"

/-- The transaction `t` begins, and a write under `t` enlists the Space; its
next step is the call of `insert_uncommitted`. -/
def bookingEnlisted : List DjinnAct :=
  [.txn (.call (.begin 300)), .txn (.step 0 (.uuids "t" "l")),
    .txn (.step 0 .go), .space (.call (.write booking)),
    .space (.step 0 (.uuids "1" "m")), .space (.step 0 .go), .enlist 0,
    .space (.step 0 .go)]

/-- The coordinator commits `t` up to the call of `PrepareAndCommit`, which
arrives at the Space as its task 1. -/
def commitCalled : List DjinnAct :=
  [.txn (.call (.commit "t")), .txn (.step 2 .go), .txn (.step 2 .go),
    .send 2 0, .deliver 0]

/-- The answer arrives, and the coordinator records the commit. -/
def commitRecorded : List DjinnAct :=
  [.answer 0, .txn (.step 2 .go), .txn (.step 2 .go)]

/-- The Space finds nothing of `t` and says so, and `t` is committed before the
write reaches the store. -/
def overtaken : Djinn :=
  (run (Djinn.step bundle) Djinn.new (bookingEnlisted ++ commitCalled ++
    [.space (.step 1 .go)] ++ commitRecorded)).get (by decide)

theorem overtaken_run :
    run (Djinn.step bundle) Djinn.new (bookingEnlisted ++ commitCalled ++
      [.space (.step 1 .go)] ++ commitRecorded) = some overtaken :=
  rfl

theorem overtaken_finished : Finished overtaken "t" where
  outcome := ⟨_, rfl, Or.inl rfl⟩
  idle := by decide
  handled := by
    intro call hcall _
    obtain rfl := List.mem_singleton.mp hcall
    exact ⟨1, .vote 1, rfl, rfl⟩

/-- The write then puts its tuple into the buffer of `t`. -/
def stuck : Djinn :=
  (Djinn.step bundle overtaken (.space (.step 0 .go))).get (by decide)

theorem stuck_step :
    Djinn.step bundle overtaken (.space (.step 0 .go)) = some stuck :=
  rfl

/-- After `t` is finished, a tuple comes into its buffer; and `t` is finished for
good. -/
theorem tuple_stranded :
    run (Djinn.step bundle) Djinn.new (bookingEnlisted ++ commitCalled ++
        [.space (.step 1 .go)] ++ commitRecorded) = some overtaken ∧
      Finished overtaken "t" ∧
      Djinn.step bundle overtaken (.space (.step 0 .go)) = some stuck ∧
      bucket stuck.space.shared.store.uncommitted "t" ≠ [] ∧
      ∀ acts s, run (Djinn.step bundle) stuck acts = some s →
        Finished s "t" := by
  have hreach : DjinnReachable bundle overtaken := ⟨_, overtaken_run⟩
  have hfin := overtaken_finished.step hreach (.of_step stuck_step)
  exact ⟨overtaken_run, overtaken_finished, stuck_step, by decide,
    fun acts s hrun => hfin.run (hreach.tail stuck_step) hrun⟩

/-- The write reaches the store before the Space is asked, and is committed. -/
def bookingCommitted : List DjinnAct :=
  bookingEnlisted ++ [.space (.step 0 .go)] ++ commitCalled ++
    [.space (.step 1 .go), .space (.step 1 .go), .space (.step 1 .go),
      .space (.step 1 .go)] ++ commitRecorded

def booked : Djinn :=
  (run (Djinn.step bundle) Djinn.new bookingCommitted).get (by decide)

theorem booked_run :
    run (Djinn.step bundle) Djinn.new bookingCommitted = some booked :=
  rfl

theorem booked_finished : Finished booked "t" where
  outcome := ⟨_, rfl, Or.inl rfl⟩
  idle := by decide
  handled := by
    intro call hcall _
    obtain rfl := List.mem_singleton.mp hcall
    exact ⟨1, .vote 0, rfl, rfl⟩

/-- Another write under `t` finds that the Space can no longer enlist. -/
def bookingRefused : List DjinnAct :=
  [.space (.call (.write booking)), .space (.step 2 (.uuids "2" "n")),
    .space (.step 2 .go), .enlist 2]

def refused : Djinn :=
  (run (Djinn.step bundle) booked bookingRefused).get (by decide)

theorem refused_run :
    run (Djinn.step bundle) booked bookingRefused = some refused :=
  rfl

theorem booking_inTime :
    StepsMeet (Djinn.step bundle) (InTime "t") Djinn.new
      (bookingCommitted ++ bookingRefused) := by
  decide +kernel

theorem no_tuple_stranded_booking :
    Finished booked "t" ∧
      run (Djinn.step bundle) booked bookingRefused = some refused ∧
      refused.space.shared.store.Vacant "t" :=
  ⟨booked_finished, refused_run, no_tuple_stranded booked_run booked_finished
    refused_run booking_inTime⟩

end Coordin8
