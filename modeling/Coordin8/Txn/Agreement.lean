import Coordin8.Txn.Owner

/-!
# Agreement of the coordinator

What follows from the single owner of a transaction, in every interleaving: the
coordinator never tells one participant to commit and another to abort, and the
recorded state moves only forward, until it is `Committed` or `Aborted`.
-/

namespace Coordin8

open Support Support.DashMap TxnPc

variable {i : Nat} {pc : TxnPc} {acts : List TxnAct} {act : TxnAct} {x : String}
  {ps : List ParticipantRecord} {old new : TransactionState}
  {r : TransactionRecord}

section Reachable

variable {config : TxnConfig} {s s' : TxnProc} {x : String}
  {r : TransactionRecord}

theorem TxnReachable.glob (hreach : TxnReachable config s) :
    TxnGlob s.shared s.log s.tasks.length :=
  ((txn_keeps config).holds hreach).1

theorem TxnReachable.loc (hreach : TxnReachable config s)
    (hpc : s.tasks[i]? = some pc) : TxnLoc s.shared s.log i pc :=
  ((txn_keeps config).holds hreach).2 i pc hpc

theorem TxnReachable.append (hreach : TxnReachable config s)
    (hrun : run (txnProgram config).step s acts = some s') :
    TxnReachable config s' :=
  Reachable.append hreach hrun

/-- The history of a transaction that left `Active` is the progress of the task
that moved it. -/
theorem TxnReachable.claimed (hreach : TxnReachable config s)
    (hr : s.shared.txns.records[x]? = some r) (hstate : r.state ≠ .active) :
    ∃ i pc, s.tasks[i]? = some pc ∧ claimants (about x s.log) = [i] ∧
      Progress x r (about x s.log) pc := by
  have hrec := hreach.glob.record x
  rw [hr] at hrec
  obtain ⟨i, hi, hclaim⟩ := hrec.2.2.2 hstate
  refine ⟨i, s.tasks[i], List.getElem?_eq_getElem hi, hclaim, ?_⟩
  obtain ⟨r', hr', hp⟩ :=
    (hreach.loc (List.getElem?_eq_getElem hi)).progress x hclaim
  rw [hr] at hr'
  exact Option.some.inj hr' ▸ hp

theorem TxnReachable.claimants_step
    (hreach : TxnReachable config s) (hi : claimants (about x s.log) = [i])
    (hstep : (txnProgram config).step s act = some s') :
    claimants (about x s'.log) = [i] := by
  cases act with
  | call pc =>
      obtain ⟨-, rfl⟩ := Program.step_call.mp hstep
      exact hi
  | ambient event =>
      obtain ⟨shared, spawned, -, rfl⟩ := Program.step_ambient.mp hstep
      exact hi
  | step j choice =>
      obtain ⟨pc, shared, pc', events, hpc, hadv, rfl⟩ :=
        Program.step_step.mp hstep
      have hj : j < s.tasks.length := (List.getElem?_eq_some_iff.mp hpc).1
      rcases ((TxnMove.of_advance hadv).stepAt hj hreach.glob
        (hreach.loc hpc) x).touched with ⟨hsame, -⟩ | ⟨hnone, -⟩ | ⟨hold, hnew⟩
      · exact hsame ▸ hi
      · simp [hnone] at hi
      · exact hnew.trans (hold.symm.trans hi)

theorem TxnReachable.claimants_run
    (hreach : TxnReachable config s) (hi : claimants (about x s.log) = [i])
    (hrun : run (txnProgram config).step s acts = some s') :
    claimants (about x s'.log) = [i] :=
  Reachable.invariant (P := fun s' => claimants (about x s'.log) = [i]) hi
    (fun _ _ _ ⟨_, hm⟩ hi hstep => (hreach.append hm).claimants_step hi hstep)
    ⟨_, hrun⟩

end Reachable

/-! ## Commit or abort, not both -/

theorem mem_callsOf {kind : CallKind} {ep : String}
    {log : List TxnEvent} :
    ep ∈ callsOf kind (about x log) ↔ .called x kind ep ∈ log := by
  simp only [callsOf, about, List.mem_filterMap, List.mem_filter]
  constructor
  · rintro ⟨e, ⟨he, htxn⟩, hep⟩
    cases e with
    | called y k ep' =>
        simp only [Option.ite_none_right_eq_some, Option.some.injEq] at hep
        simp only [TxnEvent.txn, Option.some.injEq, decide_eq_true_eq] at htxn
        obtain ⟨rfl, rfl⟩ := hep
        exact htxn ▸ he
    | _ => cases hep
  · intro he
    exact ⟨_, ⟨he, by simp [TxnEvent.txn]⟩, by simp⟩

/-- No participant was told to abort, or none was told to commit. -/
def OneSided (g : List TxnEvent) : Prop :=
  callsOf .abort g = [] ∨ callsOf .commit g = [] ∧ callsOf .prepareAndCommit g = []

section OneSided

variable {x : String} {g : List TxnEvent} {votes : CallKind → Votes}
  {single prepare commit abort : List String}

theorem Rounds.no_abort
    (h : Rounds x g (roundCalls single prepare commit []) votes) :
    OneSided g :=
  Or.inl (h.calls .abort).eq_nil

theorem Rounds.no_commit (h : Rounds x g (roundCalls [] prepare [] abort) votes) :
    OneSided g :=
  Or.inr ⟨(h.calls .commit).eq_nil, (h.calls .prepareAndCommit).eq_nil⟩

theorem CommitGround.oneSided (h : CommitGround x ps g) : OneSided g := by
  cases h with
  | nobody _ hg | single _ _ hg | unanimous _ _ _ hg => exact hg.no_abort

theorem AbortGround.oneSided
    {aborts : List String} {result : TxnResult}
    (h : AbortGround x ps g aborts result) : OneSided g := by
  cases h with
  | asked hg | vetoed _ _ _ hg => exact hg.no_commit

theorem SingleAnswer.oneSided {v : Option Int32}
    (h : SingleAnswer x ps g v) : OneSided g := by
  obtain ⟨p, -, hg⟩ := h
  exact hg.no_abort

theorem Planned.oneSided {after : After}
    (h : Planned x ps g old new after) : OneSided g := by
  cases h with
  | early hground | late hground => exact hground.oneSided
  | singleVeto hveto =>
      obtain ⟨v, -, -, hanswer⟩ := hveto
      exact hanswer.oneSided
  | commitPhase _ _ _ hg => exact hg.no_abort
  | abortPhase hground => exact hground.oneSided

theorem Settled.oneSided {result : TxnResult}
    (h : Settled x r g result) : OneSided g := by
  cases h with
  | committed _ hground | aborted _ hground => exact hground.oneSided
  | singleVeto _ hveto =>
      obtain ⟨v, -, -, hanswer⟩ := hveto
      exact hanswer.oneSided

theorem Progress.oneSided (h : Progress x r g pc) : OneSided g := by
  cases pc with
  | commitFetch | abortFetch | expiredFetch => exact h.2.2.no_abort
  | prepareAndCommit => exact h.2.2.2.no_abort
  | preparing => exact h.2.2.2.2.no_abort
  | transition => exact h.2.2.oneSided
  | committing =>
      obtain ⟨-, -, -, vs, -, -, -, hg⟩ := h
      exact hg.no_abort
  | aborting => exact h.2.2.2.oneSided
  | cancelLease => exact h.2.oneSided
  | returned =>
      rcases h with hsettled | ⟨-, hanswer, -⟩
      · exact hsettled.oneSided
      · exact hanswer.oneSided
  | _ => exact False.elim h

end OneSided

theorem TxnReachable.oneSided {config : TxnConfig} {s : TxnProc}
    (hreach : TxnReachable config s) (x : String) : OneSided (about x s.log) := by
  have hrec := hreach.glob.record x
  cases hr : s.shared.txns.records[x]? with
  | none =>
      rw [hr] at hrec
      rw [show about x s.log = [] from hrec]
      exact Or.inl rfl
  | some r =>
      rw [hr] at hrec
      by_cases hstate : r.state = .active
      · exact (hrec.2.2.1 hstate).2.no_abort
      · obtain ⟨i, pc, -, -, hp⟩ := hreach.claimed hr hstate
        exact hp.oneSided

/-- In no run is one participant told to commit and one to abort the same
transaction, and after a `PrepareAndCommit` none is told to abort. -/
theorem outcome_agreement {config : TxnConfig} {s : TxnProc}
    (hreach : TxnReachable config s) (x : String) :
    (∀ ep ep', ¬ (.called x .commit ep ∈ s.log ∧ .called x .abort ep' ∈ s.log)) ∧
      ∀ ep, .called x .prepareAndCommit ep ∈ s.log →
        ∀ ep', .called x .abort ep' ∉ s.log := by
  simp only [← mem_callsOf]
  rcases hreach.oneSided x with habort | ⟨hcommit, hsingle⟩
  · simp [habort]
  · simp [hcommit, hsingle]

def openHouse : TxnConfig where
  lease := .default
  allow := fun _ => .ok ()
  capacity := 256

/-- The transaction `t` with participants `a` and `b`, up to the calls of
`commit` (task 3) and `abort` (task 4). -/
def duetSetup : List TxnAct :=
  [.call (.begin 300), .step 0 (.uuids "t" "l"), .step 0 .go,
    .call (.enlist "t" "a" 0), .step 1 .go,
    .call (.enlist "t" "b" 0), .step 2 .go,
    .call (.commit "t"), .call (.abort "t")]

/-- The commit wins; `a` has something to commit, `b` has not. -/
def duetCommit : List TxnAct :=
  [.step 3 .go, .step 4 .go, .step 3 .go, .step 3 (.send 1), .step 3 (.send 0),
    .step 3 (.vote 0 (some 0)), .step 4 .go, .step 3 (.vote 1 (some 1)),
    .step 3 .go, .step 3 .go, .step 3 (.send 0), .step 3 (.ack 0 true),
    .step 3 .go, .step 3 .go]

def duet : TxnProc :=
  (run (txnProgram openHouse).step TxnProc.new (duetSetup ++ duetCommit)).get
    (by decide)

theorem duet_reachable : TxnReachable openHouse duet :=
  ⟨duetSetup ++ duetCommit, rfl⟩

theorem outcome_agreement_duet :
    .called "t" .commit "a" ∈ duet.log ∧
      ∀ ep, .called "t" .abort ep ∉ duet.log := by
  have hcommit : .called "t" .commit "a" ∈ duet.log := by decide
  exact ⟨hcommit, fun ep habort =>
    (outcome_agreement duet_reachable "t").1 "a" ep ⟨hcommit, habort⟩⟩

/-! ## The recorded state -/

section State

variable {config : TxnConfig} {s s' : TxnProc}

theorem TxnReachable.recordStep (hreach : TxnReachable config s)
    (hstep : (txnProgram config).step s act = some s') (x : String) :
    RecordStep s.shared.txns.records[x]? s'.shared.txns.records[x]? := by
  cases act with
  | call pc =>
      obtain ⟨-, rfl⟩ := Program.step_call.mp hstep
      exact .refl _
  | step i choice =>
      obtain ⟨pc, shared, pc', events, hpc, hadv, rfl⟩ :=
        Program.step_step.mp hstep
      have hi : i < s.tasks.length := (List.getElem?_eq_some_iff.mp hpc).1
      exact ((TxnMove.of_advance hadv).stepAt hi hreach.glob
        (hreach.loc hpc) x).moves
  | ambient event =>
      obtain ⟨shared, spawned, hamb, rfl⟩ := Program.step_ambient.mp hstep
      obtain ⟨htxns, -⟩ := TxnHost.ambient_cases hamb
      exact htxns ▸ .refl _

/-- A record of a transaction that left `Active` keeps its participants, and a
final state is kept. -/
def Kept (r r' : TransactionRecord) : Prop :=
  r'.state ≠ .active ∧ r'.participants = r.participants ∧
    (r.state = .committed ∨ r.state = .aborted → r'.state = r.state)

theorem Allowed.ne_active (h : Allowed old new) : new ≠ .active := by
  cases h <;> simp

theorem Allowed.not_final (h : Allowed old new) :
    ¬ (old = .committed ∨ old = .aborted) := by
  cases h <;> simp

theorem TxnReachable.kept {acts : List TxnAct} (hreach : TxnReachable config s)
    (hrun : run (txnProgram config).step s acts = some s') {x : String}
    {r : TransactionRecord} (hr : s.shared.txns.records[x]? = some r)
    (hstate : r.state ≠ .active) :
    ∃ r', s'.shared.txns.records[x]? = some r' ∧ Kept r r' := by
  refine Reachable.invariant
    (P := fun s' => ∃ r', s'.shared.txns.records[x]? = some r' ∧ Kept r r')
    ⟨r, hr, hstate, rfl, fun _ => rfl⟩ ?_ ⟨_, hrun⟩
  rintro m act m' ⟨as, hm⟩ ⟨r₁, hr₁, hne, hps, hfinal⟩ hact
  have hmoves := (hreach.append hm).recordStep hact x
  rw [hr₁] at hmoves
  cases hr₂ : m'.shared.txns.records[x]? with
  | none =>
      rw [hr₂] at hmoves
      exact False.elim hmoves
  | some r₂ =>
      rw [hr₂] at hmoves
      obtain ⟨hsame | hallowed, hps'⟩ := hmoves
      · refine ⟨r₂, rfl, hsame ▸ hne, (hps' hne).trans hps, fun h => ?_⟩
        rw [hsame, hfinal h]
      · refine ⟨r₂, rfl, hallowed.ne_active, (hps' hne).trans hps, fun h => ?_⟩
        rw [hfinal h] at hallowed
        exact absurd h hallowed.not_final

/-- A call comes to own a transaction only by moving it out of `Active`. -/
theorem TxnMove.owned_cases {h h' : TxnHost} {pc' : TxnPc}
    {events : List TxnEvent}
    (hmove : TxnMove config i h pc h' pc' events) (hkeyed : Keyed h)
    (hown : pc'.owned = some x) :
    pc.owned = some x ∨
      ∃ r, h.txns.records[x]? = some r ∧ r.state = .active := by
  have htarget := hmove.target_of_owned hkeyed hown
  cases hmove with
  | begin | beginFailed | create | enlist | fetchFailed | transitionFailed
  | lease => cases hown
  | idle _ hpc' => exact absurd hown hpc'.not_owned
  | claim hclaims hr hactive =>
      refine Or.inr ⟨_, ?_, hactive⟩
      cases hclaims <;> exact Option.some.inj hown ▸ hr
  | fetch hfetches => exact Or.inl (owned_of_target hfetches.owned htarget)
  | transition => exact Or.inl (owned_of_target rfl htarget)
  | join hjoin => exact Or.inl (owned_of_join hjoin hown)
  | send hsend =>
      obtain ⟨y, hy, -⟩ := owned_of_send hsend
      exact Or.inl (owned_of_target hy htarget)
  | vote hvote =>
      obtain ⟨y, hy, -⟩ := owned_of_vote hvote
      exact Or.inl (owned_of_target hy htarget)
  | ack hack =>
      obtain ⟨y, hy, -⟩ := owned_of_ack hack
      exact Or.inl (owned_of_target hy htarget)
  | @cancelLease _ lpc' => cases lpc' <;> cases hown

/-- Once no task works on a transaction that has left `Active`, none will. -/
theorem TxnReachable.idle_step (hreach : TxnReachable config s)
    (hr : s.shared.txns.records[x]? = some r) (hstate : r.state ≠ .active)
    (hidle : ∀ pc ∈ s.tasks, pc.owned ≠ some x)
    (hstep : (txnProgram config).step s act = some s') :
    ∀ pc ∈ s'.tasks, pc.owned ≠ some x := by
  intro pc hpc hown
  cases act with
  | call pc₀ =>
      obtain ⟨hentry, rfl⟩ := Program.step_call.mp hstep
      rcases List.mem_append.mp hpc with hpc | hpc
      · exact hidle pc hpc hown
      · rw [List.mem_singleton.mp hpc, (entry_plain hentry).1] at hown
        cases hown
  | ambient event =>
      obtain ⟨shared, spawned, hamb, rfl⟩ := Program.step_ambient.mp hstep
      obtain ⟨-, -, -, -, hspawned⟩ := TxnHost.ambient_cases hamb
      rcases List.mem_append.mp hpc with hpc | hpc
      · exact hidle pc hpc hown
      · obtain ⟨-, -, y, -, rfl⟩ := hspawned pc hpc
        cases hown
  | step i choice =>
      obtain ⟨pc₀, shared, pc', events, hpc₀, hadv, rfl⟩ :=
        Program.step_step.mp hstep
      rcases List.mem_or_eq_of_mem_set hpc with hpc | rfl
      · exact hidle pc hpc hown
      · rcases (TxnMove.of_advance hadv).owned_cases hreach.glob.keyed hown with
          hown | ⟨r', hr', hactive⟩
        · exact hidle pc₀ (List.mem_of_getElem? hpc₀) hown
        · obtain rfl := Option.some.inj (hr.symm.trans hr')
          exact hstate hactive

theorem TxnReachable.idle_run (hreach : TxnReachable config s)
    (hr : s.shared.txns.records[x]? = some r) (hstate : r.state ≠ .active)
    (hidle : ∀ pc ∈ s.tasks, pc.owned ≠ some x)
    (hrun : run (txnProgram config).step s acts = some s') :
    ∀ pc ∈ s'.tasks, pc.owned ≠ some x := by
  refine Reachable.invariant
    (P := fun s' => ∀ pc ∈ s'.tasks, pc.owned ≠ some x) hidle ?_ ⟨_, hrun⟩
  rintro m act m' ⟨as, hm⟩ hidle hact
  obtain ⟨r', hr', hstate', -⟩ := hreach.kept hm hr hstate
  exact (hreach.append hm).idle_step hr' hstate' hidle hact

end State

/-- The recorded state of a transaction moves only as `Allowed` says, in every
interleaving; `Committed` and `Aborted` are final; the participants are fixed
once the state has left `Active`; and every transition of a commit finds the
state it expects. -/
theorem single_owner {config : TxnConfig} {s : TxnProc}
    (hreach : TxnReachable config s) :
    (∀ act s', (txnProgram config).step s act = some s' →
      ∀ x : String,
        RecordStep s.shared.txns.records[x]? s'.shared.txns.records[x]?) ∧
    (∀ acts s', run (txnProgram config).step s acts = some s' →
      ∀ (x : String) (r : TransactionRecord),
        s.shared.txns.records[x]? = some r → r.state ≠ .active →
        ∃ r' : TransactionRecord, s'.shared.txns.records[x]? = some r' ∧
          r'.participants = r.participants ∧
          (r.state = .committed ∨ r.state = .aborted → r'.state = r.state)) ∧
    (∀ (i : Nat) (txn : TransactionRecord) (old new : TransactionState)
        (after : After), s.tasks[i]? = some (.transition txn old new after) →
        ∃ r : TransactionRecord, s.shared.txns.records[txn.txnId]? = some r ∧ r.state = old) ∧
    ∀ x old new, .unexpected x old new ∉ s.log := by
  refine ⟨fun act s' hstep x => hreach.recordStep hstep x, ?_, ?_,
    hreach.glob.expected⟩
  · intro acts s' hrun x r hr hstate
    obtain ⟨r', hr', -, hps, hfinal⟩ := hreach.kept hrun hr hstate
    exact ⟨r', hr', hps, hfinal⟩
  · intro i txn old new after hpc
    have hloc := hreach.loc hpc
    obtain ⟨r, hr, -, hold, -⟩ :=
      hloc.progress txn.txnId (hloc.owner txn.txnId rfl)
    exact ⟨r, hr, hold⟩

theorem single_owner_duet :
    TxnReachable openHouse duet ∧
      ∀ acts s', run (txnProgram openHouse).step duet acts = some s' →
        ∃ r' : TransactionRecord, s'.shared.txns.records["t"]? = some r' ∧
          r'.state = .committed := by
  refine ⟨duet_reachable, fun acts s' hrun => ?_⟩
  obtain ⟨r', hr', -, hfinal⟩ := (single_owner duet_reachable).2.1 acts s' hrun
    "t" _ rfl (by decide)
  exact ⟨r', hr', hfinal (by decide)⟩

/-- In every interleaving, a recorded transaction was begun by one call only,
with the lease of the record, and its participants are the successful
enlistments, in order: none is lost to a call at the same time. -/
theorem enlistments_kept {config : TxnConfig} {s : TxnProc}
    (hreach : TxnReachable config s) {x : String} {r : TransactionRecord}
    (hr : s.shared.txns.records[x]? = some r) :
    r.participants = enlistedIn (about x s.log) ∧
      ∃ i, .began i x r.leaseId ∈ s.log ∧
        ∀ j leaseId, .began j x leaseId ∈ s.log → j = i ∧ leaseId = r.leaseId := by
  have hglob := hreach.glob
  have hrec := hglob.record x
  rw [hr] at hrec
  obtain ⟨i, hi⟩ := hglob.began x r hr
  exact ⟨hrec.2.1, i, hi, fun j leaseId hj => hglob.once j i x _ _ hj hi⟩

theorem enlistments_kept_duet :
    enlistedIn (about "t" duet.log) = [⟨"a", 0⟩, ⟨"b", 0⟩] ∧
      ∃ i, .began i "t" "l" ∈ duet.log ∧
        ∀ j leaseId, .began j "t" leaseId ∈ duet.log → j = i ∧ leaseId = "l" := by
  have hr : duet.shared.txns.records["t"]? = some _ := rfl
  exact ⟨by decide, (enlistments_kept duet_reachable hr).2⟩

end Coordin8
