import Coordin8.Djinn.Stranded
import Coordin8.Txn.Decision

/-!
# The Space and the coordinator agree

Only the coordinator calls the participant service, so the Space commits and
aborts what it is told to (`DjinnReachable.backed`).  The coordinator decides
once, and the Space never refuses.  So the two come to the same outcome, however
calls overtake each other or fail.
-/

namespace Coordin8

open Support

namespace SpacePc

/-- The transaction that a call is to commit (`true`) or to abort. -/
def outcome : SpacePc → Option (String × Bool)
  | .commitTxn x _ | .prepareAndCommit x => some (x, true)
  | .abortTxn x => some (x, false)
  | _ => none

variable {mode : Mode} {q : Query} {cursor : Nat}

theorem outcome_afterQuery {found : Option TupleRecord} :
    (afterQuery mode q cursor found).outcome = none := by
  fun_cases afterQuery <;> rfl

theorem outcome_afterRecv {received : Recv TupleRecord} :
    (afterRecv mode q cursor received).outcome = none := by
  fun_cases afterRecv <;> rfl

theorem outcome_settle {todo sends : List TupleRecord} {reply : SpaceReply} :
    (settle todo sends reply).outcome = none := by
  fun_cases settle <;> rfl

/-- A client cannot start a call of the participant service. -/
theorem outcome_entry {pc : SpacePc} (hentry : pc.entry = true)
    (hfree : pc.participant = false) : pc.outcome = none := by
  cases pc <;> first | rfl | cases hfree.symm.trans hentry

end SpacePc

/-- The transaction that a store call committed or aborted. -/
def SpaceEvent.outcome : SpaceEvent → Option (String × Bool)
  | .store (.commitTxn x) _ => some (x, true)
  | .store (.abortTxn x) _ => some (x, false)
  | _ => none

section Steps

open SpacePc

variable {config : SpaceConfig} {i : Nat} {h h' : SpaceHost} {pc pc' : SpacePc}
  {events : List SpaceEvent} {o : String × Bool}

theorem SpaceMove.outcome (hmove : SpaceMove config i h pc h' pc' events)
    (ho : pc'.outcome = some o) : pc.outcome = some o := by
  cases hmove with
  | @store _ _ op hcalls =>
      generalize (h.store.exec op).1 = result at hcalls
      cases hcalls with
      | prepareAndCommit x hasState =>
          cases hasState with
          | true => exact ho
          | false => cases ho
      | findMatch | takeMatch => cases outcome_afterQuery.symm.trans ho
      | _ => cases ho
  | pass hpasses =>
      cases hpasses with
      | received => cases outcome_afterRecv.symm.trans ho
      | @noEnlister _ next | @known _ next => cases next <;> cases ho
      | _ => cases ho
  | @mark _ next => cases next <;> cases ho
  | unmark | sendSettled => cases outcome_settle.symm.trans ho
  | @write req =>
      cases hx : req.txnId <;> (rw [hx] at ho; cases ho)
  | @lease _ _ lpc lpc' _ _ hlpc _ hafter =>
      cases pc <;> cases lpc' <;> cases hafter <;>
        first | cases ho | cases outcome_settle.symm.trans ho
  | _ => cases ho

theorem SpaceMove.outcome_event {e : SpaceEvent}
    (hmove : SpaceMove config i h pc h' pc' events) (he : e ∈ events)
    (ho : e.outcome = some o) : pc.outcome = some o := by
  cases hmove with
  | @store _ _ op hcalls =>
      obtain rfl := List.mem_singleton.mp he
      generalize (h.store.exec op).1 = result at hcalls ho
      cases hcalls <;> first | exact ho | cases ho
  | write =>
      obtain rfl := List.mem_singleton.mp he
      cases ho
  | _ => cases he

end Steps

/-- What the calls of the Space are to do, and what its store calls did. -/
structure Backed (P : String × Bool → Prop) (s : SpaceProc) : Prop where
  tasks : ∀ pc ∈ s.tasks, ∀ o, pc.outcome = some o → P o
  log : ∀ e ∈ s.log, ∀ o, e.outcome = some o → P o

theorem Backed.step {config : SpaceConfig} {P : String × Bool → Prop}
    {s s' : SpaceProc} {act : SpaceAct} (h : Backed P s)
    (hstep : (spaceProgram config).step s act = some s')
    (hcall : ∀ pc o, act = .call pc → pc.entry = true →
      pc.outcome = some o → P o) : Backed P s' := by
  cases act with
  | call pc =>
      obtain ⟨hentry, rfl⟩ := Program.step_call.mp hstep
      exact ⟨List.forall_mem_append.mpr ⟨h.tasks, List.forall_mem_singleton.mpr
        fun o => hcall pc o rfl hentry⟩, h.log⟩
  | ambient event =>
      obtain ⟨shared, spawned, hamb, rfl⟩ := Program.step_ambient.mp hstep
      obtain ⟨-, -, -, -, -, hspawned⟩ := SpaceHost.ambient_cases hamb
      refine ⟨List.forall_mem_append.mpr ⟨h.tasks, fun pc hpc => ?_⟩, h.log⟩
      obtain ⟨l, rfl | rfl⟩ := hspawned pc hpc <;> exact nofun
  | step i choice =>
      obtain ⟨pc, shared, pc', events, hpc, hadv, rfl⟩ :=
        Program.step_step.mp hstep
      have hmove := SpaceMove.of_advance hadv
      have hpc := h.tasks pc (List.mem_of_getElem? hpc)
      refine ⟨fun pc'' hpc'' o ho => ?_, List.forall_mem_append.mpr
        ⟨h.log, fun e he o ho => hpc o (hmove.outcome_event he ho)⟩⟩
      rcases List.mem_or_eq_of_mem_set hpc'' with hold | rfl
      · exact h.tasks pc'' hold o ho
      · exact hpc o (hmove.outcome ho)

/-- The coordinator told the Space to commit, or to abort. -/
def Djinn.Ordered (config : DjinnConfig) (s : Djinn) : String × Bool → Prop
  | (x, true) => .called x .commit config.endpoint ∈ s.txn.log ∨
      .called x .prepareAndCommit config.endpoint ∈ s.txn.log
  | (x, false) => .called x .abort config.endpoint ∈ s.txn.log

variable {config : DjinnConfig} {s : Djinn} {x : String}
  {r : TransactionRecord}

theorem DjinnReachable.backed (hreach : DjinnReachable config s) :
    Backed (s.Ordered config) s.space := by
  refine Reachable.invariant (P := fun s => Backed (s.Ordered config) s.space)
    ?_ ?_ hreach
  · constructor <;> simp [Djinn.new, SpaceProc.new]
  intro s act s' (hreach : DjinnReachable config s) ih hstep
  have hmove := DjinnMove.of_step hstep
  have hweaken : ∀ o, s.Ordered config o → s'.Ordered config o := by
    rintro ⟨x, _ | _⟩ ho
    · exact hmove.log_subset ho
    · exact ho.imp (hmove.log_subset ·) (hmove.log_subset ·)
  have hold : Backed (s'.Ordered config) s.space :=
    ⟨fun pc hpc o ho => hweaken o (ih.tasks pc hpc o ho),
      fun e he o ho => hweaken o (ih.log e he o ho)⟩
  clear hstep
  cases hmove with
  | txn | send | answer | fail => exact hold
  | space hfree hstep =>
      refine hold.step hstep ?_
      rintro pc o rfl hentry ho
      cases (SpacePc.outcome_entry hentry hfree).symm.trans ho
  | enlist _ _ _ hstep =>
      refine hold.step hstep ?_
      rintro pc o hact
      cases hact
  | @deliver _ call _ hcall _ hstep =>
      refine hold.step hstep ?_
      rintro pc o hpc - ho
      obtain rfl := PoolAct.call.inj hpc
      have hcalled := (hreach.caller (List.mem_of_getElem? hcall)).1
      obtain ⟨task, slot, kind, x, handler⟩ := call
      cases kind <;> cases ho
      · exact .inr hcalled
      · exact .inl hcalled
      · exact hcalled

/-! ## Agreement -/

theorem CommitGround.no_abort {g : List TxnEvent} {ps : List ParticipantRecord}
    (h : CommitGround x ps g) : callsOf .abort g = [] := by
  cases h with
  | nobody _ hg | single _ _ hg | unanimous _ _ _ hg =>
      exact (hg.calls .abort).eq_nil

/-- Nobody was told to commit. -/
def NoCommit (g : List TxnEvent) : Prop :=
  callsOf .commit g = [] ∧ callsOf .prepareAndCommit g = []

/-- What is recorded as aborted, nobody was told to commit, or the only
participant refused. -/
theorem Progress.aborted {g : List TxnEvent} {pc : TxnPc}
    (hp : Progress x r g pc) (hstate : r.state = .aborted) :
    NoCommit g ∨ SingleVeto x r.participants g := by
  have hnone : ∀ {prepare aborts votes},
      Rounds x g (roundCalls [] prepare [] aborts) votes → NoCommit g :=
    fun hg => ⟨(hg.calls .commit).eq_nil, (hg.calls .prepareAndCommit).eq_nil⟩
  have hground : ∀ {aborts result},
      AbortGround x r.participants g aborts result → NoCommit g := by
    rintro _ _ (hg | ⟨-, -, -, hg⟩) <;> exact hnone hg
  have hsettled : ∀ {result}, Settled x r g result →
      NoCommit g ∨ SingleVeto x r.participants g := by
    rintro _ (⟨hcommitted⟩ | ⟨-, h⟩ | ⟨-, hveto⟩)
    · cases hstate.symm.trans hcommitted
    · exact .inl (hground h)
    · exact .inr hveto
  cases pc with
  | abortFetch | expiredFetch => exact .inl (hnone hp.2.2)
  | aborting => exact .inl (hground hp.2.2.2)
  | cancelLease => exact hsettled hp.2
  | returned =>
      rcases hp with h | ⟨hvoting, -⟩
      · exact hsettled h
      · cases hstate.symm.trans hvoting
  | transition txn old new after =>
      obtain ⟨-, hold, hplanned⟩ := hp
      obtain rfl := hold.symm.trans hstate
      cases hplanned
  | _ => simp_all [Progress]

/-- The Space never refuses, so it was not told to commit what is aborted. -/
theorem DjinnReachable.not_ordered (hreach : DjinnReachable config s)
    (hr : s.txn.shared.txns.records[x]? = some r)
    (hstate : r.state = .aborted) : ¬ s.Ordered config (x, true) := by
  obtain ⟨i, pc, -, -, hp⟩ := hreach.txn.claimed hr (by simp [hstate])
  simp only [Djinn.Ordered, ← mem_callsOf]
  rcases hp.aborted hstate with ⟨hcommit, hsingle⟩ | ⟨v, h0, h1, p, hps, hg⟩
  · simp [hcommit, hsingle]
  · rintro (hcalled | hcalled)
    · cases (hg.calls .commit).mem_iff.mp hcalled
    · have hep := List.mem_singleton.mp
        ((hg.calls .prepareAndCommit).mem_iff.mp hcalled)
      have hvoted := (mem_about rfl).mp (single_voted hg)
      have hreplied :=
        hreach.voted hr (k := 0) (by simp [hps, endpoints, hep]) hvoted
      exact (hreach.vote_cases hreplied).elim h0 h1

/-- The Space never commits and aborts one transaction; it aborts none that the
coordinator has recorded as committed, and commits none that is recorded as
aborted. -/
theorem space_agrees (hreach : DjinnReachable config s) (x : String)
    (result result' : SpaceResult) :
    ¬ (.store (.commitTxn x) result ∈ s.space.log ∧
      .store (.abortTxn x) result' ∈ s.space.log) ∧
    ∀ r, s.txn.shared.txns.records[x]? = some r →
      (r.state = .committed → .store (.abortTxn x) result' ∉ s.space.log) ∧
      (r.state = .aborted → .store (.commitTxn x) result ∉ s.space.log) := by
  have hcommit : .store (.commitTxn x) result ∈ s.space.log →
      s.Ordered config (x, true) := fun h => hreach.backed.log _ h _ rfl
  have habort : .store (.abortTxn x) result' ∈ s.space.log →
      s.Ordered config (x, false) := fun h => hreach.backed.log _ h _ rfl
  refine ⟨?_, fun r hr => ⟨fun hstate h => ?_, fun hstate h => ?_⟩⟩
  · rintro ⟨hc, ha⟩
    have hc := hcommit hc
    have ha := habort ha
    simp only [Djinn.Ordered, ← mem_callsOf] at hc ha
    rcases hreach.txn.oneSided x with hnone | ⟨hnone, hnone'⟩ <;> simp_all
  · obtain ⟨i, pc, -, -, hp⟩ := hreach.txn.claimed hr (by simp [hstate])
    have ha := mem_callsOf.mpr (habort h)
    rw [(hp.committed hstate).no_abort] at ha
    cases ha
  · exact hreach.not_ordered hr hstate (hcommit h)

theorem booked_reachable : DjinnReachable bundle booked := ⟨_, booked_run⟩

theorem space_agrees_booked :
    ∃ result, .store (.commitTxn "t") result ∈ booked.space.log ∧
      ∀ result', .store (.abortTxn "t") result' ∉ booked.space.log :=
  have hmem := List.mem_of_getElem? (i := 3) rfl
  ⟨_, hmem, fun result' h =>
    (space_agrees booked_reachable "t" _ result').1 ⟨hmem, h⟩⟩

/-- A vote that the coordinator counts for the Space was cast by the Space, on a
call of the task that claimed the transaction.  Unless it is the vote `Prepared`
on a `Prepare`, the Space is released by then. -/
theorem votes_were_cast {k : Nat} {kind : CallKind} {v : Int32}
    (hreach : DjinnReachable config s)
    (hr : s.txn.shared.txns.records[x]? = some r)
    (hk : (endpoints r.participants)[k]? = some config.endpoint)
    (hv : .voted x kind k (some v) ∈ s.txn.log) :
    (∃ call ∈ s.calls, call.txnId = x ∧ call.kind = kind ∧
      claimants (about x s.txn.log) = [call.task] ∧
      ∃ j, call.handler = some j ∧
        s.space.tasks[j]? = some (.returned (.ok (.vote v)))) ∧
    (v = 0 ∨ v = 1) ∧
    (kind ≠ .prepare ∨ v ≠ 0 → Released x s.space.log) := by
  have hreplied := hreach.voted hr hk hv
  refine ⟨?_, hreach.vote_cases hreplied, fun hne => ?_⟩
  · obtain ⟨call, hcall, rfl, rfl, hhandler⟩ := hreplied
    exact ⟨call, hcall, rfl, rfl, (hreach.caller hcall).2, hhandler⟩
  · exact hreach.released hreplied (hne.imp_right (by simpa using ·))

theorem votes_were_cast_booked :
    .voted "t" .prepareAndCommit 0 (some 0) ∈ booked.txn.log ∧
      Released "t" booked.space.log := by
  have hv : .voted "t" .prepareAndCommit 0 (some 0) ∈ booked.txn.log := by
    decide
  exact ⟨hv, (votes_were_cast booked_reachable rfl rfl hv).2.2 (.inl nofun)⟩

/-- In every run, what was written to the Space is in its store or has left it,
and nothing is counted twice. -/
theorem space_ledger (hreach : DjinnReachable config s) :
    let store := s.space.shared.store
    let calls := storeCalls s.space.log
    (inserted calls : Multiset TupleRecord) = store.records + departed calls ∧
      ((store.records + departed calls).map TupleRecord.tupleId).Nodup := by
  have hledger :=
    ((space_store_keeps config.space).holds hreach.space).1.run.ledgerRun
  intro store calls
  rw [← InMemorySpaceStore.map_snd_holdings_eq_records]
  exact ⟨hledger.balance, hledger.nodup_ids⟩

theorem space_ledger_booked :
    (inserted (storeCalls booked.space.log) : Multiset TupleRecord) =
      booked.space.shared.store.records +
        departed (storeCalls booked.space.log) :=
  (space_ledger booked_reachable).1

end Coordin8
