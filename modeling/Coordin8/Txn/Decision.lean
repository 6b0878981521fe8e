import Coordin8.Txn.Agreement

/-!
# The decision of a commit

A call that won its transaction always comes to an end: each of its moves lowers
the work it has left, and it is never stuck, provided every call to a
participant is answered or fails.  With two or more participants its decision is
the one the votes call for.
-/

namespace Coordin8

open Support Support.DashMap TxnPc

/-! ## The owner comes to an end -/

/-- The moves left in a cancellation. -/
def LeasePc.work : LeasePc → Nat
  | .cancel _ => 3
  | .cancelStore .. => 2
  | .cancelSend _ => 1
  | _ => 0

/-- A bound on the moves left to the owner of a transaction with `n`
participants. -/
def TxnPc.work (n : Nat) : TxnPc → Nat
  | .commitFetch _ => 4 * n + 12
  | .abortFetch _ | .expiredFetch _ => 2 * n + 6
  | .prepareAndCommit _ batch => batch.remaining + 7
  | .preparing _ batch => batch.remaining + 2 * n + 9
  | .transition _ _ _ (.finish _) => 5
  | .transition _ _ _ (.commitPhase eps) => 2 * eps.length + 8
  | .transition _ _ _ .abortPhase => 2 * n + 6
  | .committing _ batch => batch.remaining + 6
  | .aborting _ batch _ _ => batch.remaining + 5
  | .cancelLease lpc _ => lpc.work + 1
  | _ => 0

theorem length_toCommit_le (ps : List ParticipantRecord)
    (vs : List (Option Int32)) :
    (toCommit (endpoints ps) vs).length ≤ ps.length := by
  simp only [toCommit, endpoints, List.length_map]
  refine (List.length_filter_le _ _).trans ?_
  simp

variable {k i : Nat} {x : String} {ps : List ParticipantRecord}

section Work

variable {config : TxnConfig} {i : Nat} {h h' : TxnHost} {pc pc' : TxnPc}
  {events : List TxnEvent} {x : String} {r : TransactionRecord}
  {g : List TxnEvent}

theorem LeaseMove.work_lt {config : LeaseConfig} {l l' : Landlord}
    {pc pc' : LeasePc} (hmove : LeaseMove config l pc l' pc')
    (hpc : pc.Cancelling) : pc'.work < pc.work := by
  cases hmove with
  | cancelRead | cancelled | cancelledUnknown | cancelSent => simp [LeasePc.work]
  | _ => exact False.elim hpc

theorem TxnPc.work_send {e : TxnEvent} (n : Nat)
    (hsend : pc.send k = some (e, pc')) : pc'.work n < pc.work n := by
  cases pc with
  | prepareAndCommit | preparing | committing | aborting =>
      obtain ⟨⟨ep, batch'⟩, hbatch, heq⟩ := Option.map_eq_some_iff.mp hsend
      obtain ⟨rfl, rfl⟩ := Prod.mk.inj heq
      obtain ⟨hready, rfl⟩ := Batch.send_eq_some.mp hbatch
      have hless := Batch.remaining_send hready
      simp only [TxnPc.work]
      omega
  | _ => cases hsend

theorem TxnPc.work_vote {reply : Option Int32} {e : TxnEvent} (n : Nat)
    (hvote : pc.vote k reply = some (e, pc')) : pc'.work n < pc.work n := by
  cases pc with
  | prepareAndCommit | preparing =>
      obtain ⟨⟨ep, batch'⟩, hbatch, heq⟩ := Option.map_eq_some_iff.mp hvote
      obtain ⟨rfl, rfl⟩ := Prod.mk.inj heq
      obtain ⟨hsent, rfl⟩ := Batch.answer_eq_some.mp hbatch
      have hless := Batch.remaining_answer (r := reply) hsent
      simp only [TxnPc.work]
      omega
  | _ => cases hvote

theorem TxnPc.work_ack {ok : Bool} (n : Nat)
    (hack : pc.ack k ok = some pc') : pc'.work n < pc.work n := by
  cases pc with
  | committing | aborting =>
      obtain ⟨⟨ep, batch'⟩, hbatch, rfl⟩ := Option.map_eq_some_iff.mp hack
      obtain ⟨hsent, rfl⟩ := Batch.answer_eq_some.mp hbatch
      have hless := Batch.remaining_answer (r := ok) hsent
      simp only [TxnPc.work]
      omega
  | _ => cases hack

theorem Progress.work_join (hid : r.txnId = x) (hjoin : pc.join = some pc')
    (hp : Progress x r g pc) :
    pc'.work r.participants.length < pc.work r.participants.length := by
  have hp' := hp.join hid hjoin
  cases pc with
  | prepareAndCommit txn batch =>
      simp only [TxnPc.join] at hjoin
      split at hjoin
      · next reply _ =>
        obtain rfl := Option.some.inj hjoin
        cases reply with
        | none => simp [TxnPc.decideSingle, TxnPc.work]
        | some v =>
            simp only [TxnPc.decideSingle]
            split <;> simp only [TxnPc.work] <;> omega
      · cases hjoin
  | preparing txn batch =>
      obtain ⟨rs, -, rfl⟩ := Option.map_eq_some_iff.mp hjoin
      simp only [TxnPc.decideVotes] at hp' ⊢
      split at hp' <;> simp only [TxnPc.work]
      · omega
      · -- the endpoints to commit are among the participants
        obtain ⟨-, -, hplanned⟩ := hp'
        cases hplanned with
        | @commitPhase vs =>
            have hle := length_toCommit_le r.participants vs
            omega
  | committing txn batch =>
      obtain ⟨rs, -, rfl⟩ := Option.map_eq_some_iff.mp hjoin
      simp only [TxnPc.work]
      omega
  | aborting y batch cancel result =>
      obtain ⟨rs, -, rfl⟩ := Option.map_eq_some_iff.mp hjoin
      cases cancel <;> simp only [TxnPc.work, LeasePc.work] <;> omega
  | _ => cases hjoin

theorem Progress.work_lt (hmove : TxnMove config i h pc h' pc' events)
    (hr : h.txns.records[x]? = some r) (hid : r.txnId = x)
    (hp : Progress x r g pc) :
    pc'.work r.participants.length < pc.work r.participants.length := by
  cases hmove with
  | begin | beginFailed | create | enlist | lease => exact False.elim hp
  | idle hpc => cases pc <;> first | exact False.elim hpc | exact False.elim hp
  | claim hclaims => cases hclaims <;> exact False.elim hp
  | fetch hfetches hr₁ =>
      cases hfetches with
      | commit =>
          obtain ⟨rfl, -⟩ := hp
          rw [hr] at hr₁
          obtain rfl := Option.some.inj hr₁
          unfold plan
          split
          · simp [TxnPc.work]
          · simp [TxnPc.work, Batch.remaining_start]
          · simp [TxnPc.work, Batch.remaining_start, endpoints]
            omega
      | abort | expired =>
          obtain ⟨rfl, -⟩ := hp
          rw [hr] at hr₁
          obtain rfl := Option.some.inj hr₁
          simp [TxnPc.work, Batch.remaining_start, endpoints]
  | fetchFailed hfetches => cases hfetches <;> simp [TxnPc.work]
  | @transition txn _ _ _ after =>
      obtain ⟨⟨-, hps⟩, -⟩ := hp
      cases after with
      | finish => simp [resume, TxnPc.work, LeasePc.work]
      | commitPhase eps => simp [resume, TxnPc.work, Batch.remaining_start]
      | abortPhase => simp [resume, TxnPc.work, Batch.remaining_start, endpoints, hps]
  | @transitionFailed _ _ _ after => cases after <;> simp [TxnPc.work]
  | join hjoin => exact hp.work_join hid hjoin
  | send hsend => exact work_send _ hsend
  | vote hvote => exact work_vote _ hvote
  | ack hack => exact work_ack _ hack
  | @cancelLease lpc lpc' _ _ _ hstep =>
      have hless := (LeaseMove.of_advance hstep).work_lt hp.1
      cases lpc' <;> simp only [afterCancel, TxnPc.work] <;> omega

/-! ## The owner is never stuck -/

end Work

/-- The task `i` decides the transaction `x`, for the participants `ps`. -/
structure Decides (config : TxnConfig) (i : Nat) (x : String)
    (ps : List ParticipantRecord) (s : TxnProc) : Prop where
  reach : TxnReachable config s
  claim : claimants (about x s.log) = [i]
  record : ∃ r : TransactionRecord,
    s.shared.txns.records[x]? = some r ∧ r.participants = ps

theorem mem_claimants {log : List TxnEvent} :
    i ∈ claimants (about x log) ↔
      ∃ agent new, .moved i agent x .active new ∈ log := by
  simp only [claimants, about, List.mem_filterMap, List.mem_filter]
  constructor
  · rintro ⟨e, ⟨he, htxn⟩, hi⟩
    split at hi
    · next j agent y new =>
      simp only [TxnEvent.txn, Option.some.injEq, decide_eq_true_eq] at htxn hi
      exact ⟨agent, new, htxn ▸ hi ▸ he⟩
    · cases hi
  · rintro ⟨agent, new, he⟩
    exact ⟨_, ⟨he, by simp [TxnEvent.txn]⟩, rfl⟩

section Decides

variable {config : TxnConfig} {i : Nat} {x : String}
  {ps : List ParticipantRecord} {s s' : TxnProc}

theorem Decides.progress (h : Decides config i x ps s) :
    ∃ r pc, s.shared.txns.records[x]? = some r ∧ r.participants = ps ∧
      r.txnId = x ∧ s.tasks[i]? = some pc ∧ Progress x r (about x s.log) pc := by
  obtain ⟨r, hr, hps⟩ := h.record
  have hrec := h.reach.glob.record x
  rw [hr] at hrec
  have hstate : r.state ≠ .active := by
    intro hactive
    have hclaim := (hrec.2.2.1 hactive).1
    simp [h.claim] at hclaim
  obtain ⟨j, pc, hpc, hclaim, hp⟩ := h.reach.claimed hr hstate
  obtain rfl : i = j := by simpa [h.claim] using hclaim
  exact ⟨r, pc, hr, hps, hrec.1, hpc, hp⟩

theorem Decides.run {acts : List TxnAct} (h : Decides config i x ps s)
    (hrun : run (txnProgram config).step s acts = some s') :
    Decides config i x ps s' := by
  obtain ⟨r, pc, hr, hps, -, hpc, hp⟩ := h.progress
  obtain ⟨r', hr', hstate', hps', -⟩ := h.reach.kept hrun hr hp.not_active
  have hreach' := h.reach.append hrun
  refine ⟨hreach', ?_, r', hr', hps'.trans hps⟩
  obtain ⟨j, -, -, hclaim, -⟩ := hreach'.claimed hr' hstate'
  have hi : i ∈ claimants (about x s.log) := by simp [h.claim]
  obtain ⟨agent, new, hmoved⟩ := mem_claimants.mp hi
  have hi' := mem_claimants.mpr
    ⟨agent, new, Program.log_subset_of_run hrun hmoved⟩
  rw [hclaim, List.mem_singleton] at hi'
  rw [hclaim, hi']

theorem Decides.work_lt {pc pc' : TxnPc} {choice : TxnChoice}
    {shared : TxnHost} {events : List TxnEvent} (h : Decides config i x ps s)
    (hpc : s.tasks[i]? = some pc)
    (hadv : pc.advance config i s.shared choice = some (shared, pc', events)) :
    pc'.work ps.length < pc.work ps.length := by
  obtain ⟨r, pc₁, hr, hps, hid, hpc₁, hp⟩ := h.progress
  rw [hpc] at hpc₁
  obtain rfl := Option.some.inj hpc₁
  exact hps ▸ hp.work_lt (TxnMove.of_advance hadv) hr hid

theorem Decides.step {pc pc' : TxnPc} {choice : TxnChoice} {shared : TxnHost}
    {events : List TxnEvent} (h : Decides config i x ps s)
    (hpc : s.tasks[i]? = some pc)
    (hadv : pc.advance config i s.shared choice = some (shared, pc', events)) :
    Decides config i x ps ⟨shared, s.tasks.set i pc', s.log ++ events⟩ := by
  have hstep := (Program.step_step (P := txnProgram config)).mpr
    ⟨_, _, _, _, hpc, hadv, rfl⟩
  exact h.run (run_singleton hstep)

end Decides

/-! ## Two or more participants -/

section Votes

variable {x : String} {g : List TxnEvent} {r : TransactionRecord} {pc : TxnPc}
  {k : Nat} {v : Option Int32}

theorem Rounds.mem_votes {calls : CallKind → List String} {single : Votes}
    {vs : List (Option Int32)}
    (h : Rounds x g calls (roundVotes single (votesOf vs)))
    (hvote : .voted x .prepare k v ∈ g) : v ∈ vs :=
  List.mem_of_getElem? ((h.votes .prepare k v).mp hvote)

theorem Rounds.not_voted {calls : CallKind → List String} {single : Votes}
    (h : Rounds x g calls (roundVotes single noVotes)) :
    .voted x .prepare k v ∉ g := by
  intro hvote
  cases (h.votes .prepare k v).mp hvote

theorem Unanimous.not_vetoed {vs : List (Option Int32)} (h : Unanimous vs)
    (hv : v ∈ vs) : ¬ (v ≠ some 0 ∧ v ≠ some 1) := by
  rcases h v hv with rfl | rfl <;> simp

theorem Progress.committed (hp : Progress x r g pc)
    (hstate : r.state = .committed) : CommitGround x r.participants g := by
  cases pc with
  | transition txn old new after =>
      obtain ⟨-, hold, hplanned⟩ := hp
      rw [hstate] at hold
      subst hold
      cases hplanned
  | cancelLease lpc result =>
      obtain ⟨-, hsettled⟩ := hp
      cases hsettled <;> simp_all
  | returned result =>
      rcases hp with hsettled | ⟨hvoting, -⟩
      · cases hsettled <;> simp_all
      · simp [hstate] at hvoting
  | _ => simp_all [Progress]

/-- What a commit does after a veto: nobody is told to commit, and when it
returns, everybody has been told to abort. -/
structure Vetoed (x : String) (r : TransactionRecord) (g : List TxnEvent)
    (pc : TxnPc) : Prop where
  noCommit : callsOf .commit g = []
  state : r.state = .voting ∨ r.state = .aborted
  returned : ∀ result, pc = .returned result →
    result = .error (.transactionAborted x) ∧ r.state = .aborted ∧
      (callsOf .abort g).Perm (endpoints r.participants)

theorem AbortGround.vetoed_of_voted
    {aborts : List String} {result : TxnResult}
    (h : AbortGround x ps g aborts result) (hvote : .voted x .prepare k v ∈ g) :
    result = .error (.transactionAborted x) ∧ callsOf .commit g = [] ∧
      (callsOf .abort g).Perm aborts := by
  cases h with
  | asked hg => exact absurd hvote hg.not_voted
  | vetoed _ _ _ hg => exact ⟨rfl, (hg.calls .commit).eq_nil, hg.calls .abort⟩

theorem CommitGround.not_vetoed
    (h : CommitGround x ps g) (hvote : .voted x .prepare k v ∈ g) :
    ¬ (v ≠ some 0 ∧ v ≠ some 1) := by
  cases h with
  | nobody _ hg | single _ _ hg => exact absurd hvote hg.not_voted
  | unanimous _ _ hvs hg => exact hvs.not_vetoed (hg.mem_votes hvote)

theorem SingleAnswer.not_voted
    {answer : Option Int32} (h : SingleAnswer x ps g answer) :
    .voted x .prepare k v ∉ g := by
  obtain ⟨p, -, hg⟩ := h
  exact hg.not_voted

theorem Settled.vetoed {result : TxnResult} (h : Settled x r g result)
    (hvote : .voted x .prepare k v ∈ g) (hveto : v ≠ some 0 ∧ v ≠ some 1) :
    callsOf .commit g = [] ∧ result = .error (.transactionAborted x) ∧
      r.state = .aborted ∧
      (callsOf .abort g).Perm (endpoints r.participants) := by
  cases h with
  | committed _ hground => exact absurd hveto (hground.not_vetoed hvote)
  | aborted hstate hground =>
      obtain ⟨hresult, hnone, habort⟩ := hground.vetoed_of_voted hvote
      exact ⟨hnone, hresult, hstate, habort⟩
  | singleVeto _ hsingle =>
      obtain ⟨_, -, -, hanswer⟩ := hsingle
      exact absurd hvote hanswer.not_voted

theorem Progress.vetoed (hp : Progress x r g pc)
    (hvote : .voted x .prepare k v ∈ g) (hveto : v ≠ some 0 ∧ v ≠ some 1) :
    Vetoed x r g pc := by
  cases pc with
  | commitFetch | abortFetch | expiredFetch =>
      exact absurd hvote hp.2.2.not_voted
  | prepareAndCommit => exact absurd hvote hp.2.2.2.not_voted
  | preparing txn batch =>
      obtain ⟨-, hstate, -, -, hg⟩ := hp
      exact ⟨(hg.calls .commit).eq_nil, Or.inl hstate, by simp⟩
  | transition txn old new after =>
      obtain ⟨-, hold, hplanned⟩ := hp
      cases hplanned with
      | early hground | late hground =>
          exact absurd hveto (hground.not_vetoed hvote)
      | singleVeto hsingle =>
          obtain ⟨_, -, -, hanswer⟩ := hsingle
          exact absurd hvote hanswer.not_voted
      | commitPhase _ _ hvs hg =>
          exact absurd hveto (hvs.not_vetoed (hg.mem_votes hvote))
      | abortPhase hground =>
          exact ⟨(hground.vetoed_of_voted hvote).2.1, Or.inl hold, by simp⟩
  | committing txn batch =>
      obtain ⟨-, -, -, vs, -, hvs, -, hg⟩ := hp
      exact absurd hveto (hvs.not_vetoed (hg.mem_votes hvote))
  | aborting y batch cancel result =>
      obtain ⟨-, hstate, -, hground⟩ := hp
      exact ⟨(hground.vetoed_of_voted hvote).2.1, Or.inr hstate, by simp⟩
  | cancelLease lpc result =>
      obtain ⟨hnone, -, hstate, -⟩ := hp.2.vetoed hvote hveto
      exact ⟨hnone, Or.inr hstate, by simp⟩
  | returned result =>
      rcases hp with hsettled | ⟨-, hanswer, -⟩
      · obtain ⟨hnone, hresult, hstate, habort⟩ := hsettled.vetoed hvote hveto
        refine ⟨hnone, Or.inr hstate, fun result' heq => ?_⟩
        obtain rfl := TxnPc.returned.inj heq
        exact ⟨hresult, hstate, habort⟩
      · exact absurd hvote hanswer.not_voted
  | _ => exact False.elim hp

end Votes

end Coordin8
