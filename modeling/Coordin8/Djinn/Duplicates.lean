import Coordin8.Djinn.Copies
import Coordin8.Djinn.Stranded

/-!
# A commit with the Space enlisted any number of times

`Stage` says how far the commit of a transaction has come whose participants are
all the Space, and what the Space has made of the calls so far.  Every step of
the commit and of its calls leads from stage to stage, and there are only
finitely many (`Stages.step`); the last stage does not depend on the number of
participants.
-/

namespace Coordin8

open Support Support.DashMap

/-! ## Stages -/

/-- How many moves the commit is from its end, at most, with `n`
participants. -/
def TxnPc.ahead (n : Nat) : TxnPc → Nat
  | .commit _ => 4 * n + 9
  | .commitFetch _ => 4 * n + 8
  | .prepareAndCommit _ batch => batch.remaining + 2 * n + 7
  | .preparing _ batch => batch.remaining + 2 * n + 7
  | .transition _ _ _ (.commitPhase eps) => 2 * eps.length + 6
  | .committing _ batch => batch.remaining + 5
  | .transition _ _ _ (.finish _) => 4
  | .cancelLease pc _ => pc.ahead
  | _ => 0

/-- The record of the transaction in the given state. -/
def TransactionRecord.during (r : TransactionRecord)
    (ps : List ParticipantRecord) (state : TransactionState) :
    TransactionRecord :=
  { r with participants := ps, state := state }

/-- The coordinator has the transaction in the given state, and its lease. -/
structure HoldsTxn (t : TxnHost) (r : TransactionRecord)
    (ps : List ParticipantRecord) (state : TransactionState) (h : TxnHost) :
    Prop where
  record : h.txns.records[r.txnId]? = some (r.during ps state)
  landlord : h.landlord = t.landlord

/-- Every call is answered, and the Space is as after one commit. -/
structure CommittedOnce (h₀ : SpaceHost) (x : String) (s : Djinn) : Prop where
  answered : ∀ call ∈ s.calls, call.Answered s.space
  outcome : s.space.shared = h₀.committed x

/-- Where the commit stands. -/
inductive Stage (endpoint : String) (t : TxnHost) (h₀ : SpaceHost)
    (r : TransactionRecord) (ps : List ParticipantRecord) (s : Djinn) :
    TxnPc → Prop where
  | commit (hholds : HoldsTxn t r ps .active s.txn.shared) (hcalls : s.calls = []) :
      Stage endpoint t h₀ r ps s (.commit r.txnId)
  | fetch (hholds : HoldsTxn t r ps .voting s.txn.shared) (hcalls : s.calls = []) :
      Stage endpoint t h₀ r ps s (.commitFetch r.txnId)
  | single {b : Batch String (Option Int32)}
      (hholds : HoldsTxn t r ps .voting s.txn.shared)
      (hkinds : ∀ call ∈ s.calls, call.kind = .prepareAndCommit)
      (hlength : b.length = 1)
      (hb : Calling endpoint .prepareAndCommit (some (h₀.vote r.txnId)) b s) :
      Stage endpoint t h₀ r ps s (.prepareAndCommit (r.during ps .voting) b)
  | preparing {b : Batch String (Option Int32)}
      (hholds : HoldsTxn t r ps .voting s.txn.shared)
      (hkinds : ∀ call ∈ s.calls, call.kind = .prepare)
      (hlength : b.length = ps.length)
      (hb : Calling endpoint .prepare (some (h₀.vote r.txnId)) b s) :
      Stage endpoint t h₀ r ps s (.preparing (r.during ps .voting) b)
  | decided {eps : List String} (hholds : HoldsTxn t r ps .voting s.txn.shared)
      (hkinds : ∀ call ∈ s.calls, call.kind = .prepare)
      (hanswered : ∀ call ∈ s.calls, call.Answered s.space)
      (hlength : eps.length ≤ ps.length) (heps : ∀ ep ∈ eps, ep = endpoint)
      (hhas : eps ≠ [] ↔ h₀.store.hasTxn r.txnId = true) :
      Stage endpoint t h₀ r ps s
        (.transition (r.during ps .voting) .voting .prepared (.commitPhase eps))
  | committing {b : Batch String Bool}
      (hholds : HoldsTxn t r ps .prepared s.txn.shared)
      (hkinds : ∀ call ∈ s.calls, call.kind = .commit ∨
        call.kind = .prepare ∧ call.Answered s.space)
      (hhas : b ≠ [] ↔ h₀.store.hasTxn r.txnId = true)
      (hb : Calling endpoint .commit true b s) :
      Stage endpoint t h₀ r ps s (.committing (r.during ps .voting) b)
  | finishing {old : TransactionState}
      (hholds : HoldsTxn t r ps old s.txn.shared)
      (hsettled : CommittedOnce h₀ r.txnId s) :
      Stage endpoint t h₀ r ps s
        (.transition (r.during ps .voting) old .committed (.finish (.ok .unit)))
  | cancelling {lpc : LeasePc} (hlpc : lpc.Cancelling)
      (hrecord : s.txn.shared.txns.records[r.txnId]? =
        some (r.during ps .committed))
      (hlandlord : lpc.finish s.txn.shared.landlord =
        t.landlord.cancel r.leaseId)
      (hsettled : CommittedOnce h₀ r.txnId s) :
      Stage endpoint t h₀ r ps s (.cancelLease lpc (.ok .unit))
  | returned
      (hrecord : s.txn.shared.txns.records[r.txnId]? =
        some (r.during ps .committed))
      (hlandlord : s.txn.shared.landlord = t.landlord.cancel r.leaseId)
      (hsettled : CommittedOnce h₀ r.txnId s) :
      Stage endpoint t h₀ r ps s (.returned (.ok .unit))

/-- The commit is the only task of the coordinator. -/
def Stages (endpoint : String) (t : TxnHost) (h₀ : SpaceHost)
    (r : TransactionRecord) (ps : List ParticipantRecord) (s : Djinn) : Prop :=
  ∃ pc kinds, s.txn.tasks = [pc] ∧ Linked h₀ r.txnId kinds s.calls s.space ∧
    Stage endpoint t h₀ r ps s pc

/-- What is still to be done: by the coordinator, by calls under way, and by
the Space. -/
def Djinn.ahead (n bound : Nat) (s : Djinn) : Nat × Nat × Nat :=
  ((s.txn.tasks.map (TxnPc.ahead n)).sum,
    (s.calls.map fun call => if call.handler.isSome then 0 else 1).sum,
    (s.space.tasks.map (SpacePc.ahead bound)).sum)

/-! ## Moves of the coordinator -/

/-- The call of the batch that a move is about. -/
def TxnChoice.slot : TxnChoice → Option Nat
  | .send k | .vote k _ | .ack k _ => some k
  | _ => none

section Coordinator

variable {config : TxnConfig} {i k : Nat} {h h' : TxnHost} {pc pc' : TxnPc}
  {choice : TxnChoice} {events : List TxnEvent}

theorem TxnPc.of_bind_stay {next : Option TxnPc}
    (hadv : next.bind (TxnPc.stay h) = some (h', pc, events)) :
    next = some pc ∧ h' = h := by
  obtain ⟨pc₁, hnext, heq⟩ := Option.bind_eq_some_iff.mp hadv
  simp only [TxnPc.stay, Option.some.injEq, Prod.mk.injEq] at heq
  obtain ⟨rfl, rfl, -⟩ := heq
  exact ⟨hnext, rfl⟩

theorem TxnPc.callee_of_slot (hslot : choice.slot = some k)
    (hadv : pc.advance config i h choice = some (h', pc', events)) :
    ∃ ep, pc.callee k = some ep := by
  cases choice with
  | go | uuids | lease => cases hslot
  | send =>
      obtain rfl := Option.some.inj hslot
      obtain ⟨⟨e, pc₁⟩, hsend, -⟩ := Option.map_eq_some_iff.mp hadv
      obtain ⟨x, kind, ep, rfl⟩ := TxnPc.send_event hsend
      exact ⟨ep, TxnPc.callee_of_send hsend⟩
  | vote =>
      obtain rfl := Option.some.inj hslot
      obtain ⟨⟨e, pc₁⟩, hvote, -⟩ := Option.map_eq_some_iff.mp hadv
      cases pc with
      | prepareAndCommit | preparing =>
          obtain ⟨⟨ep, b⟩, hanswer, -⟩ := Option.map_eq_some_iff.mp hvote
          exact ⟨ep, by simp [callee, (Batch.answer_eq_some.mp hanswer).1]⟩
      | _ => cases hvote
  | ack =>
      obtain rfl := Option.some.inj hslot
      obtain ⟨pc₁, hack, -⟩ := Option.map_eq_some_iff.mp hadv
      cases pc with
      | committing | aborting =>
          obtain ⟨⟨ep, b⟩, hanswer, -⟩ := Option.map_eq_some_iff.mp hack
          exact ⟨ep, by simp [callee, (Batch.answer_eq_some.mp hanswer).1]⟩
      | _ => cases hack

/-- When all calls of the batch go to the Space, the coordinator's own moves are
about none of them. -/
theorem TxnProc.slot_eq_none {s : TxnProc} {endpoint : String}
    (hpc : s.tasks[i]? = some pc)
    (hcallee : ∀ k ep, pc.callee k = some ep → ep = endpoint)
    (hfree : s.calling endpoint (.step i choice) = false)
    (hadv : pc.advance config i h choice = some (h', pc', events)) :
    choice.slot = none := by
  cases hslot : choice.slot with
  | none => rfl
  | some k =>
      obtain ⟨ep, hep⟩ := TxnPc.callee_of_slot hslot hadv
      obtain rfl := hcallee k ep hep
      cases choice <;> cases hslot <;>
        simp [TxnProc.calling, hpc, hep] at hfree

theorem HoldsTxn.updateStateIf {t : TxnHost} {r : TransactionRecord}
    {ps : List ParticipantRecord} {old : TransactionState}
    (hholds : HoldsTxn t r ps old h) (new : TransactionState) :
    ∃ txns, h.txns.updateStateIf r.txnId old new = .ok (true, txns) ∧
      HoldsTxn t r ps new { h with txns := txns } := by
  refine ⟨⟨h.txns.records.insert r.txnId (r.during ps new)⟩, ?_, ?_, ?_⟩
  · simp [InMemoryTxnStore.updateStateIf, hholds.record,
      TransactionRecord.during]
  · simp
  · exact hholds.landlord

theorem countVotes_replicate (eps : List String) (n : Nat) (ep : String)
    (v : Int32) (hv : v = 0 ∨ v = 1) :
    TxnPc.countVotes eps (List.replicate n (ep, some v)) =
      some (if v = 0 then eps ++ List.replicate n ep else eps) := by
  induction n generalizing eps with
  | zero => simp [TxnPc.countVotes]
  | succ n ih =>
      rcases hv with rfl | rfl <;>
        simp [List.replicate_succ, TxnPc.countVotes, voteFromI32, ih]

end Coordinator

theorem SpaceHost.vote_cases (h : SpaceHost) (x : String) :
    (h.store.hasTxn x = true ∧ h.vote x = 0) ∨
      (h.store.hasTxn x = false ∧ h.vote x = 1) := by
  cases hhas : h.store.hasTxn x <;> simp [SpaceHost.vote, hhas]

namespace Stage

variable {config : DjinnConfig} {t : TxnHost} {h₀ : SpaceHost}
  {r : TransactionRecord} {ps : List ParticipantRecord} {s : Djinn}
  {pc pc' : TxnPc} {kinds : List CallKind} {choice : TxnChoice}
  {txn : TxnProc} {events : List TxnEvent}

theorem join_single {b : Batch String (Option Int32)}
    (hholds : HoldsTxn t r ps .voting s.txn.shared)
    (hkinds : ∀ call ∈ s.calls, call.kind = .prepareAndCommit)
    (hlength : b.length = 1)
    (hb : Calling config.endpoint .prepareAndCommit
      (some (h₀.vote r.txnId)) b s)
    (hl : Linked h₀ r.txnId kinds s.calls s.space)
    (hjoin : TxnPc.join (.prepareAndCommit (r.during ps .voting) b) = some pc')
    (htxn : txn.shared = s.txn.shared) :
    Stage config.endpoint t h₀ r ps { s with txn := txn } pc' ∧
      pc'.ahead ps.length = 4 := by
  simp only [TxnPc.join] at hjoin
  cases hrs : b.results with
  | none => simp [hrs] at hjoin
  | some rs =>
      obtain ⟨rfl, hanswered, hcalled⟩ := hb.complete hrs
      obtain rfl : pc' = .transition (r.during ps .voting) .voting .committed
          (.finish (.ok .unit)) := by
        rw [hrs, hlength] at hjoin
        rcases h₀.vote_cases r.txnId with ⟨-, hv⟩ | ⟨-, hv⟩ <;> rw [hv] at hjoin <;>
          exact (Option.some.inj hjoin).symm
      refine ⟨.finishing ⟨htxn ▸ hholds.record, htxn ▸ hholds.landlord⟩ ⟨?_, ?_⟩,
        rfl⟩
      · exact fun call hcall => hanswered call hcall (hkinds call hcall)
      · refine hl.outcome
          (fun call hcall => hanswered call hcall (hkinds call hcall)) fun _ => ?_
        obtain ⟨call, hcall, hkind⟩ :=
          hcalled (List.length_pos_iff.mp (hlength ▸ Nat.zero_lt_one))
        exact ⟨call, hcall, by simp [hkind]⟩

theorem join_preparing {b : Batch String (Option Int32)} (hps : ps ≠ [])
    (hholds : HoldsTxn t r ps .voting s.txn.shared)
    (hkinds : ∀ call ∈ s.calls, call.kind = .prepare)
    (hlength : b.length = ps.length)
    (hb : Calling config.endpoint .prepare (some (h₀.vote r.txnId)) b s)
    (hjoin : TxnPc.join (.preparing (r.during ps .voting) b) = some pc')
    (htxn : txn.shared = s.txn.shared) :
    Stage config.endpoint t h₀ r ps { s with txn := txn } pc' ∧
      pc'.ahead ps.length ≤ 2 * ps.length + 6 := by
  obtain ⟨rs, hrs, rfl⟩ := Option.map_eq_some_iff.mp hjoin
  obtain ⟨rfl, hanswered, -⟩ := hb.complete hrs
  have hvote : h₀.vote r.txnId = 0 ∨ h₀.vote r.txnId = 1 :=
    (h₀.vote_cases r.txnId).imp And.right And.right
  rw [TxnPc.decideVotes, countVotes_replicate _ _ _ _ hvote, hlength,
    List.nil_append]
  have hholds' : HoldsTxn t r ps .voting txn.shared :=
    ⟨htxn ▸ hholds.record, htxn ▸ hholds.landlord⟩
  have hanswered' : ∀ call ∈ s.calls, call.Answered s.space :=
    fun call hcall => hanswered call hcall (hkinds call hcall)
  rcases h₀.vote_cases r.txnId with ⟨hhas, hv⟩ | ⟨hhas, hv⟩
  · rw [hv, if_pos rfl]
    refine ⟨.decided hholds' hkinds hanswered' (by simp) ?_ ?_, by
      simp [TxnPc.ahead]⟩
    · exact fun ep hep => List.eq_of_mem_replicate hep
    · simp [hhas, hps]
  · rw [hv, if_neg (by decide)]
    refine ⟨.decided hholds' hkinds hanswered' (by simp) (by simp) ?_, by
      simp [TxnPc.ahead]⟩
    simp [hhas]

theorem join_committing {b : Batch String Bool}
    (hholds : HoldsTxn t r ps .prepared s.txn.shared)
    (hkinds : ∀ call ∈ s.calls, call.kind = .commit ∨
      call.kind = .prepare ∧ call.Answered s.space)
    (hhas : b ≠ [] ↔ h₀.store.hasTxn r.txnId = true)
    (hb : Calling config.endpoint .commit true b s)
    (hl : Linked h₀ r.txnId kinds s.calls s.space)
    (hjoin : TxnPc.join (.committing (r.during ps .voting) b) = some pc')
    (htxn : txn.shared = s.txn.shared) :
    Stage config.endpoint t h₀ r ps { s with txn := txn } pc' ∧
      pc'.ahead ps.length = 4 := by
  obtain ⟨rs, hrs, rfl⟩ := Option.map_eq_some_iff.mp hjoin
  obtain ⟨-, hanswered, hcalled⟩ := hb.complete hrs
  have hall : ∀ call ∈ s.calls, call.Answered s.space := by
    intro call hcall
    rcases hkinds call hcall with hkind | ⟨-, hdone⟩
    · exact hanswered call hcall hkind
    · exact hdone
  refine ⟨.finishing ⟨htxn ▸ hholds.record, htxn ▸ hholds.landlord⟩
    ⟨hall, hl.outcome hall fun h => ?_⟩, rfl⟩
  obtain ⟨call, hcall, hkind⟩ := hcalled (hhas.mpr h)
  exact ⟨call, hcall, by simp [hkind]⟩

theorem fetched (hps : ps ≠ [])
    (hcopies : ∀ p ∈ ps, p.endpoint = config.endpoint)
    (hholds : HoldsTxn t r ps .voting txn.shared) (hcalls : s.calls = []) :
    Stage config.endpoint t h₀ r ps { s with txn := txn }
        (TxnPc.plan (r.during ps .voting)) ∧
      (TxnPc.plan (r.during ps .voting)).ahead ps.length <
        4 * ps.length + 8 := by
  have hnone : ∀ kind : CallKind, ∀ call ∈ s.calls, call.kind ≠ kind := by
    simp [hcalls]
  have heps : ∀ ep ∈ endpoints ps, ep = config.endpoint := by
    intro ep hep
    obtain ⟨p, hp, rfl⟩ := List.mem_map.mp hep
    exact hcopies p hp
  match ps, hps with
  | [p], _ =>
      refine ⟨.single hholds (by simp [hcalls]) rfl (.start heps (hnone _)), ?_⟩
      simp [TxnPc.plan, TransactionRecord.during, TxnPc.ahead, Batch.start,
        Batch.remaining]
  | p :: q :: ps, _ =>
      refine ⟨.preparing hholds (by simp [hcalls]) ?_
        (.start heps (hnone _)), ?_⟩
      · simp [Batch.start, endpoints]
      · simp only [TxnPc.plan, TransactionRecord.during, TxnPc.ahead,
          Batch.remaining_start, endpoints, List.length_map]
        omega

theorem cancel {lpc : LeasePc} {c : LeaseChoice} (hlpc : lpc.Cancelling)
    (hrecord : s.txn.shared.txns.records[r.txnId]? =
      some (r.during ps .committed))
    (hlandlord : lpc.finish s.txn.shared.landlord = t.landlord.cancel r.leaseId)
    (hsettled : CommittedOnce h₀ r.txnId s)
    (hstep : TxnPc.leaseStep config.txn s.txn.shared c
      (.cancelLease lpc (.ok .unit)) = some (txn.shared, pc', events)) :
    Stage config.endpoint t h₀ r ps { s with txn := txn } pc' ∧
      pc'.ahead ps.length <
        (TxnPc.cancelLease lpc (.ok .unit)).ahead ps.length := by
  obtain ⟨⟨landlord, lpc'⟩, hadv, heq⟩ := Option.map_eq_some_iff.mp hstep
  simp only [Prod.mk.injEq] at heq
  obtain ⟨hshared, rfl, -⟩ := heq
  have hmove := LeaseMove.of_advance hadv
  obtain ⟨hfinish, hahead⟩ := hmove.finish hlpc
  have hrecord' : txn.shared.txns.records[r.txnId]? =
      some (r.during ps .committed) := hshared ▸ hrecord
  have hlandlord' : lpc'.finish txn.shared.landlord =
      t.landlord.cancel r.leaseId := by
    rw [← hshared]
    exact hfinish.trans hlandlord
  have hsettled' : CommittedOnce h₀ r.txnId { s with txn := txn } :=
    ⟨hsettled.answered, hsettled.outcome⟩
  rcases hmove.cancelling hlpc with hlpc' | ⟨result, rfl⟩
  · have hafter : TxnPc.afterCancel (.ok .unit) lpc' =
        .cancelLease lpc' (.ok .unit) := by
      cases lpc' with
      | cancel | cancelStore | cancelSend => rfl
      | _ => exact hlpc'.elim
    rw [hafter]
    exact ⟨.cancelling hlpc' hrecord' hlandlord' hsettled', hahead⟩
  · exact ⟨.returned hrecord' hlandlord' hsettled', Nat.zero_lt_of_lt hahead⟩

theorem advance (hstage : Stage config.endpoint t h₀ r ps s pc)
    (hl : Linked h₀ r.txnId kinds s.calls s.space) (hps : ps ≠ [])
    (hcopies : ∀ p ∈ ps, p.endpoint = config.endpoint)
    (hslot : choice.slot = none)
    (hadv : pc.advance config.txn 0 s.txn.shared choice =
      some (txn.shared, pc', events)) :
    Stage config.endpoint t h₀ r ps { s with txn := txn } pc' ∧
      pc'.ahead ps.length < pc.ahead ps.length := by
  have hgo : (∀ lpc result, pc ≠ .cancelLease lpc result) → choice = .go := by
    intro hne
    cases choice with
    | go => rfl
    | send | vote | ack => cases hslot
    | uuids => cases hstage <;> cases hadv
    | lease => cases hstage <;> first | cases hadv | exact absurd rfl (hne _ _)
  cases hstage with
  | commit hholds hcalls =>
      obtain rfl := hgo (by simp)
      obtain ⟨txns, hupdate, hholds'⟩ := hholds.updateStateIf .voting
      simp only [TxnPc.advance, TxnPc.go, TxnPc.claim, hupdate,
        Option.some.injEq, Prod.mk.injEq] at hadv
      obtain ⟨hshared, rfl, -⟩ := hadv
      exact ⟨.fetch (hshared ▸ hholds') hcalls, by simp [TxnPc.ahead]⟩
  | fetch hholds hcalls =>
      obtain rfl := hgo (by simp)
      simp only [TxnPc.advance, TxnPc.go, TxnPc.fetch, InMemoryTxnStore.get,
        hholds.record, TxnPc.stay, Option.some.injEq, Prod.mk.injEq] at hadv
      obtain ⟨hshared, rfl, -⟩ := hadv
      exact fetched hps hcopies (hshared ▸ hholds) hcalls
  | single hholds hkinds hlength hb =>
      obtain rfl := hgo (by simp)
      obtain ⟨hjoin, hshared⟩ := TxnPc.of_bind_stay hadv
      obtain ⟨hstage', hahead⟩ :=
        join_single hholds hkinds hlength hb hl hjoin hshared
      refine ⟨hstage', ?_⟩
      rw [hahead]
      simp only [TxnPc.ahead]
      omega
  | preparing hholds hkinds hlength hb =>
      obtain rfl := hgo (by simp)
      obtain ⟨hjoin, hshared⟩ := TxnPc.of_bind_stay hadv
      obtain ⟨hstage', hahead⟩ :=
        join_preparing hps hholds hkinds hlength hb hjoin hshared
      refine ⟨hstage', Nat.lt_of_le_of_lt hahead ?_⟩
      simp only [TxnPc.ahead]
      omega
  | decided hholds hkinds hanswered hlength heps hhas =>
      obtain rfl := hgo (by simp)
      obtain ⟨txns, hupdate, hholds'⟩ := hholds.updateStateIf .prepared
      have hupdate' : s.txn.shared.txns.updateStateIf
          (r.during ps .voting).txnId .voting .prepared = .ok (true, txns) :=
        hupdate
      simp only [TxnPc.advance, TxnPc.go, hupdate', TxnPc.resume,
        Option.some.injEq, Prod.mk.injEq] at hadv
      obtain ⟨hshared, rfl, -⟩ := hadv
      refine ⟨.committing (hshared ▸ hholds') ?_ ?_ ?_, ?_⟩
      · exact fun call hcall =>
          Or.inr ⟨hkinds call hcall, hanswered call hcall⟩
      · rw [← hhas]
        simp [Batch.start]
      · exact .start heps fun call hcall => by simp [hkinds call hcall]
      · simp [TxnPc.ahead, Batch.remaining_start]
  | committing hholds hkinds hhas hb =>
      obtain rfl := hgo (by simp)
      obtain ⟨hjoin, hshared⟩ := TxnPc.of_bind_stay hadv
      obtain ⟨hstage', hahead⟩ :=
        join_committing hholds hkinds hhas hb hl hjoin hshared
      refine ⟨hstage', ?_⟩
      rw [hahead]
      simp only [TxnPc.ahead]
      omega
  | @finishing old hholds hsettled =>
      obtain rfl := hgo (by simp)
      obtain ⟨txns, hupdate, hholds'⟩ := hholds.updateStateIf .committed
      have hupdate' : s.txn.shared.txns.updateStateIf
          (r.during ps .voting).txnId old .committed = .ok (true, txns) :=
        hupdate
      simp only [TxnPc.advance, TxnPc.go, hupdate', TxnPc.resume,
        Option.some.injEq, Prod.mk.injEq] at hadv
      obtain ⟨hshared, rfl, -⟩ := hadv
      refine ⟨.cancelling (show (LeasePc.cancel _).Cancelling from trivial)
        (hshared ▸ hholds'.record) ?_ ⟨hsettled.answered, hsettled.outcome⟩,
        by simp [TxnPc.ahead, LeasePc.ahead]⟩
      rw [← hshared]
      simp only [LeasePc.finish, TransactionRecord.during, hholds.landlord]
  | cancelling hlpc hrecord hlandlord hsettled =>
      cases choice with
      | go | uuids => cases hadv
      | send | vote | ack => cases hslot
      | lease c => exact cancel hlpc hrecord hlandlord hsettled hadv
  | returned => cases choice <;> cases hadv

/-! ### Calls go out and come back -/

theorem callee {k : Nat} {ep : String}
    (hstage : Stage config.endpoint t h₀ r ps s pc)
    (hep : pc.callee k = some ep) : ep = config.endpoint := by
  cases hstage with
  | single _ _ _ hb | preparing _ _ _ hb | committing _ _ _ hb =>
      obtain ⟨⟨ep', slot⟩, hk, rfl⟩ := Option.map_eq_some_iff.mp hep
      exact hb.targets k ep' slot hk
  | _ => cases hep

theorem send {k : Nat} {x ep : String} {kind : CallKind} {calls : List SpaceCall}
    (hstage : Stage config.endpoint t h₀ r ps s pc)
    (hsend : pc.send k = some (.called x kind ep, pc'))
    (htxn : txn.shared = s.txn.shared)
    (hcalls : calls = s.calls ++ [⟨0, k, kind, x, none⟩]) :
    Stage config.endpoint t h₀ r ps { s with txn := txn, calls := calls } pc' ∧
      pc'.ahead ps.length < pc.ahead ps.length ∧ x = r.txnId ∧
      ∀ call ∈ s.calls, call.kind = kind → call.slot ≠ k := by
  have hholds : ∀ {state}, HoldsTxn t r ps state s.txn.shared →
      HoldsTxn t r ps state txn.shared :=
    fun h => ⟨htxn ▸ h.record, htxn ▸ h.landlord⟩
  subst hcalls
  cases hstage with
  | single hh hkinds hlength hb | preparing hh hkinds hlength hb =>
      obtain ⟨⟨ep', b'⟩, hbatch, heq⟩ := Option.map_eq_some_iff.mp hsend
      simp only [Prod.mk.injEq, TxnEvent.called.injEq] at heq
      obtain ⟨⟨rfl, rfl, rfl⟩, rfl⟩ := heq
      obtain ⟨hk, rfl⟩ := Batch.send_eq_some.mp hbatch
      refine ⟨?_, ?_, rfl, hb.notMem_of_ready hk⟩
      · first
        | refine .single (hholds hh) ?_ ?_ (hb.send hk rfl rfl)
        | refine .preparing (hholds hh) ?_ ?_ (hb.send hk rfl rfl)
        · simpa [or_imp, forall_and] using hkinds
        · rw [List.length_set, hlength]
      · have := Batch.remaining_send hk
        simp only [TxnPc.ahead]
        omega
  | committing hh hkinds hhas hb =>
      obtain ⟨⟨ep', b'⟩, hbatch, heq⟩ := Option.map_eq_some_iff.mp hsend
      simp only [Prod.mk.injEq, TxnEvent.called.injEq] at heq
      obtain ⟨⟨rfl, rfl, rfl⟩, rfl⟩ := heq
      obtain ⟨hk, rfl⟩ := Batch.send_eq_some.mp hbatch
      refine ⟨.committing (hholds hh) ?_ ?_ (hb.send hk rfl rfl), ?_, rfl,
        hb.notMem_of_ready hk⟩
      · simpa [or_imp, forall_and] using hkinds
      · rw [← hhas]
        simp
      · have := Batch.remaining_send hk
        simp only [TxnPc.ahead]
        omega
  | _ => cases hsend

theorem answer {call : SpaceCall} {j : Nat} {reply : SpaceReply}
    (hstage : Stage config.endpoint t h₀ r ps s pc)
    (hl : Linked h₀ r.txnId kinds s.calls s.space) (hcall : call ∈ s.calls)
    (hj : call.handler = some j)
    (hreply : s.space.tasks[j]? = some (.returned (.ok reply)))
    (hchoice : call.kind.receipt call.slot (some reply) = some choice)
    (hadv : pc.advance config.txn 0 s.txn.shared choice =
      some (txn.shared, pc', events)) :
    Stage config.endpoint t h₀ r ps { s with txn := txn } pc' ∧
      pc'.ahead ps.length < pc.ahead ps.length := by
  obtain rfl : reply = call.kind.reply (h₀.vote r.txnId) :=
    Except.ok.inj (hl.serving.reply (hl.handled call hcall j hj) hreply)
  have hanswered : call.Answered s.space := ⟨j, _, hj, hreply⟩
  cases hstage with
  | commit _ hcalls | fetch _ hcalls => simp [hcalls] at hcall
  | single hh hkinds hlength hb | preparing hh hkinds hlength hb =>
      have hkind := hkinds call hcall
      rw [hkind] at hchoice
      obtain rfl := Option.some.inj hchoice
      obtain ⟨⟨e, pc₁⟩, hvote, heq⟩ := Option.map_eq_some_iff.mp hadv
      obtain ⟨⟨ep, b'⟩, hbatch, heq'⟩ := Option.map_eq_some_iff.mp hvote
      simp only [Prod.mk.injEq] at heq heq'
      obtain ⟨hshared, rfl, -⟩ := heq
      obtain ⟨-, rfl⟩ := heq'
      obtain ⟨hk, rfl⟩ := Batch.answer_eq_some.mp hbatch
      have hholds : HoldsTxn t r ps .voting txn.shared := hshared ▸ hh
      refine ⟨?_, ?_⟩
      · first
        | refine .single hholds hkinds ?_
            (hb.answer hl.unique hcall hkind hanswered hk rfl rfl)
        | refine .preparing hholds hkinds ?_
            (hb.answer hl.unique hcall hkind hanswered hk rfl rfl)
        rw [List.length_set, hlength]
      · have := Batch.remaining_answer (r := some (h₀.vote r.txnId)) hk
        simp only [TxnPc.ahead]
        omega
  | committing hh hkinds hhas hb =>
      rcases hkinds call hcall with hkind | ⟨hkind, -⟩
      · rw [hkind] at hchoice
        obtain rfl := Option.some.inj hchoice
        obtain ⟨pc₁, hack, heq⟩ := Option.map_eq_some_iff.mp hadv
        obtain ⟨⟨ep, b'⟩, hbatch, heq'⟩ := Option.map_eq_some_iff.mp hack
        simp only [Prod.mk.injEq] at heq heq'
        obtain ⟨hshared, rfl, -⟩ := heq
        subst heq'
        obtain ⟨hk, rfl⟩ := Batch.answer_eq_some.mp hbatch
        refine ⟨.committing (hshared ▸ hh) hkinds ?_
          (hb.answer hl.unique hcall hkind hanswered hk rfl rfl), ?_⟩
        · rw [← hhas]
          simp
        · have := Batch.remaining_answer (r := true) hk
          simp only [TxnPc.ahead]
          omega
      · rw [hkind] at hchoice
        obtain rfl := Option.some.inj hchoice
        cases hadv
  | _ =>
      rcases CallKind.receipt_cases hchoice with
        ⟨ok, rfl⟩ | ⟨rfl, -⟩ | ⟨v, rfl, -⟩ <;> cases hadv

/-! ### The Space at work -/

/-- A handler makes a move.  There is none any more when all calls have been
answered. -/
theorem space {act : DjinnAct} {space : SpaceProc}
    (hstage : Stage config.endpoint t h₀ r ps s pc)
    (hmove : DjinnMove config s act { s with space := space })
    (hbusy : ¬ ∀ call ∈ s.calls, call.Answered s.space) :
    Stage config.endpoint t h₀ r ps { s with space := space } pc := by
  cases hstage with
  | commit hh hcalls => exact .commit hh hcalls
  | fetch hh hcalls => exact .fetch hh hcalls
  | single hh hkinds hlength hb =>
      exact .single hh hkinds hlength (hb.space hmove rfl)
  | preparing hh hkinds hlength hb =>
      exact .preparing hh hkinds hlength (hb.space hmove rfl)
  | decided hh hkinds hanswered => exact absurd hanswered hbusy
  | committing hh hkinds hhas hb =>
      refine .committing hh ?_ hhas (hb.space hmove rfl)
      exact fun call hcall => (hkinds call hcall).imp_right
        fun h => ⟨h.1, h.2.step hmove⟩
  | finishing _ hsettled | cancelling _ _ _ hsettled | returned _ _ hsettled =>
      exact absurd hsettled.answered hbusy

theorem deliver {c : Nat} {call : SpaceCall} {s' : Djinn} {act : DjinnAct}
    (hstage : Stage config.endpoint t h₀ r ps s pc)
    (hmove : DjinnMove config s act s') (hc : s.calls[c]? = some call)
    (hnew : call.handler = none) (htxn : s'.txn = s.txn)
    (hcalls : s'.calls = s.calls.set c
      { call with handler := some s.space.tasks.length }) :
    Stage config.endpoint t h₀ r ps s' pc := by
  have hcall : call ∈ s.calls := List.mem_of_getElem? hc
  have hopen : ¬ call.Answered s.space := by
    rintro ⟨j, answer, hj, -⟩
    rw [hnew] at hj
    cases hj
  have hkept : ∀ {P : CallKind → Prop}, (∀ call ∈ s.calls, P call.kind) →
      ∀ call ∈ s'.calls, P call.kind := by
    intro P hP call' hcall'
    rw [hcalls] at hcall'
    rcases List.mem_or_eq_of_mem_set hcall' with hcall' | rfl
    · exact hP call' hcall'
    · exact hP call hcall
  cases hstage with
  | commit _ hnil | fetch _ hnil => simp [hnil] at hcall
  | single hh hkinds hlength hb =>
      exact .single (htxn ▸ hh)
        (hkept (P := (· = .prepareAndCommit)) hkinds) hlength
        (hb.deliver hmove hc hnew hcalls)
  | preparing hh hkinds hlength hb =>
      exact .preparing (htxn ▸ hh) (hkept (P := (· = .prepare)) hkinds) hlength
        (hb.deliver hmove hc hnew hcalls)
  | decided _ _ hanswered => exact absurd (hanswered call hcall) hopen
  | committing hh hkinds hhas hb =>
      refine .committing (htxn ▸ hh) (fun call' hcall' => ?_) hhas
        (hb.deliver hmove hc hnew hcalls)
      rw [hcalls] at hcall'
      rcases List.mem_or_eq_of_mem_set hcall' with hcall' | rfl
      · exact (hkinds call' hcall').imp_right fun h => ⟨h.1, h.2.step hmove⟩
      · exact Or.inl ((hkinds call hcall).resolve_right
          fun h => hopen h.2)
  | finishing _ hsettled | cancelling _ _ _ hsettled | returned _ _ hsettled =>
      exact absurd (hsettled.answered call hcall) hopen

theorem serves {c : Nat} {call : SpaceCall}
    (hstage : Stage config.endpoint t h₀ r ps s pc)
    (hl : Linked h₀ r.txnId kinds s.calls s.space)
    (hc : s.calls[c]? = some call) (hnew : call.handler = none) :
    Serving h₀ r.txnId (kinds ++ [call.kind]) { s.space with
      tasks := s.space.tasks ++ [call.kind.handler call.txnId] } := by
  have hcall : call ∈ s.calls := List.mem_of_getElem? hc
  rw [(hl.owned call hcall).2]
  have hopen : ¬ call.Answered s.space := by
    rintro ⟨j, answer, hj, -⟩
    rw [hnew] at hj
    cases hj
  cases hstage with
  | commit _ hnil | fetch _ hnil => simp [hnil] at hcall
  | single hh hkinds hlength hb =>
      -- There is one slot, so this is the only call, and it has no handler.
      have hslot : ∀ call ∈ s.calls, call.slot = 0 := by
        intro call hcall
        obtain ⟨ep, hsent | ⟨⟨a, hdone⟩, -⟩⟩ :=
          hb.slots call hcall (hkinds call hcall)
        · have := (List.getElem?_eq_some_iff.mp hsent).1
          omega
        · have := (List.getElem?_eq_some_iff.mp hdone).1
          omega
      obtain rfl : kinds = [] := by
        refine List.eq_nil_iff_forall_not_mem.mpr fun kind hkind => ?_
        obtain ⟨j, hj⟩ := List.mem_iff_getElem?.mp hkind
        obtain ⟨call', hcall', hhandler⟩ :=
          hl.known j (List.getElem?_eq_some_iff.mp hj).1
        obtain rfl : call' = call := List.inj_on_of_nodup_map hl.unique hcall'
          hcall (by rw [hkinds call' hcall', hkinds call hcall,
            hslot call' hcall', hslot call hcall])
        rw [hnew] at hhandler
        cases hhandler
      rw [hkinds call hcall]
      exact hl.serving.prepareAndCommit hl.length
  | preparing hh hkinds hlength hb =>
      rw [hkinds call hcall]
      exact hl.serving.prepare hl.length
        (hl.kinds_of_calls (P := (· = .prepare)) hkinds)
  | decided _ _ hanswered => exact absurd (hanswered call hcall) hopen
  | committing hh hkinds hhas hb =>
      have hkind : call.kind = .commit :=
        (hkinds call hcall).resolve_right fun h => hopen h.2
      have hbatch : h₀.store.hasTxn r.txnId = true := by
        refine hhas.mp fun hnil => ?_
        obtain ⟨ep, hsent | ⟨⟨a, hdone⟩, -⟩⟩ := hb.slots call hcall hkind
        · simp [hnil] at hsent
        · simp [hnil] at hdone
      rw [hkind]
      refine hl.serving.commitCall hl.length hbatch ?_ ?_
      · intro hmem
        exact hl.kinds_of_calls (P := (· ≠ .prepareAndCommit))
          (fun call' hcall' => by
            rcases hkinds call' hcall' with h | ⟨h, -⟩ <;> simp [h]) _ hmem rfl
      · intro j pc hj hpc
        refine hl.returned (P := (· = .prepare)) (fun call' hcall' h => ?_) hj rfl
          hpc
        rcases hkinds call' hcall' with h' | ⟨-, hanswered⟩
        · rw [h'] at h
          cases h
        · exact hanswered
  | finishing _ hsettled | cancelling _ _ _ hsettled | returned _ _ hsettled =>
      exact absurd (hsettled.answered call hcall) hopen

end Stage

/-! ## Runs -/

section Runs

variable {config : DjinnConfig} {t : TxnHost} {h₀ : SpaceHost}
  {r : TransactionRecord} {ps : List ParticipantRecord} {s s' : Djinn}
  {act : DjinnAct}

theorem Stages.committing (config : DjinnConfig) (t : TxnHost) (h₀ : SpaceHost)
    (hactive : r.state = .active) (ps : List ParticipantRecord) :
    Stages config.endpoint t h₀ r ps (Djinn.committing t h₀ r ps) := by
  refine ⟨.commit r.txnId, [], rfl, ?_, .commit ⟨?_, rfl⟩ rfl⟩
  · refine ⟨by simp [Djinn.committing], List.nodup_nil, ?_, ?_, rfl, ?_⟩
    · simp [Djinn.committing]
    · simp
    · exact .voting rfl (by simp) (by simp)
  · simp [Djinn.committing, InMemoryTxnStore.create, TransactionRecord.during,
      ← hactive]

/-- What is still to be done gets less. -/
abbrev Djinn.Nearer (n bound : Nat) : Djinn → Djinn → Prop :=
  InvImage (Prod.Lex (· < ·) (Prod.Lex (· < ·) (· < ·))) (Djinn.ahead n bound)

theorem Djinn.nearer_wf (n bound : Nat) : WellFounded (Djinn.Nearer n bound) :=
  InvImage.wf _ (Prod.lex Nat.lt_wfRel (Prod.lex Nat.lt_wfRel Nat.lt_wfRel)).wf

theorem TxnProc.step_single {txn txn' : TxnProc} {pc : TxnPc} {i : Nat}
    {choice : TxnChoice} (htasks : txn.tasks = [pc])
    (hstep : (txnProgram config.txn).step txn (.step i choice) = some txn') :
    i = 0 ∧ ∃ pc' events, pc.advance config.txn 0 txn.shared choice =
      some (txn'.shared, pc', events) ∧ txn'.tasks = [pc'] := by
  obtain ⟨pc₁, shared, pc', events, hpc, hadv, rfl⟩ :=
    Program.step_step.mp hstep
  rw [htasks] at hpc
  have hi := (List.getElem?_eq_some_iff.mp hpc).1
  obtain rfl : i = 0 := by simpa using hi
  obtain rfl : pc = pc₁ := Option.some.inj hpc
  exact ⟨rfl, pc', events, hadv, by simp [htasks]⟩

/-- Every step of the commit leads to a stage nearer to the end. -/
theorem Stages.step (hps : ps ≠ [])
    (hcopies : ∀ p ∈ ps, p.endpoint = config.endpoint)
    (hstages : Stages config.endpoint t h₀ r ps s)
    (hact : act.ofCommit = true) (hmove : DjinnMove config s act s') :
    Stages config.endpoint t h₀ r ps s' ∧
      Djinn.Nearer ps.length (h₀.toSettle r.txnId) s' s := by
  obtain ⟨pc, kinds, htasks, hl, hstage⟩ := hstages
  have hnearer : ∀ {txn : TxnProc} {pc' : TxnPc} {calls space},
      txn.tasks = [pc'] → pc'.ahead ps.length < pc.ahead ps.length →
      Djinn.Nearer ps.length (h₀.toSettle r.txnId) ⟨txn, space, calls⟩ s := by
    intro txn pc' calls space htasks' hlt
    refine Prod.Lex.left _ _ ?_
    simpa [htasks, htasks'] using hlt
  cases hmove with
  | @txn act txn hfree hstep =>
      cases act with
      | call | ambient => cases hact
      | step i choice =>
          obtain ⟨rfl, pc', events, hadv, htasks'⟩ :=
            TxnProc.step_single htasks hstep
          have hslot : choice.slot = none := by
            refine TxnProc.slot_eq_none (by rw [htasks]; rfl) ?_ hfree hadv
            exact fun k ep hep => hstage.callee hep
          obtain ⟨hstage', hlt⟩ := hstage.advance hl hps hcopies hslot hadv
          exact ⟨⟨pc', kinds, htasks', hl, hstage'⟩, hnearer htasks' hlt⟩
  | @space act space hfree hstep =>
      cases act with
      | call | ambient => cases hact
      | step j choice =>
          have hserved := hl.serving.step hl.length hstep
          refine ⟨⟨pc, kinds, htasks, hl.space_step hstep,
            hstage.space (.space hfree hstep) ?_⟩, ?_⟩
          · intro hanswered
            obtain ⟨pcj, shared, pcj', events, hpcj, hadv, -⟩ :=
              Program.step_step.mp hstep
            obtain ⟨answer, rfl⟩ :=
              hl.all_returned hanswered pcj (List.mem_of_getElem? hpcj)
            simp [spaceProgram, SpacePc.no_move_of_returned] at hadv
          · exact Prod.Lex.right _ (Prod.Lex.right _ hserved.2.2)
  | enlist | fail => cases hact
  | send hpc hsend hstep =>
      obtain ⟨rfl, pc', events, hadv, htasks'⟩ :=
        TxnProc.step_single htasks hstep
      rw [htasks] at hpc
      obtain rfl : pc = _ := Option.some.inj hpc
      simp only [TxnPc.advance, hsend, Option.map_some, Option.some.injEq,
        Prod.mk.injEq] at hadv
      obtain ⟨hshared, rfl, -⟩ := hadv
      obtain ⟨hstage', hlt, rfl, hnew⟩ := hstage.send hsend hshared.symm rfl
      exact ⟨⟨_, kinds, htasks', hl.send hnew, hstage'⟩, hnearer htasks' hlt⟩
  | deliver hcall hnew hstep =>
      have hdeliver := DjinnMove.deliver hcall hnew hstep
      obtain ⟨-, rfl⟩ := Program.step_call.mp hstep
      have hlinked := hl.deliver hcall hnew (hstage.serves hl hcall hnew)
      refine ⟨⟨pc, _, htasks, hlinked,
        hstage.deliver hdeliver hcall hnew rfl rfl⟩, ?_⟩
      refine Prod.Lex.right _ (Prod.Lex.left _ _ ?_)
      exact sum_map_set_lt hcall (by simp [hnew])
  | answer hcall hj hreply hchoice hstep =>
      have hmem := List.mem_of_getElem? hcall
      rw [(hl.owned _ hmem).1] at hstep
      obtain ⟨-, pc', events, hadv, htasks'⟩ := TxnProc.step_single htasks hstep
      obtain ⟨hstage', hlt⟩ := hstage.answer hl hmem hj hreply hchoice hadv
      exact ⟨⟨pc', kinds, htasks', hl, hstage'⟩, hnearer htasks' hlt⟩

/-! ### Progress -/

theorem CallKind.entry_handler (kind : CallKind) (x : String) :
    (kind.handler x).entry = true := by
  cases kind <;> rfl

theorem Djinn.step_txn_isSome {pc : TxnPc} {choice : TxnChoice}
    (htasks : s.txn.tasks = [pc])
    (hfree : s.txn.calling config.endpoint (.step 0 choice) = false)
    (hadv : (pc.advance config.txn 0 s.txn.shared choice).isSome) :
    (Djinn.step config s (.txn (.step 0 choice))).isSome := by
  obtain ⟨⟨h', pc', events⟩, hadv⟩ := Option.isSome_iff_exists.mp hadv
  simp [Djinn.step, hfree, Program.step, txnProgram, htasks, hadv]

theorem Djinn.deliver_isSome {c : Nat} {call : SpaceCall}
    (hc : s.calls[c]? = some call) (hnew : call.handler = none) :
    (Djinn.step config s (.deliver c)).isSome := by
  simp [Djinn.step, Djinn.deliver, hc, hnew, Program.step, spaceProgram,
    CallKind.entry_handler]

/-- When no handler is at work, a call of the batch can be sent, can arrive, or
can be answered. -/
theorem Calling.cases {ρ : Type*} {a : ρ} {b : Batch String ρ} {x : String}
    {kind : CallKind} {kinds : List CallKind}
    (hb : Calling config.endpoint kind a b s)
    (hl : Linked h₀ x kinds s.calls s.space)
    (hreturned : ∀ pc ∈ s.space.tasks, ∃ answer, pc = .returned answer)
    (hopen : b.results = none) :
    (∃ k : Nat, b[k]? = some (config.endpoint, .ready)) ∨
      ∃ (c : Nat) (call : SpaceCall), s.calls[c]? = some call ∧
        call.kind = kind ∧ (call.handler = none ∨
          b[call.slot]? = some (config.endpoint, .sent) ∧
          ∃ j, call.handler = some j ∧ s.space.tasks[j]? =
            some (.returned (.ok (kind.reply (h₀.vote x))))) := by
  obtain ⟨k, ep, hready | hsent⟩ := Batch.exists_move_of_results_eq_none hopen
  · obtain rfl := hb.targets k ep _ hready
    exact Or.inl ⟨k, hready⟩
  · obtain rfl := hb.targets k ep _ hsent
    obtain ⟨call, hcall, hkind, rfl⟩ := hb.made k _ _ hsent (by simp)
    obtain ⟨c, hc⟩ := List.mem_iff_getElem?.mp hcall
    refine Or.inr ⟨c, call, hc, hkind, ?_⟩
    cases hj : call.handler with
    | none => exact Or.inl rfl
    | some j =>
        refine Or.inr ⟨hsent, j, rfl, ?_⟩
        have hkindj := hl.handled call hcall j hj
        have hlt := hl.length ▸ (List.getElem?_eq_some_iff.mp hkindj).1
        obtain ⟨answer, hpc⟩ := hreturned _ (List.getElem_mem hlt)
        have hreturned := hpc ▸ List.getElem?_eq_getElem hlt
        rw [← hkind, ← hl.serving.reply hkindj hreturned]
        exact hreturned

theorem Calling.enabled {ρ : Type*} {a : ρ} {b : Batch String ρ} {x : String}
    {kind : CallKind} {kinds : List CallKind} {pc : TxnPc}
    (hb : Calling config.endpoint kind a b s)
    (hl : Linked h₀ x kinds s.calls s.space)
    (hreturned : ∀ pc ∈ s.space.tasks, ∃ answer, pc = .returned answer)
    (htasks : s.txn.tasks = [pc])
    (hjoin : b.results.isSome →
      (pc.advance config.txn 0 s.txn.shared .go).isSome)
    (hsend : ∀ k b', b.send k = some (config.endpoint, b') → ∃ pc',
      pc.send k = some (.called x kind config.endpoint, pc'))
    (hanswer : ∀ k b', b.answer k a = some (config.endpoint, b') → ∃ choice,
      kind.receipt k (some (kind.reply (h₀.vote x))) = some choice ∧
        (pc.advance config.txn 0 s.txn.shared choice).isSome) :
    ∃ act, act.ofCommit = true ∧ (Djinn.step config s act).isSome := by
  cases hres : b.results with
  | some rs =>
      exact ⟨.txn (.step 0 .go), rfl,
        Djinn.step_txn_isSome htasks rfl (hjoin (by simp [hres]))⟩
  | none =>
      rcases hb.cases hl hreturned hres with
        ⟨k, hready⟩ | ⟨c, call, hc, rfl, hnew | ⟨hsent, j, hj, hreply⟩⟩
      · obtain ⟨pc', hpc'⟩ := hsend k _ (Batch.send_eq_some.mpr ⟨hready, rfl⟩)
        refine ⟨.send 0 k, rfl, ?_⟩
        simp [Djinn.step, Djinn.send, htasks, hpc', Program.step, txnProgram,
          TxnPc.advance]
      · exact ⟨.deliver c, rfl, Djinn.deliver_isSome hc hnew⟩
      · obtain ⟨choice, hchoice, hadv⟩ :=
          hanswer call.slot _ (Batch.answer_eq_some.mpr ⟨hsent, rfl⟩)
        obtain ⟨⟨h', pc', events⟩, hadv⟩ := Option.isSome_iff_exists.mp hadv
        have htask := (hl.owned call (List.mem_of_getElem? hc)).1
        refine ⟨.answer c, rfl, ?_⟩
        simp [Djinn.step, Djinn.answer, hc, hj, hreply, Djinn.receive, hchoice,
          htask, Program.step, txnProgram, htasks, hadv]

theorem Stages.enabled (hstages : Stages config.endpoint t h₀ r ps s)
    (hopen : s.result = none) :
    ∃ act, act.ofCommit = true ∧ (Djinn.step config s act).isSome := by
  obtain ⟨pc, kinds, htasks, hl, hstage⟩ := hstages
  by_cases hreturned : ∀ pc ∈ s.space.tasks, ∃ answer, pc = .returned answer
  · have hgo : (pc.advance config.txn 0 s.txn.shared .go).isSome →
        ∃ act, act.ofCommit = true ∧ (Djinn.step config s act).isSome :=
      fun h => ⟨.txn (.step 0 .go), rfl, Djinn.step_txn_isSome htasks rfl h⟩
    cases hstage with
    | commit hh =>
        obtain ⟨txns, hupdate, -⟩ := hh.updateStateIf .voting
        exact hgo (by simp [TxnPc.advance, TxnPc.go, TxnPc.claim, hupdate])
    | fetch hh =>
        exact hgo (by simp [TxnPc.advance, TxnPc.go, TxnPc.fetch,
          InMemoryTxnStore.get, hh.record, TxnPc.stay])
    | single _ _ hlength hb =>
        refine hb.enabled hl hreturned htasks (fun h => ?_) (fun k b' hk => ?_)
          fun k b' hk => ⟨_, rfl, ?_⟩
        · obtain ⟨rs, hrs⟩ := Option.isSome_iff_exists.mp h
          have hjoin := hrs
          rw [(hb.complete hrs).1, hlength] at hjoin
          simp [TxnPc.advance, TxnPc.go, TxnPc.join, hjoin, TxnPc.stay]
        · exact ⟨_, by simp [TxnPc.send, hk, TransactionRecord.during]; rfl⟩
        · simp [TxnPc.advance, TxnPc.vote, hk]
    | decided hh =>
        obtain ⟨txns, hupdate, -⟩ := hh.updateStateIf .prepared
        exact hgo (by simp [TxnPc.advance, TxnPc.go, TransactionRecord.during,
          hupdate])
    | preparing _ _ _ hb | committing _ _ _ hb =>
        refine hb.enabled hl hreturned htasks (fun h => ?_) (fun k b' hk => ?_)
          fun k b' hk => ⟨_, rfl, ?_⟩
        · obtain ⟨rs, hrs⟩ := Option.isSome_iff_exists.mp h
          simp [TxnPc.advance, TxnPc.go, TxnPc.join, hrs, TxnPc.stay]
        · exact ⟨_, by simp [TxnPc.send, hk, TransactionRecord.during]; rfl⟩
        · simp [TxnPc.advance, TxnPc.vote, TxnPc.ack, hk]
    | finishing hh =>
        obtain ⟨txns, hupdate, -⟩ := hh.updateStateIf .committed
        exact hgo (by simp [TxnPc.advance, TxnPc.go, TransactionRecord.during,
          hupdate])
    | @cancelling lpc hlpc =>
        refine ⟨.txn (.step 0 (.lease .go)), rfl,
          Djinn.step_txn_isSome htasks rfl ?_⟩
        cases lpc with
        | cancel | cancelSend => rfl
        | cancelStore leaseId record => cases record <;> rfl
        | _ => exact hlpc.elim
    | returned => simp [Djinn.result, htasks] at hopen
  · push Not at hreturned
    obtain ⟨pc, hpc, hbusy⟩ := hreturned
    obtain ⟨j, hj⟩ := List.mem_iff_getElem?.mp hpc
    obtain ⟨choice, space, hfree, hstep⟩ : ∃ choice space,
        spaceCalled (.step j choice) = false ∧
          (spaceProgram config.space).step s.space (.step j choice) =
            some space :=
      hl.serving.enabled hl.length hj hbusy
    exact ⟨.space (.step j choice), rfl, by simp [Djinn.step, hfree, hstep]⟩

/-! ### Any number of copies -/

theorem Stages.run (hps : ps ≠ [])
    (hcopies : ∀ p ∈ ps, p.endpoint = config.endpoint)
    (hactive : r.state = .active) {acts : List DjinnAct}
    (hacts : ∀ act ∈ acts, act.ofCommit = true)
    (hrun : Support.run (Djinn.step config) (.committing t h₀ r ps) acts =
      some s) : Stages config.endpoint t h₀ r ps s := by
  refine run_invariant_of_stepsMeet (C := fun _ act => act.ofCommit = true)
    (.committing config t h₀ hactive ps) ?_ hrun
    (stepsMeet_of_forall (fun act hact _ => hacts act hact) _)
  intro s act s' _ hstages hact hstep
  exact (hstages.step hps hcopies hact (.of_step hstep)).1

theorem Stages.finished (hstages : Stages config.endpoint t h₀ r ps s)
    (hdone : s.result.isSome) :
    s.result = some (.ok .unit) ∧
      s.txn.shared.txns.records[r.txnId]? = some (r.during ps .committed) ∧
      s.txn.shared.landlord = t.landlord.cancel r.leaseId ∧
      s.space.shared = h₀.committed r.txnId := by
  obtain ⟨pc, kinds, htasks, -, hstage⟩ := hstages
  cases hstage with
  | returned hrecord hlandlord hsettled =>
      exact ⟨by simp [Djinn.result, htasks], hrecord, hlandlord,
        hsettled.outcome⟩
  | _ => simp [Djinn.result, htasks] at hdone

/-- How often the Space is enlisted makes no difference to a commit.  Whatever
the order in which calls arrive and the Space works on them, the commit can be
brought to its end; and its result, the state of the transaction, the leases of
both managers, and everything in the Space, with what it has broadcast, are then
the same as with one entry. -/
theorem copies_agree (config : DjinnConfig) (t : TxnHost) (h : SpaceHost)
    (r : TransactionRecord) (hactive : r.state = .active)
    (ps : List ParticipantRecord) (hps : ps ≠ [])
    (hcopies : ∀ p ∈ ps, p.endpoint = config.endpoint) (q : ParticipantRecord)
    (hq : q.endpoint = config.endpoint) :
    (∀ acts s, (∀ act ∈ acts, act.ofCommit = true) →
      Support.run (Djinn.step config) (.committing t h r ps) acts = some s →
      ∃ more s', (∀ act ∈ more, act.ofCommit = true) ∧
        Support.run (Djinn.step config) s more = some s' ∧
        s'.result.isSome) ∧
    ∀ acts s acts₁ s₁, (∀ act ∈ acts ++ acts₁, act.ofCommit = true) →
      Support.run (Djinn.step config) (.committing t h r ps) acts = some s →
      Support.run (Djinn.step config) (.committing t h r [q]) acts₁ = some s₁ →
      s.result.isSome → s₁.result.isSome →
      s.result = s₁.result ∧
        (s.txn.shared.txns.get r.txnId).map TransactionRecord.state =
          (s₁.txn.shared.txns.get r.txnId).map TransactionRecord.state ∧
        s.txn.shared.landlord = s₁.txn.shared.landlord ∧
        s.space.shared = s₁.space.shared := by
  constructor
  · intro acts s hacts hrun
    have hstages := Stages.run hps hcopies hactive hacts hrun
    obtain ⟨more, s', hmore, hrun', -, hdone⟩ := exists_run_of_decreasing
      (fun act : DjinnAct => act.ofCommit = true)
      (Stages config.endpoint t h r ps) (fun s => s.result.isSome)
      (Djinn.nearer_wf ps.length (h.toSettle r.txnId))
      (fun s act s' hstages hact hstep =>
        hstages.step hps hcopies hact (.of_step hstep))
      (fun s hstages hopen => by
        obtain ⟨act, hact, hstep⟩ := hstages.enabled (by simpa using hopen)
        obtain ⟨s', hstep⟩ := Option.isSome_iff_exists.mp hstep
        exact ⟨act, s', hact, hstep⟩)
      hstages
    exact ⟨more, s', hmore, hrun', hdone⟩
  · intro acts s acts₁ s₁ hacts hrun hrun₁ hdone hdone₁
    have hstages : Stages config.endpoint t h r ps s :=
      .run hps hcopies hactive
        (fun act hact => hacts act (List.mem_append_left _ hact)) hrun
    have hstages₁ : Stages config.endpoint t h r [q] s₁ :=
      .run (by simp) (by simpa using hq) hactive
        (fun act hact => hacts act (List.mem_append_right _ hact)) hrun₁
    obtain ⟨hresult, hrecord, hlandlord, hspace⟩ := hstages.finished hdone
    obtain ⟨hresult₁, hrecord₁, hlandlord₁, hspace₁⟩ :=
      hstages₁.finished hdone₁
    refine ⟨hresult.trans hresult₁.symm, ?_, hlandlord.trans hlandlord₁.symm,
      hspace.trans hspace₁.symm⟩
    simp only [InMemoryTxnStore.get, hrecord, hrecord₁]
    rfl

end Runs

/-- A booking that has written one tuple. -/
def bookingTxn : TransactionRecord where
  txnId := "t"
  leaseId := "tl"
  state := .active
  participants := []
  begunAt := 0

def oneBooking : SpaceHost :=
  { SpaceHost.new with store := InMemorySpaceStore.new.insertUncommitted "t" {
      tupleId := "a"
      attrs := ∅
      payload := []
      leaseId := "al"
      writtenBy := "w"
      writtenAt := 0
      inputTupleId := none } }

/-- Two operations of the booking enlisted the Space. -/
theorem copies_agree_two :
    (∀ acts s, (∀ act ∈ acts, act.ofCommit = true) →
      Support.run (Djinn.step bundle) (.committing .new oneBooking bookingTxn
        [⟨"localhost:9006", 0⟩, ⟨"localhost:9006", 0⟩]) acts = some s →
      ∃ more s', (∀ act ∈ more, act.ofCommit = true) ∧
        Support.run (Djinn.step bundle) s more = some s' ∧
        s'.result.isSome) ∧
    ∀ acts s acts₁ s₁, (∀ act ∈ acts ++ acts₁, act.ofCommit = true) →
      Support.run (Djinn.step bundle) (.committing .new oneBooking bookingTxn
        [⟨"localhost:9006", 0⟩, ⟨"localhost:9006", 0⟩]) acts = some s →
      Support.run (Djinn.step bundle) (.committing .new oneBooking bookingTxn
        [⟨"localhost:9006", 0⟩]) acts₁ = some s₁ →
      s.result.isSome → s₁.result.isSome →
      s.result = s₁.result ∧
        (s.txn.shared.txns.get "t").map TransactionRecord.state =
          (s₁.txn.shared.txns.get "t").map TransactionRecord.state ∧
        s.txn.shared.landlord = s₁.txn.shared.landlord ∧
        s.space.shared = s₁.space.shared :=
  copies_agree bundle .new oneBooking bookingTxn rfl
    [⟨"localhost:9006", 0⟩, ⟨"localhost:9006", 0⟩] (by simp)
    (by simp [bundle]) ⟨"localhost:9006", 0⟩ rfl

end Coordin8
