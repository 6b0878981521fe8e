import Coordin8.Txn.Manager

/-!
# The moves of the transaction manager

`TxnMove` lists what one move of a call can do, with what it reads; every proof
about the process goes through it.  A call that has not won the compare-and-set
out of `Active` owns nothing: it reads, or it waits, or it wins.  A call that
has won owns its transaction until it returns.
-/

namespace Coordin8

open Support Support.DashMap

namespace TxnPc

/-- The transaction whose outcome the call decides. -/
def owned : TxnPc → Option String
  | .commitFetch txnId | .abortFetch txnId | .expiredFetch txnId
  | .aborting txnId .. => some txnId
  | .prepareAndCommit txn _ | .preparing txn _ | .transition txn ..
  | .committing txn _ => some txn.txnId
  | _ => none

/-- The call neither owns a transaction nor is about to create one. -/
def Idle : TxnPc → Prop
  | .enlist .. | .getState _ | .commit _ | .commitLost _ | .abort _
  | .abortLost _ | .abortExpired .. => True
  | _ => False

/-- The call has lost its compare-and-set, or has returned. -/
def Parked : TxnPc → Prop
  | .commitLost _ | .abortLost _ | .returned _ => True
  | _ => False

/-- The calls that try to move a transaction out of `Active`: for whom, which,
where to, and how the winner goes on. -/
inductive Claims : TxnPc → Agent → String → TransactionState → TxnPc → Prop where
  | commit (txnId : String) :
      Claims (.commit txnId) .commit txnId .voting (.commitFetch txnId)
  | abort (txnId : String) :
      Claims (.abort txnId) .abort txnId .aborted (.abortFetch txnId)
  | abortExpired (origin : Origin) (txnId : String) :
      Claims (.abortExpired origin txnId) (.abortExpired origin) txnId .aborted
        (.expiredFetch txnId)

/-- The winner re-reads its transaction and goes on with the record. -/
inductive Fetches : TxnPc → String → (TransactionRecord → TxnPc) → Prop where
  | commit (txnId : String) : Fetches (.commitFetch txnId) txnId plan
  | abort (txnId : String) :
      Fetches (.abortFetch txnId) txnId fun txn =>
        .aborting txnId (Batch.start (endpoints txn.participants))
          (some txn.leaseId) (.ok .unit)
  | expired (txnId : String) :
      Fetches (.expiredFetch txnId) txnId fun txn =>
        .aborting txnId (Batch.start (endpoints txn.participants)) none
          (.ok .unit)

end TxnPc

open TxnPc

/-- What one move of the task `i` can do. -/
inductive TxnMove (config : TxnConfig) (i : Nat) (h : TxnHost) :
    TxnPc → TxnHost → TxnPc → List TxnEvent → Prop where
  | begin {ttlSecs : UInt64} {txnId leaseId : String} {granted : LeaseRecord}
      {landlord : Landlord} (htxn : txnId ∉ h.landlord.uuids)
      (hlease : leaseId ∉ txnId :: h.landlord.uuids)
      (hgrant : { h.landlord with
        uuids := txnId :: h.landlord.uuids }.grant config.lease leaseId
          ("txn:" ++ txnId) ttlSecs = .ok (granted, landlord)) :
      TxnMove config i h (.begin ttlSecs) { h with landlord := landlord }
        (.beginCreate txnId granted) [.began i txnId granted.leaseId]
  | beginFailed {ttlSecs : UInt64} {txnId : String} {e : Error} :
      TxnMove config i h (.begin ttlSecs)
        { h with landlord := { h.landlord with
          uuids := txnId :: h.landlord.uuids } }
        (.returned (.error e)) []
  | create {txnId : String} {granted : LeaseRecord} :
      TxnMove config i h (.beginCreate txnId granted)
        { h with txns := h.txns.create {
            txnId := txnId
            leaseId := granted.leaseId
            state := .active
            participants := []
            begunAt := h.landlord.now } }
        (.returned (.ok (.begun txnId granted))) []
  | enlist {txnId : String} {p : ParticipantRecord} {r : TransactionRecord}
      (hallow : config.allow p.endpoint = .ok ())
      (hr : h.txns.records[txnId]? = some r) (hactive : r.state = .active) :
      TxnMove config i h (.enlist txnId p.endpoint p.crashCount)
        { h with txns := ⟨h.txns.records.insert txnId
          { r with participants := r.participants ++ [p] }⟩ }
        (.returned (.ok .unit)) [.enlisted txnId p]
  | idle {pc pc' : TxnPc} (hpc : pc.Idle) (hpc' : pc'.Parked) :
      TxnMove config i h pc h pc' []
  | claim {pc won : TxnPc} {agent : Agent} {txnId : String}
      {new : TransactionState} {r : TransactionRecord}
      (hclaims : Claims pc agent txnId new won)
      (hr : h.txns.records[txnId]? = some r) (hactive : r.state = .active) :
      TxnMove config i h pc
        { h with txns := ⟨h.txns.records.insert txnId
          { r with state := new }⟩ }
        won [.moved i agent txnId .active new]
  | fetch {pc : TxnPc} {txnId : String} {found : TransactionRecord → TxnPc}
      {r : TransactionRecord} (hfetches : Fetches pc txnId found)
      (hr : h.txns.records[txnId]? = some r) :
      TxnMove config i h pc h (found r) []
  | fetchFailed {pc : TxnPc} {txnId : String}
      {found : TransactionRecord → TxnPc} {result : TxnResult}
      (hfetches : Fetches pc txnId found)
      (hr : h.txns.records[txnId]? = none) :
      TxnMove config i h pc h (.returned result) []
  | transition {txn r : TransactionRecord} {old new : TransactionState}
      {after : After} (hr : h.txns.records[txn.txnId]? = some r)
      (hstate : r.state = old) :
      TxnMove config i h (.transition txn old new after)
        { h with txns := ⟨h.txns.records.insert txn.txnId
          { r with state := new }⟩ }
        (resume txn after) [.moved i .commit txn.txnId old new]
  | transitionFailed {txn : TransactionRecord} {old new : TransactionState}
      {after : After} {result : TxnResult} {events : List TxnEvent}
      (hr : ∀ r, h.txns.records[txn.txnId]? = some r → r.state ≠ old)
      (hevents : ∀ e ∈ events, e = .unexpected txn.txnId old new) :
      TxnMove config i h (.transition txn old new after) h (.returned result)
        events
  | join {pc pc' : TxnPc} (hjoin : pc.join = some pc') :
      TxnMove config i h pc h pc' []
  | send {pc pc' : TxnPc} {k : Nat} {e : TxnEvent}
      (hsend : pc.send k = some (e, pc')) : TxnMove config i h pc h pc' [e]
  | vote {pc pc' : TxnPc} {k : Nat} {reply : Option Int32} {e : TxnEvent}
      (hvote : pc.vote k reply = some (e, pc')) :
      TxnMove config i h pc h pc' [e]
  | ack {pc pc' : TxnPc} {k : Nat} {ok : Bool}
      (hack : pc.ack k ok = some pc') : TxnMove config i h pc h pc' []
  | cancelLease {pc pc' : LeasePc} {result : TxnResult} {c : LeaseChoice}
      {landlord : Landlord}
      (hstep : pc.advance config.lease h.landlord c = some (landlord, pc')) :
      TxnMove config i h (.cancelLease pc result) { h with landlord := landlord }
        (afterCancel result pc') []
  | lease {pc pc' : LeasePc} {c : LeaseChoice} {landlord : Landlord}
      (hstep : pc.advance config.lease h.landlord c = some (landlord, pc')) :
      TxnMove config i h (.lease pc) { h with landlord := landlord } (.lease pc')
        (grantEvents pc pc')

namespace TxnMove

variable {config : TxnConfig} {i : Nat} {h h' : TxnHost} {pc pc' : TxnPc}
  {events : List TxnEvent}

theorem of_claim {agent : Agent} {txnId : String} {new : TransactionState}
    {won lost : TxnPc} {failed : Error → TxnPc}
    (hmove : TxnPc.claim i h agent txnId new won lost failed =
      some (h', pc', events))
    (hclaims : Claims pc agent txnId new won) (hpc : pc.Idle)
    (hlost : lost.Parked) (hfailed : ∀ e, (failed e).Parked) :
    TxnMove config i h pc h' pc' events := by
  unfold TxnPc.claim at hmove
  rcases h.txns.updateStateIf_cases txnId .active new with
    ⟨r, hr, hactive, heq⟩ | ⟨r, hr, hne, heq⟩ | ⟨hr, heq⟩ <;>
    simp only [heq, stay, Option.some.injEq, Prod.mk.injEq] at hmove <;>
    obtain ⟨rfl, rfl, rfl⟩ := hmove
  · exact .claim hclaims hr hactive
  · exact .idle hpc hlost
  · exact .idle hpc (hfailed _)

theorem of_fetch_idle {txnId : String} {found : TransactionRecord → TxnPc}
    (hmove : TxnPc.fetch h txnId found = some (h', pc', events))
    (hpc : pc.Idle) (hfound : ∀ r, (found r).Parked) :
    TxnMove config i h pc h' pc' events := by
  unfold TxnPc.fetch at hmove
  split at hmove <;>
    simp only [stay, Option.some.injEq, Prod.mk.injEq] at hmove <;>
    obtain ⟨rfl, rfl, rfl⟩ := hmove
  · exact .idle hpc trivial
  · exact .idle hpc (hfound _)

theorem of_fetch {txnId : String} {found : TransactionRecord → TxnPc}
    (hmove : TxnPc.fetch h txnId found = some (h', pc', events))
    (hfetches : Fetches pc txnId found) :
    TxnMove config i h pc h' pc' events := by
  unfold TxnPc.fetch at hmove
  split at hmove
  · next hr =>
    simp only [stay, Option.some.injEq, Prod.mk.injEq] at hmove
    obtain ⟨rfl, rfl, rfl⟩ := hmove
    exact .fetchFailed hfetches hr
  · next txn hr =>
    simp only [stay, Option.some.injEq, Prod.mk.injEq] at hmove
    obtain ⟨rfl, rfl, rfl⟩ := hmove
    exact .fetch hfetches hr

theorem of_join {pc : TxnPc} {f : Option TxnPc} (hf : f = pc.join)
    (hmove : f.bind (stay h) = some (h', pc', events)) :
    TxnMove config i h pc h' pc' events := by
  obtain ⟨pc₁, hjoin, heq⟩ := Option.bind_eq_some_iff.mp hmove
  simp only [stay, Option.some.injEq, Prod.mk.injEq] at heq
  obtain ⟨rfl, rfl, rfl⟩ := heq
  exact .join (hf ▸ hjoin)

theorem of_enlist {txnId endpoint : String} {crashCount : UInt64}
    (hmove : TxnPc.go config i h (.enlist txnId endpoint crashCount) =
      some (h', pc', events)) :
    TxnMove config i h (.enlist txnId endpoint crashCount) h' pc' events := by
  simp only [go] at hmove
  cases hallow : config.allow endpoint with
  | error e =>
      simp only [hallow, stay, Option.some.injEq, Prod.mk.injEq] at hmove
      obtain ⟨rfl, rfl, rfl⟩ := hmove
      exact .idle trivial trivial
  | ok u =>
      simp only [hallow] at hmove
      cases hadd : h.txns.addParticipant txnId ⟨endpoint, crashCount⟩ with
      | error e =>
          simp only [hadd, stay, Option.some.injEq, Prod.mk.injEq] at hmove
          obtain ⟨rfl, rfl, rfl⟩ := hmove
          exact .idle trivial trivial
      | ok txns =>
          simp only [hadd, Option.some.injEq, Prod.mk.injEq] at hmove
          obtain ⟨rfl, rfl, rfl⟩ := hmove
          obtain ⟨r, hr, hactive, rfl⟩ :=
            InMemoryTxnStore.addParticipant_eq_ok hadd
          exact .enlist (p := ⟨endpoint, crashCount⟩) hallow hr hactive

theorem of_transition {txn : TransactionRecord} {old new : TransactionState}
    {after : After}
    (hmove : TxnPc.go config i h (.transition txn old new after) =
      some (h', pc', events)) :
    TxnMove config i h (.transition txn old new after) h' pc' events := by
  simp only [go] at hmove
  rcases h.txns.updateStateIf_cases txn.txnId old new with
    ⟨r, hr, hstate, heq⟩ | ⟨r, hr, hne, heq⟩ | ⟨hr, heq⟩ <;>
    simp only [heq, stay, Option.some.injEq, Prod.mk.injEq] at hmove <;>
    obtain ⟨rfl, rfl, rfl⟩ := hmove
  · exact .transition hr hstate
  · refine .transitionFailed (fun r' hr' => ?_) (by simp)
    rw [hr] at hr'
    exact Option.some.inj hr' ▸ hne
  · exact .transitionFailed (by simp [hr]) (by simp)

theorem of_go (hmove : TxnPc.go config i h pc = some (h', pc', events)) :
    TxnMove config i h pc h' pc' events := by
  cases pc with
  | beginCreate txnId granted =>
      simp only [go, Option.some.injEq, Prod.mk.injEq] at hmove
      obtain ⟨rfl, rfl, rfl⟩ := hmove
      exact .create
  | enlist => exact of_enlist hmove
  | getState => exact of_fetch_idle hmove trivial fun _ => trivial
  | commit =>
      exact of_claim hmove (.commit _) trivial trivial
        fun _ => trivial
  | commitLost => exact of_fetch_idle hmove trivial fun _ => trivial
  | commitFetch => exact of_fetch hmove (.commit _)
  | transition => exact of_transition hmove
  | abort =>
      exact of_claim hmove (.abort _) trivial trivial
        fun _ => trivial
  | abortLost => exact of_fetch_idle hmove trivial fun _ => trivial
  | abortFetch => exact of_fetch hmove (.abort _)
  | abortExpired =>
      refine of_claim hmove (.abortExpired _ _) trivial trivial
        fun e => ?_
      cases e <;> trivial
  | expiredFetch txnId =>
      simp only [go] at hmove
      split at hmove
      · next hr =>
        simp only [stay, Option.some.injEq, Prod.mk.injEq] at hmove
        obtain ⟨rfl, rfl, rfl⟩ := hmove
        exact .fetchFailed (.expired txnId) hr
      · next txn hr =>
        simp only [stay, Option.some.injEq, Prod.mk.injEq] at hmove
        obtain ⟨rfl, rfl, rfl⟩ := hmove
        exact .fetch (.expired txnId) hr
  | begin | prepareAndCommit | preparing | committing | aborting | cancelLease
  | lease | returned => exact of_join rfl hmove

theorem of_advance {choice : TxnChoice}
    (hmove : pc.advance config i h choice = some (h', pc', events)) :
    TxnMove config i h pc h' pc' events := by
  cases choice with
  | go => exact of_go hmove
  | uuids txnId leaseId =>
      cases pc with
      | begin ttlSecs =>
          simp only [advance, grantLease] at hmove
          split at hmove
          · cases hmove
          · next hfresh =>
            rw [not_or] at hfresh
            split at hmove <;>
              simp only [Option.some.injEq, Prod.mk.injEq] at hmove <;>
              obtain ⟨rfl, rfl, rfl⟩ := hmove
            · exact .beginFailed
            · next hgrant => exact .begin hfresh.1 hfresh.2 hgrant
      | _ => cases hmove
  | send k =>
      simp only [advance, Option.map_eq_some_iff, Prod.mk.injEq] at hmove
      obtain ⟨⟨e, pc₁⟩, hsend, rfl, rfl, rfl⟩ := hmove
      exact .send hsend
  | vote k reply =>
      simp only [advance, Option.map_eq_some_iff, Prod.mk.injEq] at hmove
      obtain ⟨⟨e, pc₁⟩, hvote, rfl, rfl, rfl⟩ := hmove
      exact .vote hvote
  | ack k ok =>
      simp only [advance, Option.map_eq_some_iff, Prod.mk.injEq] at hmove
      obtain ⟨pc₁, hack, rfl, rfl, rfl⟩ := hmove
      exact .ack hack
  | lease c =>
      cases pc with
      | cancelLease pc result =>
          simp only [advance, leaseStep, Option.map_eq_some_iff,
            Prod.mk.injEq] at hmove
          obtain ⟨⟨landlord, pc₁⟩, hstep, rfl, rfl, rfl⟩ := hmove
          exact .cancelLease hstep
      | lease pc =>
          simp only [advance, leaseStep, Option.map_eq_some_iff,
            Prod.mk.injEq] at hmove
          obtain ⟨⟨landlord, pc₁⟩, hstep, rfl, rfl, rfl⟩ := hmove
          exact .lease hstep
      | _ => cases hmove

/-! ## Calls in the hands of the lease manager -/

theorem of_cancelLease {lpc : LeasePc} {result : TxnResult}
    (hmove : TxnMove config i h (.cancelLease lpc result) h' pc' events) :
    ∃ c landlord lpc',
      lpc.advance config.lease h.landlord c = some (landlord, lpc') ∧
      h' = { h with landlord := landlord } ∧ pc' = afterCancel result lpc' ∧
      events = [] := by
  cases hmove with
  | cancelLease hstep => exact ⟨_, _, _, hstep, rfl, rfl, rfl⟩
  | idle hpc => exact False.elim hpc
  | claim hclaims => cases hclaims
  | fetch hfetches | fetchFailed hfetches => cases hfetches
  | join hmove | send hmove | vote hmove | ack hmove => cases hmove

theorem of_lease {lpc : LeasePc}
    (hmove : TxnMove config i h (.lease lpc) h' pc' events) :
    ∃ c landlord lpc',
      lpc.advance config.lease h.landlord c = some (landlord, lpc') ∧
      h' = { h with landlord := landlord } ∧ pc' = .lease lpc' ∧
      events = grantEvents lpc lpc' := by
  cases hmove with
  | lease hstep => exact ⟨_, _, _, hstep, rfl, rfl, rfl⟩
  | idle hpc => exact False.elim hpc
  | claim hclaims => cases hclaims
  | fetch hfetches | fetchFailed hfetches => cases hfetches
  | join hmove | send hmove | vote hmove | ack hmove => cases hmove

theorem not_returned {result : TxnResult} :
    ¬ TxnMove config i h (.returned result) h' pc' events := by
  intro hmove
  cases hmove with
  | idle hpc => exact False.elim hpc
  | claim hclaims => cases hclaims
  | fetch hfetches | fetchFailed hfetches => cases hfetches
  | join hmove | send hmove | vote hmove | ack hmove => cases hmove

end TxnMove

end Coordin8
