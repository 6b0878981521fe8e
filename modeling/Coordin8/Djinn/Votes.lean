import Coordin8.Djinn.Calls

/-!
# What the Space answers

A handler of the participant service that has returned leaves the Space released
from the transaction, with one exception: a `Prepare` that found something to
commit.  `HandlerAt` follows a handler from its start.  The votes which the
coordinator counts for the Space are the answers of such handlers
(`DjinnReachable.voted`).
-/

namespace Coordin8

open Support Support.DashMap SpacePc

/-! ## Handlers -/

/-- The answer of a handler that has committed or aborted. -/
def CallKind.done : CallKind → SpaceReply
  | .prepare | .prepareAndCommit => .vote 0
  | .commit | .abort => .unit

/-- The call has committed or aborted in the store and will answer `reply`. -/
def SpacePc.Settling (reply : SpaceReply) : SpacePc → Prop
  | .unmark _ _ _ r | .settleCancel _ _ _ r | .settleSend _ _ r => r = reply
  | .returned answer => answer = .ok reply
  | _ => False

/-- Where the handler of a call of the given kind for the transaction `x`
stands. -/
inductive HandlerAt (x : String) (log : List SpaceEvent) :
    CallKind → SpacePc → Prop where
  | prepare : HandlerAt x log .prepare (.prepare x)
  | prepared : HandlerAt x log .prepare (.returned (.ok (.vote 0)))
  | prepareAndCommit : HandlerAt x log .prepareAndCommit (.prepareAndCommit x)
  | notChanged {kind : CallKind}
      (hkind : kind = .prepare ∨ kind = .prepareAndCommit)
      (hreleased : Released x log) :
      HandlerAt x log kind (.returned (.ok (.vote 1)))
  | commitTxn {kind : CallKind}
      (hkind : kind = .prepareAndCommit ∨ kind = .commit) :
      HandlerAt x log kind (.commitTxn x kind.done)
  | abortTxn : HandlerAt x log .abort (.abortTxn x)
  | settling {kind : CallKind} {pc : SpacePc} (hkind : kind ≠ .prepare)
      (hreleased : Released x log) (hpc : pc.Settling kind.done) :
      HandlerAt x log kind pc

variable {op : SpaceOp} {result : SpaceResult}

section Handlers

variable {config : SpaceConfig} {i : Nat} {h h' : SpaceHost} {pc pc' : SpacePc}
  {events log : List SpaceEvent} {x : String} {kind : CallKind}
  {reply : SpaceReply}

theorem SpacePc.settling_settle (todo sends : List TupleRecord)
    (reply : SpaceReply) : (settle todo sends reply).Settling reply := by
  unfold settle
  split <;> rfl

theorem SpacePc.Settling.afterLease {lpc : LeasePc} (hpc : pc.Settling reply)
    (hafter : pc.afterLease lpc = some pc') : pc'.Settling reply := by
  cases pc with
  | settleCancel =>
      obtain rfl := hpc
      cases lpc <;> cases hafter <;> first | rfl | exact settling_settle ..
  | unmark | settleSend | returned => cases hafter
  | _ => exact False.elim hpc

theorem SpacePc.Settling.no_call
    (hpc : pc.Settling reply) : ¬ Calls pc op result pc' := by
  intro hcalls
  cases hcalls <;> exact hpc

theorem SpacePc.Settling.move (hpc : pc.Settling reply)
    (hmove : SpaceMove config i h pc h' pc' events) : pc'.Settling reply := by
  cases hmove with
  | lease _ _ hafter => exact hpc.afterLease hafter
  | unmark | sendSettled =>
      obtain rfl := hpc
      exact settling_settle ..
  | store hcalls => exact absurd hcalls hpc.no_call
  | pass hpasses => cases hpasses <;> exact False.elim hpc
  | drawFailed hdraws =>
      cases pc <;> first | exact False.elim hdraws | exact False.elim hpc
  | _ => exact False.elim hpc

theorem HandlerAt.start (x : String) (log : List SpaceEvent)
    (kind : CallKind) : HandlerAt x log kind (kind.handler x) := by
  cases kind with
  | prepare => exact .prepare
  | prepareAndCommit => exact .prepareAndCommit
  | commit => exact .commitTxn (Or.inr rfl)
  | abort => exact .abortTxn

theorem HandlerAt.mono {log' : List SpaceEvent} (hat : HandlerAt x log kind pc)
    (hsub : log ⊆ log') : HandlerAt x log' kind pc := by
  cases hat with
  | prepare => exact .prepare
  | prepared => exact .prepared
  | prepareAndCommit => exact .prepareAndCommit
  | notChanged hkind hreleased => exact .notChanged hkind (hreleased.mono hsub)
  | commitTxn hkind => exact .commitTxn hkind
  | abortTxn => exact .abortTxn
  | settling hkind hreleased hpc =>
      exact .settling hkind (hreleased.mono hsub) hpc

theorem released_of_store
    (hx : (SpaceEvent.store op result).releases = some x) :
    Released x (log ++ [.store op result]) :=
  ⟨_, List.mem_append_right _ (List.mem_singleton_self _), hx⟩

theorem HandlerAt.calls
    (hat : HandlerAt x log kind pc) (hcalls : Calls pc op result pc') :
    HandlerAt x (log ++ [.store op result]) kind pc' := by
  cases hat with
  | prepare =>
      cases hcalls with
      | prepare _ hasState =>
          cases hasState with
          | true => exact .prepared
          | false => exact .notChanged (Or.inl rfl) (released_of_store rfl)
  | prepareAndCommit =>
      cases hcalls with
      | prepareAndCommit _ hasState =>
          cases hasState with
          | true => exact .commitTxn (Or.inl rfl)
          | false => exact .notChanged (Or.inr rfl) (released_of_store rfl)
  | commitTxn hkind =>
      cases hcalls
      refine .settling ?_ (released_of_store rfl) rfl
      rcases hkind with rfl | rfl <;> simp
  | abortTxn =>
      cases hcalls
      exact .settling (by simp) (released_of_store rfl) rfl
  | settling _ _ hpc => exact absurd hcalls hpc.no_call
  | prepared | notChanged => cases hcalls

theorem HandlerAt.move (hat : HandlerAt x log kind pc)
    (hmove : SpaceMove config i h pc h' pc' events) :
    HandlerAt x (log ++ events) kind pc' := by
  rcases hmove.events_cases with ⟨op, hcalls, -, rfl⟩ | ⟨-, hnone, -⟩
  · exact hat.calls hcalls
  · cases hat with
    | settling hkind hreleased hpc =>
        exact .settling hkind (hreleased.mono (List.subset_append_left _ _))
          (hpc.move hmove)
    | _ =>
        cases hmove with
        | store => cases hnone
        | pass hpasses => cases hpasses
        | drawFailed hdraws => exact False.elim hdraws
        | lease hlpc => cases hlpc

/-- A handler that has returned has released the Space, unless it was a
`Prepare` that found something. -/
theorem HandlerAt.released (hat : HandlerAt x log kind (.returned (.ok reply)))
    (hne : kind ≠ .prepare ∨ reply ≠ .vote 0) : Released x log := by
  cases hat with
  | prepared => simp at hne
  | notChanged _ hreleased | settling _ hreleased => exact hreleased

theorem HandlerAt.vote {v : Int32}
    (hat : HandlerAt x log kind (.returned (.ok (.vote v)))) :
    v = 0 ∨ v = 1 := by
  cases hat with
  | prepared => exact Or.inl rfl
  | notChanged => exact Or.inr rfl
  | settling hkind _ hpc =>
      cases kind <;> cases hpc <;> exact Or.inl rfl

end Handlers

section Calls

variable {config : DjinnConfig} {s s' : Djinn} {act : DjinnAct} {x : String}
  {kind : CallKind} {reply : SpaceReply}

theorem DjinnReachable.handler (hreach : DjinnReachable config s)
    {call : SpaceCall} (hcall : call ∈ s.calls) {j : Nat}
    (hj : call.handler = some j) :
    ∃ pc, s.space.tasks[j]? = some pc ∧
      HandlerAt call.txnId s.space.log call.kind pc := by
  refine Reachable.invariant
    (P := fun s => ∀ call ∈ s.calls, ∀ j, call.handler = some j →
      ∃ pc, s.space.tasks[j]? = some pc ∧
        HandlerAt call.txnId s.space.log call.kind pc)
    (by simp [Djinn.new]) ?_ hreach call hcall j hj
  intro s act s' _ ih hstep call hcall j hj
  have hmove := DjinnMove.of_step hstep
  rcases hmove.call_before hcall with
    ⟨call₀, hcall₀, -, -, -, rfl | ⟨-, j', hj', hhandler⟩⟩ | ⟨hnone, -⟩
  · obtain ⟨pc, hpc, hat⟩ := ih call hcall₀ j hj
    rcases hmove.space_step with heq | ⟨spaceAct, hspace⟩
    · exact ⟨pc, by rw [heq]; exact hpc, by rw [heq]; exact hat⟩
    · rcases Program.task_of_step hspace hpc with
        hsame | ⟨choice, shared, pc', events, -, hadv, hpc', hlog⟩
      · exact ⟨pc, hsame, hat.mono (Program.log_subset_of_step hspace)⟩
      · exact ⟨pc', hpc', hlog ▸ hat.move (.of_advance hadv)⟩
  · obtain rfl := Option.some.inj (hj.symm.trans hj')
    exact ⟨_, hhandler, .start ..⟩
  · rw [hj] at hnone
    cases hnone

/-- The Space has answered a call for `x`. -/
def Djinn.Replied (s : Djinn) (x : String) (kind : CallKind)
    (reply : SpaceReply) : Prop :=
  ∃ call ∈ s.calls, call.txnId = x ∧ call.kind = kind ∧
    ∃ j, call.handler = some j ∧
      s.space.tasks[j]? = some (.returned (.ok reply))

theorem DjinnMove.returned (hmove : DjinnMove config s act s') {j : Nat}
    {answer : SpaceAnswer}
    (hj : s.space.tasks[j]? = some (.returned answer)) :
    s'.space.tasks[j]? = some (.returned answer) := by
  rcases hmove.space_step with heq | ⟨spaceAct, hspace⟩
  · rw [heq]
    exact hj
  · rcases Program.task_of_step hspace hj with
      hsame | ⟨choice, shared, pc', events, -, hadv, -⟩
    · exact hsame
    · simp [spaceProgram, no_move_of_returned] at hadv

theorem Djinn.Replied.step (h : s.Replied x kind reply)
    (hmove : DjinnMove config s act s') : s'.Replied x kind reply := by
  obtain ⟨call, hcall, htxn, hkind, j, hj, hreply⟩ := h
  obtain ⟨call', hcall', -, -, hsame⟩ := hmove.call_after hcall
  obtain rfl := hsame j hj
  exact ⟨call', hcall', htxn, hkind, j, hj, hmove.returned hreply⟩

theorem DjinnReachable.released (hreach : DjinnReachable config s)
    (hreplied : s.Replied x kind reply)
    (hne : kind ≠ .prepare ∨ reply ≠ .vote 0) : Released x s.space.log := by
  obtain ⟨call, hcall, rfl, rfl, j, hj, hreply⟩ := hreplied
  obtain ⟨pc, hpc, hat⟩ := hreach.handler hcall hj
  obtain rfl := Option.some.inj (hreply.symm.trans hpc)
  exact hat.released hne

theorem DjinnReachable.vote_cases (hreach : DjinnReachable config s) {v : Int32}
    (hreplied : s.Replied x kind (.vote v)) : v = 0 ∨ v = 1 := by
  obtain ⟨call, hcall, rfl, rfl, j, hj, hreply⟩ := hreplied
  obtain ⟨pc, hpc, hat⟩ := hreach.handler hcall hj
  obtain rfl := Option.some.inj (hreply.symm.trans hpc)
  exact hat.vote

end Calls

/-! ## Votes -/

theorem TxnReachable.voted_not_active {config : TxnConfig} {s : TxnProc}
    {x : String} {kind : CallKind} {k : Nat} {v : Option Int32}
    (hreach : TxnReachable config s) (hv : .voted x kind k v ∈ s.log) :
    ∃ r : TransactionRecord, s.shared.txns.records[x]? = some r ∧
      r.state ≠ .active := by
  have hmem : .voted x kind k v ∈ about x s.log := (mem_about rfl).mpr hv
  have hrec := hreach.glob.record x
  cases hr : s.shared.txns.records[x]? with
  | none =>
      rw [hr] at hrec
      rw [show about x s.log = [] from hrec] at hmem
      cases hmem
  | some r =>
      rw [hr] at hrec
      refine ⟨r, rfl, fun hactive => ?_⟩
      have hnone := ((hrec.2.2.1 hactive).2.votes kind k v).mp hmem
      cases kind <;> cases hnone

/-- A vote that the owner of `x` takes in: it is for `x`, it comes from the
participant with that number, and all calls so far were of its kind. -/
theorem Progress.vote_at {x y : String} {r : TransactionRecord}
    {g : List TxnEvent} {pc pc' : TxnPc} {k k' : Nat}
    {reply reply' : Option Int32} {kind : CallKind} (hp : Progress x r g pc)
    (hid : r.txnId = x)
    (hvote : pc.vote k reply = some (.voted y kind k' reply', pc')) :
    y = x ∧ k' = k ∧ reply' = reply ∧
      pc.callee k = (endpoints r.participants)[k]? ∧
      ∀ kind', callsOf kind' g ≠ [] → kind' = kind := by
  cases pc with
  | prepareAndCommit txn batch =>
      obtain ⟨⟨txnId, -⟩, -, ⟨p, hps, htargets⟩, hg⟩ := hp
      obtain ⟨out, -, heq⟩ := Option.map_eq_some_iff.mp hvote
      obtain ⟨rfl, rfl, rfl, rfl⟩ := TxnEvent.voted.inj (Prod.mk.inj heq).1
      refine ⟨txnId.trans hid, rfl, rfl, ?_, fun kind' hne => ?_⟩
      · rw [hps, endpoints, List.map_singleton, ← htargets]
        exact (List.getElem?_map ..).symm
      · cases kind' <;> first | rfl | exact absurd (hg.calls _).eq_nil hne
  | preparing txn batch =>
      obtain ⟨⟨txnId, -⟩, -, -, htargets, hg⟩ := hp
      obtain ⟨out, -, heq⟩ := Option.map_eq_some_iff.mp hvote
      obtain ⟨rfl, rfl, rfl, rfl⟩ := TxnEvent.voted.inj (Prod.mk.inj heq).1
      refine ⟨txnId.trans hid, rfl, rfl, ?_, fun kind' hne => ?_⟩
      · rw [← htargets]
        exact (List.getElem?_map ..).symm
      · cases kind' <;> first | rfl | exact absurd (hg.calls _).eq_nil hne
  | _ => cases hvote

section Voted

variable {config : DjinnConfig} {s s' : Djinn} {act : DjinnAct} {x : String}
  {kind : CallKind} {k : Nat} {v : Int32} {r : TransactionRecord}
  {p : ParticipantRecord}

theorem TxnReachable.vote_at {config : TxnConfig} {s : TxnProc} {i m : Nat}
    {pc pc' : TxnPc} {reply reply' : Option Int32}
    (hreach : TxnReachable config s) (hpc : s.tasks[i]? = some pc)
    (hvote : pc.vote m reply = some (.voted x kind k reply', pc')) :
    ∃ r, s.shared.txns.records[x]? = some r ∧ r.state ≠ .active ∧
      Progress x r (about x s.log) pc ∧ claimants (about x s.log) = [i] := by
  have hclaim := (hreach.loc hpc).owner x (TxnPc.vote_txn hvote).symm
  obtain ⟨r, hr, hp⟩ := (hreach.loc hpc).progress x hclaim
  exact ⟨r, hr, hp.not_active, hp, hclaim⟩

/-- A new vote in the log for an endpoint of the Space is what a handler of the
Space has answered. -/
theorem DjinnReachable.voted_fresh (hreach : DjinnReachable config s)
    (hfresh : Fresh config s (.voted x kind k (some v)) act) :
    ∃ r, s.txn.shared.txns.records[x]? = some r ∧ r.state ≠ .active ∧
      ((endpoints r.participants)[k]? = some config.endpoint →
        s.Replied x kind (.vote v)) := by
  cases hfresh with
  | sent hpc hsend =>
      obtain ⟨_, _, _, h⟩ := TxnPc.send_event hsend
      cases h
  | failed hpc hvote =>
      obtain ⟨_, _, h⟩ := TxnPc.vote_event hvote
      cases h
  | elsewhere hpc hcallee he =>
      rcases he with hsend | ⟨reply, hvote⟩
      · obtain ⟨_, _, _, h⟩ := TxnPc.send_event hsend
        cases h
      · obtain ⟨r, hr, hactive, hp, -⟩ := hreach.txn.vote_at hpc hvote
        obtain ⟨-, rfl, -, hep, -⟩ :=
          hp.vote_at (hreach.txn.glob.keyed x r hr) hvote
        exact ⟨r, hr, hactive, fun hk => absurd (hep.trans hk) hcallee⟩
  | @answered c j call v' pc pc' hcall hj hreply hpc hvote =>
      obtain ⟨r, hr, hactive, hp, hclaim⟩ := hreach.txn.vote_at hpc hvote
      -- The call was made by the same task, so for the same transaction.
      have hmem := List.mem_of_getElem? hcall
      obtain ⟨hcalled, hclaim'⟩ := hreach.caller hmem
      obtain ⟨r', hr', hp'⟩ := (hreach.txn.loc hpc).progress _ hclaim'
      obtain ⟨htxn, rfl, hv, -, hkinds⟩ :=
        hp'.vote_at (hreach.txn.glob.keyed _ _ hr') hvote
      obtain rfl := Option.some.inj hv
      refine ⟨r, hr, hactive, fun _ => ⟨call, hmem, htxn.symm, hkinds _ ?_, j,
        hj, hreply⟩⟩
      exact List.ne_nil_of_mem (mem_callsOf.mpr hcalled)

theorem DjinnReachable.voted (hreach : DjinnReachable config s)
    (hr : s.txn.shared.txns.records[x]? = some r)
    (hk : (endpoints r.participants)[k]? = some config.endpoint)
    (hv : .voted x kind k (some v) ∈ s.txn.log) :
    s.Replied x kind (.vote v) := by
  refine Reachable.invariant
    (P := fun s => ∀ (r : TransactionRecord),
      s.txn.shared.txns.records[x]? = some r →
      (endpoints r.participants)[k]? = some config.endpoint →
      .voted x kind k (some v) ∈ s.txn.log → s.Replied x kind (.vote v))
    (by simp [Djinn.new, TxnProc.new]) ?_ hreach r hr hk hv
  intro s act s' (hreach : DjinnReachable config s) ih hstep r' hr' hk hv
  have hmove := DjinnMove.of_step hstep
  obtain ⟨acts, hrun⟩ := hmove.txn_run
  -- The participants are those of before the step, whether the vote is old
  -- or new.
  have hsame : ∀ r : TransactionRecord,
      s.txn.shared.txns.records[x]? = some r → r.state ≠ .active →
      (endpoints r.participants)[k]? = some config.endpoint := by
    intro r hr hactive
    obtain ⟨r₁, hr₁, -, hps, -⟩ := hreach.txn.kept hrun hr hactive
    obtain rfl := Option.some.inj (hr'.symm.trans hr₁)
    exact hps ▸ hk
  rcases hmove.fresh hv rfl with hold | hfresh
  · obtain ⟨r, hr, hactive⟩ := hreach.txn.voted_not_active hold
    exact (ih r hr (hsame r hr hactive) hold).step hmove
  · obtain ⟨r, hr, hactive, hreplied⟩ := hreach.voted_fresh hfresh
    exact (hreplied (hsame r hr hactive)).step hmove

end Voted

end Coordin8
