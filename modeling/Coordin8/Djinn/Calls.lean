import Coordin8.Djinn.Bundle
import Coordin8.Space.Participant
import Coordin8.Txn.Agreement

/-!
# The calls between coordinator and Space

`DjinnMove` lists the steps of the bundled Djinn.  Every step is made of steps of
the two managers, so what was proved of each of them holds here
(`DjinnReachable.txn`, `DjinnReachable.space`).  What is new is how they are
tied together: a transaction with something in the Space counts the Space among
its participants; every call to the Space is on record, with the task that
handles it; and the votes that the coordinator counts for the Space are those of
its handlers.
-/

namespace Coordin8

open Support Support.DashMap

/-- What one step of the Djinn can be. -/
inductive DjinnMove (config : DjinnConfig) (s : Djinn) :
    DjinnAct → Djinn → Prop where
  | txn {act : TxnAct} {txn : TxnProc}
      (hfree : s.txn.calling config.endpoint act = false)
      (hstep : (txnProgram config.txn).step s.txn act = some txn) :
      DjinnMove config s (.txn act) { s with txn := txn }
  | space {act : SpaceAct} {space : SpaceProc} (hfree : spaceCalled act = false)
      (hstep : (spaceProgram config.space).step s.space act = some space) :
      DjinnMove config s (.space act) { s with space := space }
  | enlist {j : Nat} {x : String} {next : Enlisting} {txn : TxnProc}
      {result : TxnResult} {space : SpaceProc}
      (hpc : s.space.tasks[j]? = some (.enlist x next))
      (hrun : run (txnProgram config.txn).step s.txn
        [.call (.enlist x config.endpoint 0),
          .step s.txn.tasks.length .go] = some txn)
      (hresult : txn.tasks[s.txn.tasks.length]? = some (.returned result))
      (hstep : (spaceProgram config.space).step s.space
        (.step j (.enlisted (result.map fun _ => ()))) = some space) :
      DjinnMove config s (.enlist j) { s with txn := txn, space := space }
  | send {i k : Nat} {pc pc' : TxnPc} {x : String} {kind : CallKind}
      {txn : TxnProc} (hpc : s.txn.tasks[i]? = some pc)
      (hsend : pc.send k = some (.called x kind config.endpoint, pc'))
      (hstep : (txnProgram config.txn).step s.txn (.step i (.send k)) =
        some txn) :
      DjinnMove config s (.send i k)
        { s with
          txn := txn
          calls := s.calls ++ [{
            task := i
            slot := k
            kind := kind
            txnId := x
            handler := none }] }
  | deliver {c : Nat} {call : SpaceCall} {space : SpaceProc}
      (hcall : s.calls[c]? = some call) (hnew : call.handler = none)
      (hstep : (spaceProgram config.space).step s.space
        (.call (call.kind.handler call.txnId)) = some space) :
      DjinnMove config s (.deliver c)
        { s with
          space := space
          calls := s.calls.set c
            { call with handler := some s.space.tasks.length } }
  | answer {c j : Nat} {call : SpaceCall} {reply : SpaceReply}
      {choice : TxnChoice} {txn : TxnProc} (hcall : s.calls[c]? = some call)
      (hj : call.handler = some j)
      (hreply : s.space.tasks[j]? = some (.returned (.ok reply)))
      (hchoice : call.kind.receipt call.slot (some reply) = some choice)
      (hstep : (txnProgram config.txn).step s.txn (.step call.task choice) =
        some txn) :
      DjinnMove config s (.answer c) { s with txn := txn }
  | fail {c : Nat} {call : SpaceCall} {choice : TxnChoice} {txn : TxnProc}
      (hcall : s.calls[c]? = some call)
      (hchoice : call.kind.receipt call.slot none = some choice)
      (hstep : (txnProgram config.txn).step s.txn (.step call.task choice) =
        some txn) :
      DjinnMove config s (.fail c) { s with txn := txn }

variable {call : SpaceCall} {choice : TxnChoice}

namespace DjinnMove

variable {config : DjinnConfig} {s s' : Djinn} {act : DjinnAct}

theorem of_enlist {j : Nat} (h : Djinn.enlist config s j = some s') :
    DjinnMove config s (.enlist j) s' := by
  unfold Djinn.enlist at h
  split at h
  · next x next hpc =>
    obtain ⟨txn, hrun, h⟩ := Option.bind_eq_some_iff.mp h
    split at h
    · next result hresult =>
      obtain ⟨space, hstep, rfl⟩ := Option.map_eq_some_iff.mp h
      exact .enlist hpc hrun hresult hstep
    · cases h
  · cases h

theorem of_send {i k : Nat} (h : Djinn.send config s i k = some s') :
    DjinnMove config s (.send i k) s' := by
  unfold Djinn.send at h
  split at h
  · next x kind ep pc' hbind =>
    obtain ⟨pc, hpc, hsend⟩ := Option.bind_eq_some_iff.mp hbind
    split at h
    · next heq =>
      subst heq
      obtain ⟨txn, hstep, rfl⟩ := Option.map_eq_some_iff.mp h
      exact .send hpc hsend hstep
    · cases h
  · cases h

theorem of_deliver {c : Nat} (h : Djinn.deliver config s c = some s') :
    DjinnMove config s (.deliver c) s' := by
  unfold Djinn.deliver at h
  split at h
  · next call hcall =>
    split at h
    · cases h
    · next hnew =>
      obtain ⟨space, hstep, rfl⟩ := Option.map_eq_some_iff.mp h
      exact .deliver hcall hnew hstep
  · cases h

theorem receive_eq_some {reply : Option SpaceReply}
    (h : Djinn.receive config s call reply = some s') :
    ∃ choice txn, call.kind.receipt call.slot reply = some choice ∧
      (txnProgram config.txn).step s.txn (.step call.task choice) = some txn ∧
      s' = { s with txn := txn } := by
  unfold Djinn.receive at h
  split at h
  · next choice hchoice =>
    obtain ⟨txn, hstep, rfl⟩ := Option.map_eq_some_iff.mp h
    exact ⟨choice, txn, hchoice, hstep, rfl⟩
  · cases h

theorem of_answer {c : Nat} (h : Djinn.answer config s c = some s') :
    DjinnMove config s (.answer c) s' := by
  unfold Djinn.answer at h
  split at h
  · next call hcall =>
    split at h
    · next reply hbind =>
      obtain ⟨j, hj, hreply⟩ := Option.bind_eq_some_iff.mp hbind
      obtain ⟨choice, txn, hchoice, hstep, rfl⟩ := receive_eq_some h
      exact .answer hcall hj hreply hchoice hstep
    · cases h
  · cases h

theorem of_step (h : Djinn.step config s act = some s') :
    DjinnMove config s act s' := by
  cases act with
  | txn act =>
      simp only [Djinn.step] at h
      split at h
      · cases h
      · next hfree =>
        obtain ⟨txn, hstep, rfl⟩ := Option.map_eq_some_iff.mp h
        exact .txn (Bool.eq_false_iff.mpr hfree) hstep
  | space act =>
      simp only [Djinn.step] at h
      split at h
      · cases h
      · next hfree =>
        obtain ⟨space, hstep, rfl⟩ := Option.map_eq_some_iff.mp h
        exact .space (Bool.eq_false_iff.mpr hfree) hstep
  | enlist j => exact of_enlist h
  | send i k => exact of_send h
  | deliver c => exact of_deliver h
  | answer c => exact of_answer h
  | fail c =>
      obtain ⟨call, hcall, h⟩ := Option.bind_eq_some_iff.mp h
      obtain ⟨choice, txn, hchoice, hstep, rfl⟩ := receive_eq_some h
      exact .fail hcall hchoice hstep

/-! ## The managers run as before -/

theorem txn_run (hmove : DjinnMove config s act s') :
    ∃ acts, run (txnProgram config.txn).step s.txn acts = some s'.txn := by
  cases hmove with
  | txn _ hstep | send _ _ hstep | answer _ _ _ _ hstep | fail _ _ hstep =>
      exact ⟨_, run_singleton hstep⟩
  | enlist _ hrun => exact ⟨_, hrun⟩
  | space | deliver => exact ⟨[], rfl⟩

theorem space_step (hmove : DjinnMove config s act s') :
    s'.space = s.space ∨ ∃ spaceAct,
      (spaceProgram config.space).step s.space spaceAct = some s'.space := by
  cases hmove with
  | space _ hstep | enlist _ _ _ hstep | deliver _ _ hstep =>
      exact Or.inr ⟨_, hstep⟩
  | txn | send | answer | fail => exact Or.inl rfl

end DjinnMove

theorem DjinnReachable.txn {config : DjinnConfig} {s : Djinn}
    (hreach : DjinnReachable config s) : TxnReachable config.txn s.txn := by
  refine Reachable.invariant
    (P := fun s => TxnReachable config.txn s.txn) ⟨[], rfl⟩ ?_ hreach
  intro s act s' _ htxn hstep
  obtain ⟨acts, hrun⟩ := (DjinnMove.of_step hstep).txn_run
  exact htxn.append hrun

theorem DjinnReachable.space {config : DjinnConfig} {s : Djinn}
    (hreach : DjinnReachable config s) : SpaceReachable config.space s.space := by
  refine Reachable.invariant
    (P := fun s => SpaceReachable config.space s.space) ⟨[], rfl⟩ ?_ hreach
  intro s act s' _ hspace hstep
  rcases (DjinnMove.of_step hstep).space_step with heq | ⟨spaceAct, hstep⟩
  · exact heq ▸ hspace
  · exact hspace.tail hstep

/-! ## Enlistment -/

/-- The Space enlisted in the transaction `x`. -/
def Djinn.Enlisted (config : DjinnConfig) (s : Djinn) (x : String) : Prop :=
  ∃ p : ParticipantRecord, p.endpoint = config.endpoint ∧
    .enlisted x p ∈ s.txn.log

theorem TxnPc.enlist_go {config : TxnConfig} {i : Nat} {h h' : TxnHost}
    {x ep : String} {n : UInt64} {pc' : TxnPc} {events : List TxnEvent}
    (hgo : TxnPc.go config i h (.enlist x ep n) = some (h', pc', events)) :
    .enlisted x ⟨ep, n⟩ ∈ events ∨ ∃ e, pc' = .returned (.error e) := by
  simp only [go, stay] at hgo
  split at hgo
  · simp only [Option.some.injEq, Prod.mk.injEq] at hgo
    exact Or.inr ⟨_, hgo.2.1.symm⟩
  · split at hgo <;> simp only [Option.some.injEq, Prod.mk.injEq] at hgo
    · exact Or.inr ⟨_, hgo.2.1.symm⟩
    · exact Or.inl (by simp [← hgo.2.2])

/-- The enlister accepts only what the coordinator has recorded. -/
theorem enlisted_of_run {config : TxnConfig} {s s' : TxnProc} {x ep : String}
    {result : TxnResult}
    (hrun : run (txnProgram config).step s
      [.call (.enlist x ep 0), .step s.tasks.length .go] = some s')
    (hresult : s'.tasks[s.tasks.length]? = some (.returned result))
    (hok : result.map (fun _ => ()) = .ok ()) :
    .enlisted x ⟨ep, 0⟩ ∈ s'.log := by
  obtain ⟨m, hcall, hrest⟩ := run_cons_eq_some.mp hrun
  obtain ⟨m', hgo, hnil⟩ := run_cons_eq_some.mp hrest
  obtain rfl := Option.some.inj hnil
  obtain ⟨-, rfl⟩ := Program.step_call.mp hcall
  obtain ⟨pc, shared, pc', events, hpc, hadv, rfl⟩ := Program.step_step.mp hgo
  simp only [List.getElem?_concat_length, Option.some.injEq] at hpc
  subst hpc
  rcases TxnPc.enlist_go (i := s.tasks.length) hadv with hmem | ⟨e, rfl⟩
  · exact List.mem_append_right _ hmem
  · have hfailed := List.getElem?_set_self (a := TxnPc.returned (.error e))
      (show s.tasks.length < (s.tasks ++ [TxnPc.enlist x ep 0]).length by simp)
    obtain rfl := TxnPc.returned.inj
      (Option.some.inj (hfailed.symm.trans hresult))
    cases hok

section Moves

variable {config : DjinnConfig} {s s' : Djinn} {act : DjinnAct} {x : String}

theorem DjinnMove.log_subset (hmove : DjinnMove config s act s') :
    s.txn.log ⊆ s'.txn.log := by
  obtain ⟨acts, hrun⟩ := hmove.txn_run
  exact Program.log_subset_of_run hrun

theorem Djinn.Enlisted.step (h : s.Enlisted config x)
    (hmove : DjinnMove config s act s') : s'.Enlisted config x := by
  obtain ⟨p, hp, hmem⟩ := h
  exact ⟨p, hp, hmove.log_subset hmem⟩

/-- Whatever the Space holds or does under a transaction, it has enlisted in
it. -/
theorem DjinnReachable.enrolled (hreach : DjinnReachable config s) :
    Enrolled (s.Enlisted config) s.space := by
  refine Reachable.invariant
    (P := fun s => Enrolled (s.Enlisted config) s.space) (.new _) ?_ hreach
  intro s act s' (hreach : DjinnReachable config s) henr hstep
  have hmove := DjinnMove.of_step hstep
  have hweaken : ∀ x, s.Enlisted config x → s'.Enlisted config x :=
    fun x h => h.step hmove
  clear hstep
  cases hmove with
  | txn | send | answer | fail => exact henr.weaken hweaken
  | space hfree hstep =>
      refine henr.step config.linked hreach.space hstep hweaken ?_
      rintro i x next rfl -
      cases hfree
  | deliver _ _ hstep =>
      refine henr.step config.linked hreach.space hstep hweaken ?_
      rintro i x next hact -
      cases hact
  | enlist hpc hrun hresult hstep =>
      refine henr.step config.linked hreach.space hstep hweaken ?_
      rintro i x next hact hpc'
      obtain ⟨rfl, hok⟩ := PoolAct.step.inj hact
      obtain ⟨rfl, -⟩ := SpacePc.enlist.inj
        (Option.some.inj (hpc.symm.trans hpc'))
      exact ⟨⟨config.endpoint, 0⟩, rfl, enlisted_of_run hrun hresult
        (SpaceChoice.enlisted.inj hok)⟩

end Moves

/-! ## What the coordinator says and hears -/

section Events

variable {config : TxnConfig} {i : Nat} {h h' : TxnHost} {pc pc' : TxnPc}
  {events : List TxnEvent} {k : Nat} {e : TxnEvent} {x ep : String}
  {kind : CallKind}

/-- The events of calls to participants and of their answers. -/
def TxnEvent.outbound : TxnEvent → Bool
  | .called .. | .voted .. => true
  | _ => false

theorem TxnMove.outbound (hmove : TxnMove config i h pc h' pc' events)
    (he : e ∈ events) (hout : e.outbound = true) :
    (∃ k, pc.send k = some (e, pc')) ∨
      ∃ k reply, pc.vote k reply = some (e, pc') := by
  cases hmove with
  | send hsend =>
      obtain rfl := List.mem_singleton.mp he
      exact Or.inl ⟨_, hsend⟩
  | vote hvote =>
      obtain rfl := List.mem_singleton.mp he
      exact Or.inr ⟨_, _, hvote⟩
  | begin | enlist | claim | transition =>
      obtain rfl := List.mem_singleton.mp he
      cases hout
  | transitionFailed _ hevents =>
      obtain rfl := hevents e he
      cases hout
  | lease =>
      obtain ⟨r, rfl⟩ := TxnPc.eq_of_mem_grantEvents he
      cases hout
  | _ => cases he

/-- The call is at work on its participants. -/
def TxnPc.inBatch : TxnPc → Bool
  | .prepareAndCommit .. | .preparing .. | .committing .. | .aborting .. => true
  | _ => false

theorem TxnPc.inBatch_of_send (hsend : pc.send k = some (e, pc')) :
    pc.inBatch = true := by
  cases pc <;> first | rfl | cases hsend

theorem TxnPc.inBatch_of_vote {reply : Option Int32}
    (hvote : pc.vote k reply = some (e, pc')) : pc.inBatch = true := by
  cases pc <;> first | rfl | cases hvote

/-- The other moves of a call at work on its participants are silent. -/
theorem TxnPc.advance_inBatch (hbatch : pc.inBatch = true)
    (hadv : pc.advance config i h choice = some (h', pc', events)) :
    (∃ k, choice = .send k) ∨ (∃ k reply, choice = .vote k reply) ∨
      events = [] := by
  cases choice with
  | send k => exact Or.inl ⟨k, rfl⟩
  | vote k reply => exact Or.inr (Or.inl ⟨k, reply, rfl⟩)
  | ack k ok =>
      obtain ⟨pc₁, -, heq⟩ := Option.map_eq_some_iff.mp hadv
      obtain ⟨-, -, rfl⟩ := heq
      exact Or.inr (Or.inr rfl)
  | go =>
      cases pc with
      | prepareAndCommit | preparing | committing | aborting =>
          obtain ⟨pc₁, -, heq⟩ := Option.bind_eq_some_iff.mp hadv
          obtain ⟨-, -, rfl⟩ := heq
          exact Or.inr (Or.inr rfl)
      | _ => cases hbatch
  | uuids txnId leaseId => cases pc <;> first | cases hadv | cases hbatch
  | lease c => cases pc <;> first | cases hadv | cases hbatch

/-- Calls go out in `send` moves, and votes come in in `vote` moves. -/
theorem TxnPc.advance_outbound
    (hadv : pc.advance config i h choice = some (h', pc', events))
    (he : e ∈ events) (hout : e.outbound = true) :
    (∃ k, choice = .send k ∧ pc.send k = some (e, pc')) ∨
      ∃ k reply, choice = .vote k reply ∧ pc.vote k reply = some (e, pc') := by
  have hbatch : pc.inBatch = true := by
    rcases (TxnMove.of_advance hadv).outbound he hout with
      ⟨k, hsend⟩ | ⟨k, reply, hvote⟩
    · exact inBatch_of_send hsend
    · exact inBatch_of_vote hvote
  rcases advance_inBatch hbatch hadv with ⟨k, rfl⟩ | ⟨k, reply, rfl⟩ | rfl
  · obtain ⟨⟨e', pc₁⟩, hsend, heq⟩ := Option.map_eq_some_iff.mp hadv
    obtain ⟨-, rfl, rfl⟩ := heq
    obtain rfl := List.mem_singleton.mp he
    exact Or.inl ⟨k, rfl, hsend⟩
  · obtain ⟨⟨e', pc₁⟩, hvote, heq⟩ := Option.map_eq_some_iff.mp hadv
    obtain ⟨-, rfl, rfl⟩ := heq
    obtain rfl := List.mem_singleton.mp he
    exact Or.inr ⟨k, reply, rfl, hvote⟩
  · cases he

theorem TxnPc.callee_of_send
    (hsend : pc.send k = some (.called x kind ep, pc')) :
    pc.callee k = some ep := by
  cases pc with
  | prepareAndCommit | preparing | committing | aborting =>
      obtain ⟨⟨ep', batch⟩, hbatch, heq⟩ := Option.map_eq_some_iff.mp hsend
      obtain ⟨he, -⟩ := Prod.mk.inj heq
      obtain ⟨-, -, rfl⟩ := TxnEvent.called.inj he
      simp [callee, (Batch.send_eq_some.mp hbatch).1]
  | _ => cases hsend

theorem TxnPc.vote_event {reply : Option Int32}
    (hvote : pc.vote k reply = some (e, pc')) :
    ∃ x kind, e = .voted x kind k reply := by
  cases pc with
  | prepareAndCommit | preparing =>
      obtain ⟨out, -, heq⟩ := Option.map_eq_some_iff.mp hvote
      obtain ⟨rfl, -⟩ := Prod.mk.inj heq
      exact ⟨_, _, rfl⟩
  | _ => cases hvote

theorem TxnPc.send_event (hsend : pc.send k = some (e, pc')) :
    ∃ x kind ep, e = .called x kind ep := by
  cases pc with
  | prepareAndCommit | preparing | committing | aborting =>
      obtain ⟨out, -, heq⟩ := Option.map_eq_some_iff.mp hsend
      obtain ⟨rfl, -⟩ := Prod.mk.inj heq
      exact ⟨_, _, _, rfl⟩
  | _ => cases hsend

theorem outbound_of_step {s s' : TxnProc} {act : TxnAct}
    (hstep : (txnProgram config).step s act = some s') (he : e ∈ s'.log)
    (hout : e.outbound = true) :
    e ∈ s.log ∨ ∃ i pc pc', s.tasks[i]? = some pc ∧
      ((∃ k, act = .step i (.send k) ∧ pc.send k = some (e, pc')) ∨
        ∃ k reply, act = .step i (.vote k reply) ∧
          pc.vote k reply = some (e, pc')) := by
  cases act with
  | call pc =>
      obtain ⟨-, rfl⟩ := Program.step_call.mp hstep
      exact Or.inl he
  | ambient event =>
      obtain ⟨shared, spawned, -, rfl⟩ := Program.step_ambient.mp hstep
      exact Or.inl he
  | step i choice =>
      obtain ⟨pc, shared, pc', events, hpc, hadv, rfl⟩ :=
        Program.step_step.mp hstep
      refine (List.mem_append.mp he).imp_right fun he => ⟨i, pc, pc', hpc, ?_⟩
      rcases TxnPc.advance_outbound hadv he hout with
        ⟨k, rfl, hsend⟩ | ⟨k, reply, rfl, hvote⟩
      · exact Or.inl ⟨k, rfl, hsend⟩
      · exact Or.inr ⟨k, reply, rfl, hvote⟩

end Events

theorem CallKind.receipt_cases {k : Nat} {kind : CallKind}
    {reply : Option SpaceReply}
    (h : kind.receipt k reply = some choice) :
    (∃ ok, choice = .ack k ok) ∨ (choice = .vote k none ∧ reply = none) ∨
      ∃ v, choice = .vote k (some v) ∧ reply = some (.vote v) := by
  cases kind with
  | prepare | prepareAndCommit =>
      rcases reply with _ | reply
      · cases h
        exact Or.inr (Or.inl ⟨rfl, rfl⟩)
      · cases reply <;> cases h
        exact Or.inr (Or.inr ⟨_, rfl, rfl⟩)
  | commit | abort =>
      rcases reply with _ | reply
      · cases h
        exact Or.inl ⟨false, rfl⟩
      · cases reply <;> cases h
        exact Or.inl ⟨true, rfl⟩

/-! ## Calls on record -/

section Record

variable {config : DjinnConfig} {s s' : Djinn} {act : DjinnAct} {x : String}
  {kind : CallKind} {e : TxnEvent}

/-- Where a new call or vote of the coordinator comes from. -/
inductive Fresh (config : DjinnConfig) (s : Djinn) (e : TxnEvent) :
    DjinnAct → Prop where
  | elsewhere {i k : Nat} {pc pc' : TxnPc} {txnAct : TxnAct}
      (hpc : s.txn.tasks[i]? = some pc)
      (hcallee : pc.callee k ≠ some config.endpoint)
      (he : pc.send k = some (e, pc') ∨
        ∃ reply, pc.vote k reply = some (e, pc')) : Fresh config s e (.txn txnAct)
  | sent {i k : Nat} {pc pc' : TxnPc} (hpc : s.txn.tasks[i]? = some pc)
      (hsend : pc.send k = some (e, pc')) : Fresh config s e (.send i k)
  | answered {c j : Nat} {call : SpaceCall} {v : Int32} {pc pc' : TxnPc}
      (hcall : s.calls[c]? = some call) (hj : call.handler = some j)
      (hreply : s.space.tasks[j]? = some (.returned (.ok (.vote v))))
      (hpc : s.txn.tasks[call.task]? = some pc)
      (hvote : pc.vote call.slot (some v) = some (e, pc')) :
      Fresh config s e (.answer c)
  | failed {c : Nat} {call : SpaceCall} {pc pc' : TxnPc}
      (hpc : s.txn.tasks[call.task]? = some pc)
      (hvote : pc.vote call.slot none = some (e, pc')) :
      Fresh config s e (.fail c)

theorem DjinnMove.fresh (hmove : DjinnMove config s act s')
    (he : e ∈ s'.txn.log) (hout : e.outbound = true) :
    e ∈ s.txn.log ∨ Fresh config s e act := by
  cases hmove with
  | txn hfree hstep =>
      refine (outbound_of_step hstep he hout).imp_right ?_
      rintro ⟨i, pc, pc', hpc, ⟨k, rfl, hsend⟩ | ⟨k, reply, rfl, hvote⟩⟩
      · simp only [TxnProc.calling, hpc, beq_eq_false_iff_ne] at hfree
        exact .elsewhere hpc hfree (Or.inl hsend)
      · simp only [TxnProc.calling, hpc, beq_eq_false_iff_ne] at hfree
        exact .elsewhere hpc hfree (Or.inr ⟨reply, hvote⟩)
  | @send i k _ _ _ _ _ _ _ hstep =>
      refine (outbound_of_step hstep he hout).imp_right ?_
      rintro ⟨j, pc, pc', hpc, ⟨m, hact, hsend⟩ | ⟨m, reply, hact, hvote⟩⟩
      · obtain ⟨rfl, hm⟩ := PoolAct.step.inj hact
        obtain rfl := TxnChoice.send.inj hm
        exact .sent hpc hsend
      · cases hact
  | answer hcall hj hreply hchoice hstep =>
      refine (outbound_of_step hstep he hout).imp_right ?_
      rintro ⟨i, pc, pc', hpc, ⟨k, hact, hsend⟩ | ⟨k, reply', hact, hvote⟩⟩ <;>
        obtain ⟨rfl, rfl⟩ := PoolAct.step.inj hact
      · rcases CallKind.receipt_cases hchoice with
          ⟨ok, h⟩ | ⟨h, -⟩ | ⟨v, h, -⟩ <;> cases h
      · rcases CallKind.receipt_cases hchoice with
          ⟨ok, h⟩ | ⟨-, h⟩ | ⟨v, h, hv⟩
        · cases h
        · cases h
        · obtain ⟨rfl, rfl⟩ := TxnChoice.vote.inj h
          obtain rfl := Option.some.inj hv
          exact .answered hcall hj hreply hpc hvote
  | fail hcall hchoice hstep =>
      refine (outbound_of_step hstep he hout).imp_right ?_
      rintro ⟨i, pc, pc', hpc, ⟨k, hact, hsend⟩ | ⟨k, reply, hact, hvote⟩⟩ <;>
        obtain ⟨rfl, rfl⟩ := PoolAct.step.inj hact
      · rcases CallKind.receipt_cases hchoice with
          ⟨ok, h⟩ | ⟨h, -⟩ | ⟨v, h, -⟩ <;> cases h
      · rcases CallKind.receipt_cases hchoice with
          ⟨ok, h⟩ | ⟨h, -⟩ | ⟨v, -, hv⟩
        · cases h
        · obtain ⟨rfl, rfl⟩ := TxnChoice.vote.inj h
          exact .failed hpc hvote
        · cases hv
  | enlist hpc hrun =>
      obtain ⟨m, hcall, hrest⟩ := run_cons_eq_some.mp hrun
      obtain ⟨m', hgo, hnil⟩ := run_cons_eq_some.mp hrest
      obtain rfl := Option.some.inj hnil
      obtain ⟨-, rfl⟩ := Program.step_call.mp hcall
      rcases outbound_of_step hgo he hout with
        he | ⟨i, pc, pc', -, ⟨k, hact, -⟩ | ⟨k, reply, hact, -⟩⟩
      · exact Or.inl he
      · cases hact
      · cases hact
  | space | deliver => exact Or.inl he

theorem DjinnMove.calls_cases (hmove : DjinnMove config s act s') :
    s'.calls = s.calls ∨
      (∃ i k pc x kind, s.txn.tasks[i]? = some pc ∧ pc.owned = some x ∧
        .called x kind config.endpoint ∈ s'.txn.log ∧
        s'.calls = s.calls ++ [⟨i, k, kind, x, none⟩]) ∨
      ∃ c call, s.calls[c]? = some call ∧ call.handler = none ∧
        s'.space.tasks[s.space.tasks.length]? =
          some (call.kind.handler call.txnId) ∧
        s'.calls = s.calls.set c
          { call with handler := some s.space.tasks.length } := by
  cases hmove with
  | txn | space | enlist | answer | fail => exact Or.inl rfl
  | send hpc hsend hstep =>
      refine Or.inr (Or.inl ⟨_, _, _, _, _, hpc, (TxnPc.send_txn hsend).symm,
        ?_, rfl⟩)
      obtain ⟨pc₁, shared, pc₁', events, hpc₁, hadv, rfl⟩ :=
        Program.step_step.mp hstep
      obtain rfl := Option.some.inj (hpc.symm.trans hpc₁)
      obtain ⟨out, hout, heq⟩ := Option.map_eq_some_iff.mp hadv
      obtain rfl := Option.some.inj (hsend.symm.trans hout)
      obtain ⟨-, -, rfl⟩ := heq
      exact List.mem_append_right _ (List.mem_singleton_self _)
  | deliver hcall hnew hstep =>
      obtain ⟨-, rfl⟩ := Program.step_call.mp hstep
      exact Or.inr (Or.inr ⟨_, _, hcall, hnew, by simp, rfl⟩)

theorem DjinnMove.call_after (hmove : DjinnMove config s act s') (hcall : call ∈ s.calls) :
    ∃ call' ∈ s'.calls, call'.txnId = call.txnId ∧ call'.kind = call.kind ∧
      ∀ j, call.handler = some j → call' = call := by
  rcases hmove.calls_cases with heq | ⟨i, k, pc, x, kind, -, -, -, heq⟩ |
    ⟨c, call₀, hc, hnew, -, heq⟩
  · exact ⟨call, heq ▸ hcall, rfl, rfl, fun _ _ => rfl⟩
  · exact ⟨call, heq ▸ List.mem_append_left _ hcall, rfl, rfl, fun _ _ => rfl⟩
  · obtain ⟨m, hm⟩ := List.mem_iff_getElem?.mp hcall
    by_cases hmc : c = m
    · subst hmc
      obtain rfl := Option.some.inj (hc.symm.trans hm)
      refine ⟨{ call₀ with handler := some s.space.tasks.length }, heq ▸ ?_,
        rfl, rfl, fun j hj => ?_⟩
      · exact List.mem_set (List.getElem?_eq_some_iff.mp hc).1 _
      rw [hnew] at hj
      cases hj
    · refine ⟨call, heq ▸ ?_, rfl, rfl, fun _ _ => rfl⟩
      exact List.mem_of_getElem? ((List.getElem?_set_ne hmc).trans hm)

theorem DjinnMove.call_before (hmove : DjinnMove config s act s') (hcall : call ∈ s'.calls) :
    (∃ call₀ ∈ s.calls, call₀.task = call.task ∧ call₀.txnId = call.txnId ∧
      call₀.kind = call.kind ∧ (call = call₀ ∨ call₀.handler = none ∧
        ∃ j, call.handler = some j ∧
          s'.space.tasks[j]? = some (call.kind.handler call.txnId))) ∨
    (call.handler = none ∧
      .called call.txnId call.kind config.endpoint ∈ s'.txn.log ∧
      ∃ pc, s.txn.tasks[call.task]? = some pc ∧
        pc.owned = some call.txnId) := by
  rcases hmove.calls_cases with heq |
    ⟨i, k, pc, x, kind, hpc, hown, hcalled, heq⟩ |
    ⟨c, call₀, hc, hnew, hhandler, heq⟩ <;> rw [heq] at hcall
  · exact Or.inl ⟨call, hcall, rfl, rfl, rfl, Or.inl rfl⟩
  · rcases List.mem_append.mp hcall with hcall | hcall
    · exact Or.inl ⟨call, hcall, rfl, rfl, rfl, Or.inl rfl⟩
    · obtain rfl := List.mem_singleton.mp hcall
      exact Or.inr ⟨rfl, hcalled, pc, hpc, hown⟩
  · rcases List.mem_or_eq_of_mem_set hcall with hcall | rfl
    · exact Or.inl ⟨call, hcall, rfl, rfl, rfl, Or.inl rfl⟩
    · exact Or.inl ⟨call₀, List.mem_of_getElem? hc, rfl, rfl, rfl,
        Or.inr ⟨hnew, _, rfl, hhandler⟩⟩

theorem DjinnReachable.onRecord (hreach : DjinnReachable config s)
    (hcalled : .called x kind config.endpoint ∈ s.txn.log) :
    ∃ call ∈ s.calls, call.txnId = x ∧ call.kind = kind := by
  refine Reachable.invariant
    (P := fun s => ∀ x kind, .called x kind config.endpoint ∈ s.txn.log →
      ∃ call ∈ s.calls, call.txnId = x ∧ call.kind = kind) (by simp [Djinn.new,
        TxnProc.new]) ?_ hreach x kind hcalled
  intro s act s' _ ih hstep x kind hcalled
  have hmove := DjinnMove.of_step hstep
  rcases hmove.fresh hcalled rfl with hold | hfresh
  · obtain ⟨call, hcall, rfl, rfl⟩ := ih x kind hold
    obtain ⟨call', hcall', htxn, hkind, -⟩ := hmove.call_after hcall
    exact ⟨call', hcall', htxn, hkind⟩
  · cases hfresh with
    | elsewhere hpc hcallee he =>
        rcases he with hsend | ⟨reply, hvote⟩
        · exact absurd (TxnPc.callee_of_send hsend) hcallee
        · obtain ⟨_, _, h⟩ := TxnPc.vote_event hvote
          cases h
    | answered _ _ _ _ hvote | failed _ hvote =>
        obtain ⟨_, _, h⟩ := TxnPc.vote_event hvote
        cases h
    | sent hpc hsend =>
        cases hmove with
        | send hpc' hsend' =>
            obtain rfl := Option.some.inj (hpc.symm.trans hpc')
            obtain ⟨he, -⟩ := Prod.mk.inj
              (Option.some.inj (hsend.symm.trans hsend'))
            obtain ⟨rfl, rfl, -⟩ := TxnEvent.called.inj he
            exact ⟨_, List.mem_append_right _ (List.mem_singleton_self _),
              rfl, rfl⟩

/-- The call was made by the task that claimed its transaction. -/
theorem DjinnReachable.caller (hreach : DjinnReachable config s) (hcall : call ∈ s.calls) :
    .called call.txnId call.kind config.endpoint ∈ s.txn.log ∧
      claimants (about call.txnId s.txn.log) = [call.task] := by
  refine Reachable.invariant
    (P := fun s => ∀ call ∈ s.calls,
      .called call.txnId call.kind config.endpoint ∈ s.txn.log ∧
        claimants (about call.txnId s.txn.log) = [call.task])
    (by simp [Djinn.new]) ?_ hreach call hcall
  intro s act s' (hreach : DjinnReachable config s) ih hstep call hcall
  have hmove := DjinnMove.of_step hstep
  obtain ⟨acts, hrun⟩ := hmove.txn_run
  rcases hmove.call_before hcall with
    ⟨call₀, hcall₀, htask, htxn, hkind, -⟩ | ⟨-, hcalled, pc, hpc, hown⟩
  · obtain ⟨hcalled, hclaim⟩ := ih call₀ hcall₀
    rw [htxn, htask] at hclaim
    rw [htxn, hkind] at hcalled
    exact ⟨hmove.log_subset hcalled, hreach.txn.claimants_run hclaim hrun⟩
  · exact ⟨hcalled, hreach.txn.claimants_run
      ((hreach.txn.loc hpc).owner _ hown) hrun⟩

end Record

end Coordin8
