import Coordin8.Djinn.Votes

/-!
# A transaction committed more than once

The participant service gets several calls for one transaction, and the Space
works on them side by side.  The first `commit_txn` of the store empties the
buffers, and its caller cancels the leases and broadcasts; every later one finds
nothing.  So it does not matter how many calls there are, nor how their steps
interleave: what the Space is left with is what one call that runs alone leaves
(`Serving.outcome`).
-/

namespace Coordin8

open Support Support.DashMap SpacePc

theorem sum_map_set_lt {σ : Type*} {f : σ → Nat} {l : List σ} {i : Nat}
    {a b : σ} (h : l[i]? = some a) (hlt : f b < f a) :
    ((l.set i b).map f).sum < (l.map f).sum := by
  induction l generalizing i with
  | nil => cases h
  | cons c l ih =>
      cases i with
      | zero =>
          obtain rfl : c = a := by simpa using h
          simpa using hlt
      | succ i => simpa using ih (by simpa using h)

/-! ## One call that runs alone -/

namespace Landlord

/-- `cancel` from the point where the record has been read. -/
def cancelRead (l : Landlord) (leaseId : String)
    (record : Option LeaseRecord) : Landlord :=
  let l := { l with leases := l.leases.cancel leaseId }
  match record with
  | none => l
  | some record => l.send record .cancelled

/-- `cancel` with nothing in between. -/
def cancel (l : Landlord) (leaseId : String) : Landlord :=
  l.cancelRead leaseId (l.leases.get leaseId)

def cancelAll (l : Landlord) (records : List TupleRecord) : Landlord :=
  records.foldl (fun l record => l.cancel record.leaseId) l

end Landlord

namespace LeasePc

/-- What the lease manager is left with after the rest of a cancellation. -/
def finish (l : Landlord) : LeasePc → Landlord
  | .cancel leaseId => l.cancel leaseId
  | .cancelStore leaseId record => l.cancelRead leaseId record
  | .cancelSend record => l.send record .cancelled
  | _ => l

/-- How many moves a cancellation is from its end, at most. -/
def ahead : LeasePc → Nat
  | .cancel _ => 3
  | .cancelStore .. => 2
  | .cancelSend _ => 1
  | _ => 0

end LeasePc

/-- What the Space is left with after the rest of a call that has committed in
the store. -/
def SpacePc.finish (h : SpaceHost) : SpacePc → SpaceHost
  | .unmark x todo sends _ =>
      { h with
        enlisted := h.enlisted.erase x
        landlord := h.landlord.cancelAll todo
        tupleTx := h.tupleTx ++ sends }
  | .settleCancel pc todo sends _ =>
      { h with
        landlord := (pc.finish h.landlord).cancelAll todo
        tupleTx := h.tupleTx ++ sends }
  | .settleSend record sends _ =>
      { h with tupleTx := h.tupleTx ++ record :: sends }
  | _ => h

namespace SpaceHost

/-- `commit_space_txn` with nothing in between. -/
def commitSpaceTxn (h : SpaceHost) (x : String) : SpaceHost :=
  let ((flushed, taken), store) := h.store.commitTxn x
  (SpacePc.unmark x taken flushed .unit).finish { h with store := store }

/-- What a commit makes of the Space. -/
def committed (h : SpaceHost) (x : String) : SpaceHost :=
  if h.store.hasTxn x then h.commitSpaceTxn x else h

/-- What the Space votes. -/
def vote (h : SpaceHost) (x : String) : Int32 :=
  if h.store.hasTxn x then 0 else 1

end SpaceHost

/-- The second commit of a transaction finds nothing, and changes nothing. -/
theorem InMemorySpaceStore.commitTxn_again (s : InMemorySpaceStore)
    (x : String) :
    (s.commitTxn x).2.commitTxn x = (([], []), (s.commitTxn x).2) := by
  have hpublish : ∀ (records : List TupleRecord) (s : InMemorySpaceStore),
      (records.foldl publish s).uncommitted = s.uncommitted := by
    intro records
    induction records with
    | nil => exact fun _ => rfl
    | cons r records ih => exact fun s => ih (s.publish r)
  have hgone : ∀ m : DashMap String (List TupleRecord),
      bucket (m.erase x) x = [] ∧ (m.erase x).erase x = m.erase x := by
    intro m
    refine ⟨by simp [bucket_erase], erase_of_get_none ?_⟩
    rw [get_erase, if_pos rfl]
  obtain ⟨hwrites, herase⟩ := hgone s.uncommitted
  simp only [commitTxn, unindex, hpublish, hwrites, herase]
  simp [hgone, eraseAll]

/-! ## The caller that committed -/

/-- A call that has committed `x` in the store and will answer `reply`. -/
inductive Settles (x : String) (reply : SpaceReply) : SpacePc → Prop where
  | unmark (todo sends : List TupleRecord) :
      Settles x reply (.unmark x todo sends reply)
  | cancel {lpc : LeasePc} (hlpc : lpc.Cancelling)
      (todo sends : List TupleRecord) :
      Settles x reply (.settleCancel lpc todo sends reply)
  | send (record : TupleRecord) (sends : List TupleRecord) :
      Settles x reply (.settleSend record sends reply)
  | returned : Settles x reply (.returned (.ok reply))

theorem Settles.settle (x : String) (reply : SpaceReply)
    (todo sends : List TupleRecord) :
    Settles x reply (settle todo sends reply) := by
  unfold SpacePc.settle
  split
  · exact .cancel (show (LeasePc.cancel _).Cancelling from trivial) _ _
  · exact .send _ _
  · exact .returned

theorem SpacePc.finish_settle (h : SpaceHost) (todo sends : List TupleRecord)
    (reply : SpaceReply) :
    (settle todo sends reply).finish h = { h with
      landlord := h.landlord.cancelAll todo
      tupleTx := h.tupleTx ++ sends } := by
  unfold settle
  split
  · rfl
  · rfl
  · simp [SpacePc.finish, Landlord.cancelAll]

theorem LeaseMove.finish {config : LeaseConfig} {l l' : Landlord}
    {pc pc' : LeasePc} (hmove : LeaseMove config l pc l' pc')
    (hpc : pc.Cancelling) :
    pc'.finish l' = pc.finish l ∧ pc'.ahead < pc.ahead := by
  cases hmove with
  | cancelRead | cancelled | cancelledUnknown | cancelSent =>
      exact ⟨rfl, by simp [LeasePc.ahead]⟩
  | _ => exact hpc.elim

/-- How many moves a handler is from its end, at most, when a commit finds
at most `bound` things to do. -/
def SpacePc.ahead (bound : Nat) : SpacePc → Nat
  | .prepare _ => 1
  | .prepareAndCommit _ => bound + 3
  | .commitTxn .. => bound + 2
  | .unmark _ todo sends _ => 3 * todo.length + sends.length + 1
  | .settleCancel pc todo sends _ =>
      pc.ahead + 3 * todo.length + sends.length
  | .settleSend _ sends _ => sends.length + 1
  | _ => 0

theorem SpacePc.ahead_settle (bound : Nat) (todo sends : List TupleRecord)
    (reply : SpaceReply) :
    (settle todo sends reply).ahead bound = 3 * todo.length + sends.length := by
  unfold settle
  split
  · simp only [SpacePc.ahead, LeasePc.ahead, List.length_cons]
    omega
  · simp [SpacePc.ahead]
  · rfl

section Settles

variable {config : SpaceConfig} {i : Nat} {h h' : SpaceHost} {pc pc' : SpacePc}
  {events : List SpaceEvent} {x : String} {reply : SpaceReply}

theorem LeasePc.Cancelling.settle {lpc lpc' : LeasePc} {landlord : Landlord}
    {todo sends : List TupleRecord} (hlpc : lpc.Cancelling)
    (hmove : LeaseMove config.lease h.landlord lpc landlord lpc')
    (hafter : (SpacePc.settleCancel lpc todo sends reply).afterLease lpc' =
      some pc') :
    Settles x reply pc' ∧
      pc'.finish { h with landlord := landlord } =
        (SpacePc.settleCancel lpc todo sends reply).finish h ∧
      { h with landlord := landlord }.store = h.store ∧
      ∀ bound, pc'.ahead bound <
        (SpacePc.settleCancel lpc todo sends reply).ahead bound := by
  obtain ⟨hfinish, hahead⟩ := hmove.finish hlpc
  rcases hmove.cancelling hlpc with hlpc' | ⟨result, rfl⟩
  · obtain rfl : pc' = .settleCancel lpc' todo sends reply := by
      cases lpc' with
      | cancel | cancelStore | cancelSend => exact (Option.some.inj hafter).symm
      | _ => exact hlpc'.elim
    refine ⟨.cancel hlpc' todo sends, ?_, rfl, fun bound => ?_⟩
    · simp only [SpacePc.finish, hfinish]
    · simp only [SpacePc.ahead]
      omega
  · obtain rfl : pc' = SpacePc.settle todo sends reply :=
      (Option.some.inj hafter).symm
    have hlandlord : lpc.finish h.landlord = landlord := hfinish.symm
    refine ⟨.settle .., ?_, rfl, fun bound => ?_⟩
    · rw [finish_settle]
      simp only [SpacePc.finish, hlandlord]
    · rw [ahead_settle]
      simp only [SpacePc.ahead]
      omega

/-- A move of the caller that committed leads where it was going, and leaves the
store alone. -/
theorem Settles.move (hpc : Settles x reply pc)
    (hmove : SpaceMove config i h pc h' pc' events) :
    Settles x reply pc' ∧ pc'.finish h' = pc.finish h ∧ h'.store = h.store ∧
      ∀ bound, pc'.ahead bound < pc.ahead bound := by
  cases hmove with
  | unmark =>
      cases hpc
      refine ⟨.settle .., by rw [finish_settle]; rfl, rfl, fun bound => ?_⟩
      rw [ahead_settle]
      exact Nat.lt_succ_self _
  | sendSettled =>
      cases hpc
      refine ⟨.settle .., ?_, rfl, fun bound => ?_⟩
      · rw [finish_settle]
        simp [SpacePc.finish, Landlord.cancelAll]
      · rw [ahead_settle]
        simp [SpacePc.ahead]
  | lease hsome hstep hafter =>
      cases hpc with
      | cancel hlpc todo sends =>
          obtain rfl := Option.some.inj hsome
          exact hlpc.settle (LeaseMove.of_advance hstep) hafter
      | _ => cases hsome
  | store hcalls => cases hpc <;> cases hcalls
  | pass hpasses => cases hpc <;> cases hpasses
  | drawFailed hdraws => cases hpc <;> exact hdraws.elim
  | _ => cases hpc

end Settles

/-! ## The other callers -/

/-- The answer to a call when the Space votes `v`. -/
def CallKind.reply (v : Int32) : CallKind → SpaceReply
  | .prepare | .prepareAndCommit => .vote v
  | .commit | .abort => .unit

/-- Where a handler stands while the Space is asked for its vote. -/
inductive AsksVote (h : SpaceHost) (x : String) : CallKind → SpacePc → Prop where
  | prepare : AsksVote h x .prepare (.prepare x)
  | voted : AsksVote h x .prepare (.returned (.ok (.vote (h.vote x))))
  | prepareAndCommit : AsksVote h x .prepareAndCommit (.prepareAndCommit x)
  | notChanged (hnone : h.store.hasTxn x = false) :
      AsksVote h x .prepareAndCommit (.returned (.ok (.vote 1)))

/-- Where a handler stands when the Space has voted to commit, and no handler
has committed. -/
inductive Awaits (x : String) : CallKind → SpacePc → Prop where
  | voted : Awaits x .prepare (.returned (.ok (.vote 0)))
  | commitTxn {kind : CallKind} (hkind : kind ≠ .prepare) :
      Awaits x kind (.commitTxn x kind.done)

/-- Where a handler stands when another one has committed. -/
inductive Idles (x : String) : CallKind → SpacePc → Prop where
  | awaits {kind : CallKind} {pc : SpacePc} (hpc : Awaits x kind pc) :
      Idles x kind pc
  | unmark {kind : CallKind} (hkind : kind ≠ .prepare) :
      Idles x kind (.unmark x [] [] kind.done)
  | done {kind : CallKind} (hkind : kind ≠ .prepare) :
      Idles x kind (.returned (.ok kind.done))

/-- What there is to do for a commit after the store call. -/
def SpaceHost.toSettle (h : SpaceHost) (x : String) : Nat :=
  3 * (h.store.commitTxn x).1.2.length + (h.store.commitTxn x).1.1.length

section Moves

variable {config : SpaceConfig} {i : Nat} {h h₀ h' : SpaceHost}
  {pc pc' : SpacePc} {events : List SpaceEvent} {x : String}
  {kind : CallKind}

/-- A handler that asks changes nothing.  A `PrepareAndCommit` that finds
something is about to commit. -/
theorem AsksVote.move (hpc : AsksVote h x kind pc)
    (hmove : SpaceMove config i h pc h' pc' events) :
    h' = h ∧ pc'.ahead (h.toSettle x) < pc.ahead (h.toSettle x) ∧
      (AsksVote h x kind pc' ∨ (h.store.hasTxn x = true ∧
        kind = .prepareAndCommit ∧ Awaits x kind pc')) := by
  cases hmove with
  | store hcalls =>
      cases hpc with
      | prepare =>
          cases hcalls
          exact ⟨rfl, Nat.zero_lt_one, Or.inl .voted⟩
      | prepareAndCommit =>
          generalize hres : (h.store.exec _).1 = result at hcalls
          cases hcalls with
          | prepareAndCommit _ hasState =>
              obtain rfl : h.store.hasTxn x = hasState := SpaceResult.flag.inj hres
              refine ⟨rfl, ?_, ?_⟩
              · split <;> simp [SpacePc.ahead]
              · cases hhas : h.store.hasTxn x with
                | true => exact Or.inr ⟨rfl, rfl, .commitTxn (by simp)⟩
                | false => exact Or.inl (.notChanged hhas)
      | voted | notChanged => cases hcalls
  | pass hpasses => cases hpc <;> cases hpasses
  | drawFailed hdraws => cases hpc <;> exact hdraws.elim
  | lease hlpc => cases hpc <;> cases hlpc
  | _ => cases hpc

/-- The first to commit gets everything the transaction has. -/
theorem Awaits.move (hpc : Awaits x kind pc)
    (hmove : SpaceMove config i h pc h' pc' events) :
    kind ≠ .prepare ∧ h' = { h with store := (h.store.commitTxn x).2 } ∧
      pc' = .unmark x (h.store.commitTxn x).1.2 (h.store.commitTxn x).1.1
        kind.done := by
  cases hmove with
  | store hcalls =>
      cases hpc with
      | commitTxn hkind =>
          generalize hres : (h.store.exec _).1 = result at hcalls
          cases hcalls
          obtain ⟨rfl, rfl⟩ := SpaceResult.lists.inj hres
          exact ⟨hkind, rfl, rfl⟩
      | voted => cases hcalls
  | pass hpasses => cases hpc <;> cases hpasses
  | drawFailed hdraws => cases hpc <;> exact hdraws.elim
  | lease hlpc => cases hpc <;> cases hlpc
  | _ => cases hpc

theorem Idles.move (hpc : Idles x kind pc)
    (hstore : h.store = (h₀.store.commitTxn x).2)
    (hmove : SpaceMove config i h pc h' pc' events) (bound : Nat) :
    (h' = h ∨ h' = { h with enlisted := h.enlisted.erase x }) ∧
      pc'.ahead bound < pc.ahead bound ∧ Idles x kind pc' := by
  cases hpc with
  | awaits hpc =>
      obtain ⟨hkind, rfl, rfl⟩ := hpc.move hmove
      have hnone := InMemorySpaceStore.commitTxn_again h₀.store x
      rw [← hstore] at hnone
      rw [hnone]
      refine ⟨Or.inl ?_, ?_, .unmark hkind⟩
      · rfl
      · cases hpc with
        | commitTxn => simp [SpacePc.ahead]
        | voted => simp at hkind
  | unmark hkind =>
      cases hmove with
      | unmark => exact ⟨Or.inr rfl, Nat.zero_lt_one, .done hkind⟩
      | store hcalls => cases hcalls
      | pass hpasses => cases hpasses
      | drawFailed hdraws => exact hdraws.elim
      | lease hlpc => cases hlpc
  | done hkind =>
      cases hmove with
      | store hcalls => cases hcalls
      | pass hpasses => cases hpasses
      | drawFailed hdraws => exact hdraws.elim
      | lease hlpc => cases hlpc

theorem Settles.enabled {reply : SpaceReply} (hpc : Settles x reply pc)
    (hbusy : ∀ answer, pc ≠ .returned answer) :
    (pc.advance config i h .go).isSome ∨
      (pc.advance config i h (.lease .go)).isSome := by
  cases hpc with
  | unmark | send => exact Or.inl rfl
  | returned => exact absurd rfl (hbusy _)
  | @cancel lpc hlpc todo sends =>
      refine Or.inr ?_
      cases lpc with
      | cancel | cancelSend => rfl
      | cancelStore leaseId record => cases record <;> rfl
      | _ => exact hlpc.elim

theorem AsksVote.enabled (hpc : AsksVote h₀ x kind pc)
    (hbusy : ∀ answer, pc ≠ .returned answer) :
    (pc.advance config i h .go).isSome := by
  cases hpc with
  | prepare | prepareAndCommit => rfl
  | voted | notChanged => exact absurd rfl (hbusy _)

theorem Awaits.enabled (hpc : Awaits x kind pc)
    (hbusy : ∀ answer, pc ≠ .returned answer) :
    (pc.advance config i h .go).isSome := by
  cases hpc with
  | commitTxn => rfl
  | voted => exact absurd rfl (hbusy _)

theorem Idles.enabled (hpc : Idles x kind pc)
    (hbusy : ∀ answer, pc ≠ .returned answer) :
    (pc.advance config i h .go).isSome := by
  cases hpc with
  | awaits hpc => exact hpc.enabled hbusy
  | unmark => rfl
  | done => exact absurd rfl (hbusy _)

end Moves

/-! ## Side by side -/

/-- The Space serves calls of the given kinds for the transaction `x`, one task
for each, and had the state `h₀` before. -/
inductive Serving (h₀ : SpaceHost) (x : String) (kinds : List CallKind)
    (s : SpaceProc) : Prop where
  | voting (hshared : s.shared = h₀)
      (hsingle : .prepareAndCommit ∈ kinds → kinds = [.prepareAndCommit])
      (htasks : ∀ (j : Nat) (kind : CallKind) (pc : SpacePc),
        kinds[j]? = some kind → s.tasks[j]? = some pc → AsksVote h₀ x kind pc)
  | committing (hhas : h₀.store.hasTxn x = true) (hshared : s.shared = h₀)
      (htasks : ∀ (j : Nat) (kind : CallKind) (pc : SpacePc),
        kinds[j]? = some kind → s.tasks[j]? = some pc → Awaits x kind pc)
  /-- The task `w` has committed. -/
  | settling (hhas : h₀.store.hasTxn x = true) (w : Nat) (kind : CallKind)
      (pc : SpacePc) (hw : kinds[w]? = some kind) (hkind : kind ≠ .prepare)
      (hpc : s.tasks[w]? = some pc) (hsettles : Settles x kind.done pc)
      (hfinish : pc.finish s.shared = h₀.commitSpaceTxn x)
      (hstore : s.shared.store = (h₀.store.commitTxn x).2)
      (hothers : ∀ (j : Nat) (kind : CallKind) (pc : SpacePc), j ≠ w →
        kinds[j]? = some kind → s.tasks[j]? = some pc → Idles x kind pc)

/-- The caller that committed takes the transaction out of the `enlisted` set,
so others may do so too. -/
theorem Settles.finish_unmark {x : String} {reply : SpaceReply} {pc : SpacePc}
    {h h₀ : SpaceHost} (hpc : Settles x reply pc)
    (hfinish : pc.finish h = h₀.commitSpaceTxn x) :
    pc.finish { h with enlisted := h.enlisted.erase x } =
      h₀.commitSpaceTxn x := by
  have hswap : pc.finish { h with enlisted := h.enlisted.erase x } =
      { pc.finish h with enlisted := (pc.finish h).enlisted.erase x } := by
    cases hpc <;> rfl
  have hgone : (h₀.enlisted.erase x).erase x = h₀.enlisted.erase x :=
    erase_of_get_none (by rw [get_erase, if_pos rfl])
  rw [hswap, hfinish]
  simp only [SpaceHost.commitSpaceTxn, SpacePc.finish, hgone]

namespace Serving

variable {config : SpaceConfig} {h₀ : SpaceHost} {x : String}
  {kinds : List CallKind} {s s' : SpaceProc}

theorem commit {i : Nat} {pc pc' : SpacePc} {h' : SpaceHost}
    {events log : List SpaceEvent} (hhas : h₀.store.hasTxn x = true)
    (htasks : ∀ (j : Nat) (kind : CallKind) (pc : SpacePc),
      kinds[j]? = some kind → s.tasks[j]? = some pc → Awaits x kind pc)
    {kind : CallKind} (hkind : kinds[i]? = some kind)
    (hpc : s.tasks[i]? = some pc)
    (hmove : SpaceMove config i h₀ pc h' pc' events) :
    Serving h₀ x kinds ⟨h', s.tasks.set i pc', log⟩ ∧
      pc'.ahead (h₀.toSettle x) < pc.ahead (h₀.toSettle x) := by
  have hawaits := htasks i kind pc hkind hpc
  obtain ⟨hne, rfl, rfl⟩ := hawaits.move hmove
  have hi : i < s.tasks.length := (List.getElem?_eq_some_iff.mp hpc).1
  refine ⟨.settling hhas i kind _ hkind hne (List.getElem?_set_self hi)
    (.unmark _ _) rfl rfl ?_, ?_⟩
  · intro j kind' pcj hj hkind' hpcj
    rcases getElem?_set_cases hpcj with ⟨hij, -⟩ | ⟨-, hpcj⟩
    · exact absurd hij.symm hj
    · exact .awaits (htasks j kind' pcj hkind' hpcj)
  · cases hawaits with
    | commitTxn =>
        simp only [SpacePc.ahead, SpaceHost.toSettle]
        omega
    | voted => exact absurd rfl hne

theorem step {i : Nat} {choice : SpaceChoice} (hserving : Serving h₀ x kinds s)
    (hlength : kinds.length = s.tasks.length)
    (hstep : (spaceProgram config).step s (.step i choice) = some s') :
    Serving h₀ x kinds s' ∧ s'.tasks.length = s.tasks.length ∧
      (s'.tasks.map (SpacePc.ahead (h₀.toSettle x))).sum <
        (s.tasks.map (SpacePc.ahead (h₀.toSettle x))).sum := by
  obtain ⟨pc, h', pc', events, hpc, hadv, rfl⟩ := Program.step_step.mp hstep
  have hmove : SpaceMove config i s.shared pc h' pc' events := .of_advance hadv
  have hi : i < s.tasks.length := (List.getElem?_eq_some_iff.mp hpc).1
  obtain ⟨kind, hkind⟩ : ∃ kind, kinds[i]? = some kind :=
    ⟨_, List.getElem?_eq_getElem (hlength ▸ hi)⟩
  suffices h : Serving h₀ x kinds ⟨h', s.tasks.set i pc', s.log ++ events⟩ ∧
      pc'.ahead (h₀.toSettle x) < pc.ahead (h₀.toSettle x) from
    ⟨h.1, List.length_set, sum_map_set_lt hpc h.2⟩
  cases hserving with
  | voting hshared hsingle htasks =>
      subst hshared
      obtain ⟨rfl, hlt, hasks | ⟨hhas, rfl, hawaits⟩⟩ :=
        (htasks i kind pc hkind hpc).move hmove
      · refine ⟨.voting rfl hsingle fun j kind' pcj hkind' hpcj => ?_, hlt⟩
        rcases getElem?_set_cases hpcj with ⟨rfl, rfl⟩ | ⟨-, hpcj⟩
        · rw [hkind] at hkind'
          exact Option.some.inj hkind' ▸ hasks
        · exact htasks j kind' pcj hkind' hpcj
      · -- A `PrepareAndCommit` is the only call there is.
        have honly := hsingle (List.mem_of_getElem? hkind)
        refine ⟨.committing hhas rfl fun j kind' pcj hkind' hpcj => ?_, hlt⟩
        have hzero : ∀ k kind'', kinds[k]? = some kind'' → k = 0 := by
          intro k kind'' hk
          have := (List.getElem?_eq_some_iff.mp hk).1
          rw [honly, List.length_singleton] at this
          omega
        obtain rfl : i = j :=
          (hzero i _ hkind).trans (hzero j _ hkind').symm
        rw [hkind] at hkind'
        obtain rfl := Option.some.inj hkind'
        rcases getElem?_set_cases hpcj with ⟨-, rfl⟩ | ⟨hne, -⟩
        · exact hawaits
        · exact absurd rfl hne
  | committing hhas hshared htasks =>
      subst hshared
      exact commit hhas htasks hkind hpc hmove
  | settling hhas w kind' pcw hw hne hpcw hsettles hfinish hstore hothers =>
      by_cases hiw : i = w
      · subst hiw
        obtain rfl := Option.some.inj (hpc.symm.trans hpcw)
        obtain ⟨hsettles', hfinish', hstore', hlt⟩ := hsettles.move hmove
        refine ⟨.settling hhas i kind' pc' hw hne (List.getElem?_set_self hi)
          hsettles' (hfinish'.trans hfinish) (hstore'.trans hstore) ?_, hlt _⟩
        intro j kindj pcj hj hkindj hpcj
        rcases getElem?_set_cases hpcj with ⟨hij, -⟩ | ⟨-, hpcj⟩
        · exact absurd hij.symm hj
        · exact hothers j kindj pcj hj hkindj hpcj
      · obtain ⟨hshared, hlt, hidles⟩ :=
          (hothers i kind pc hiw hkind hpc).move hstore hmove (h₀.toSettle x)
        have hkept : pcw.finish h' = h₀.commitSpaceTxn x ∧
            h'.store = (h₀.store.commitTxn x).2 := by
          rcases hshared with rfl | rfl
          · exact ⟨hfinish, hstore⟩
          · exact ⟨hsettles.finish_unmark hfinish, hstore⟩
        refine ⟨.settling hhas w kind' pcw hw hne
          ((List.getElem?_set_ne hiw).trans hpcw) hsettles hkept.1 hkept.2 ?_,
          hlt⟩
        intro j kindj pcj hj hkindj hpcj
        rcases getElem?_set_cases hpcj with ⟨rfl, rfl⟩ | ⟨-, hpcj⟩
        · rw [hkind] at hkindj
          exact Option.some.inj hkindj ▸ hidles
        · exact hothers j kindj pcj hj hkindj hpcj

/-! ### New calls -/

private theorem append_cases {kind kind₁ : CallKind} {pc pc₁ : SpacePc}
    {j : Nat} (hlength : kinds.length = s.tasks.length)
    (hkind : (kinds ++ [kind])[j]? = some kind₁)
    (hpc : (s.tasks ++ [pc])[j]? = some pc₁) :
    (kinds[j]? = some kind₁ ∧ s.tasks[j]? = some pc₁) ∨
      (kind₁ = kind ∧ pc₁ = pc) := by
  rw [List.getElem?_append] at hkind hpc
  by_cases hj : j < s.tasks.length
  · rw [if_pos (hlength ▸ hj)] at hkind
    rw [if_pos hj] at hpc
    exact Or.inl ⟨hkind, hpc⟩
  · rw [if_neg (hlength ▸ hj)] at hkind
    rw [if_neg hj] at hpc
    exact Or.inr ⟨List.mem_singleton.mp (List.mem_of_getElem? hkind),
      List.mem_singleton.mp (List.mem_of_getElem? hpc)⟩

theorem asked (hserving : Serving h₀ x kinds s)
    (hkinds : ∀ kind ∈ kinds, kind = .prepare) :
    s.shared = h₀ ∧ ∀ (j : Nat) (kind : CallKind) (pc : SpacePc),
      kinds[j]? = some kind → s.tasks[j]? = some pc → AsksVote h₀ x kind pc := by
  cases hserving with
  | voting hshared _ htasks => exact ⟨hshared, htasks⟩
  | committing hhas hshared htasks =>
      refine ⟨hshared, fun j kind pc hkind hpc => ?_⟩
      obtain rfl := hkinds kind (List.mem_of_getElem? hkind)
      cases htasks j _ pc hkind hpc with
      | voted =>
          have hvote : h₀.vote x = 0 := by simp [SpaceHost.vote, hhas]
          exact hvote ▸ .voted
      | commitTxn hne => exact absurd rfl hne
  | settling _ w kind _ hw hne =>
      exact absurd (hkinds kind (List.mem_of_getElem? hw)) hne

theorem prepare (hserving : Serving h₀ x kinds s)
    (hlength : kinds.length = s.tasks.length)
    (hkinds : ∀ kind ∈ kinds, kind = .prepare) :
    Serving h₀ x (kinds ++ [.prepare])
      { s with tasks := s.tasks ++ [.prepare x] } := by
  obtain ⟨hshared, htasks⟩ := hserving.asked hkinds
  refine .voting hshared (fun hmem => ?_) fun j kind pc hkind hpc => ?_
  · rcases List.mem_append.mp hmem with hmem | hmem
    · cases hkinds _ hmem
    · simp at hmem
  · rcases append_cases hlength hkind hpc with ⟨hkind, hpc⟩ | ⟨rfl, rfl⟩
    · exact htasks j kind pc hkind hpc
    · exact .prepare

theorem prepareAndCommit (hserving : Serving h₀ x [] s)
    (hlength : ([] : List CallKind).length = s.tasks.length) :
    Serving h₀ x [.prepareAndCommit]
      { s with tasks := s.tasks ++ [.prepareAndCommit x] } := by
  obtain ⟨hshared, htasks⟩ := hserving.asked (by simp)
  refine .voting hshared (fun _ => rfl) fun j kind pc hkind hpc => ?_
  have hkind' : (([] : List CallKind) ++ [.prepareAndCommit])[j]? = some kind :=
    hkind
  rcases append_cases hlength hkind' hpc with ⟨hnil, -⟩ | ⟨rfl, rfl⟩
  · cases hnil
  · exact .prepareAndCommit

theorem commitCall (hserving : Serving h₀ x kinds s)
    (hlength : kinds.length = s.tasks.length)
    (hhas : h₀.store.hasTxn x = true)
    (hsingle : CallKind.prepareAndCommit ∉ kinds)
    (hprepared : ∀ (j : Nat) (pc : SpacePc), kinds[j]? = some .prepare →
      s.tasks[j]? = some pc → ∃ answer, pc = .returned answer) :
    Serving h₀ x (kinds ++ [.commit])
      { s with tasks := s.tasks ++ [.commitTxn x .unit] } := by
  have hnew : Awaits x .commit (.commitTxn x .unit) := .commitTxn (by simp)
  cases hserving with
  | voting hshared _ htasks =>
      refine .committing hhas hshared fun j kind pc hkind hpc => ?_
      rcases append_cases hlength hkind hpc with ⟨hkind, hpc⟩ | ⟨rfl, rfl⟩
      · cases htasks j kind pc hkind hpc with
        | prepare =>
            obtain ⟨answer, heq⟩ := hprepared j _ hkind hpc
            cases heq
        | voted =>
            have hvote : h₀.vote x = 0 := by simp [SpaceHost.vote, hhas]
            exact hvote ▸ .voted
        | prepareAndCommit | notChanged =>
            exact absurd (List.mem_of_getElem? hkind) hsingle
      · exact hnew
  | committing _ hshared htasks =>
      refine .committing hhas hshared fun j kind pc hkind hpc => ?_
      rcases append_cases hlength hkind hpc with ⟨hkind, hpc⟩ | ⟨rfl, rfl⟩
      · exact htasks j kind pc hkind hpc
      · exact hnew
  | settling _ w kind pcw hw hne hpcw hsettles hfinish hstore hothers =>
      have hlt := (List.getElem?_eq_some_iff.mp hpcw).1
      refine .settling hhas w kind pcw ?_ hne ?_ hsettles hfinish hstore ?_
      · exact (List.getElem?_append_left (hlength ▸ hlt)).trans hw
      · exact (List.getElem?_append_left hlt).trans hpcw
      · intro j kindj pcj hj hkindj hpcj
        rcases append_cases hlength hkindj hpcj with
          ⟨hkindj, hpcj⟩ | ⟨rfl, rfl⟩
        · exact hothers j kindj pcj hj hkindj hpcj
        · exact .awaits hnew

/-! ### Answers and outcome -/

theorem reply {j : Nat} {kind : CallKind} {answer : SpaceAnswer}
    (hserving : Serving h₀ x kinds s) (hkind : kinds[j]? = some kind)
    (hpc : s.tasks[j]? = some (.returned answer)) :
    answer = .ok (kind.reply (h₀.vote x)) := by
  have hdone : h₀.store.hasTxn x = true →
      kind.done = kind.reply (h₀.vote x) := by
    intro hhas
    cases kind <;> simp [CallKind.done, CallKind.reply, SpaceHost.vote, hhas]
  have hawaited : h₀.store.hasTxn x = true →
      Awaits x kind (.returned answer) → answer = .ok kind.done := by
    rintro - hawaits
    cases hawaits
    rfl
  cases hserving with
  | voting hshared hsingle htasks =>
      cases htasks j kind _ hkind hpc with
      | voted => rfl
      | notChanged hnone => simp [CallKind.reply, SpaceHost.vote, hnone]
  | committing hhas hshared htasks =>
      rw [← hdone hhas, hawaited hhas (htasks j kind _ hkind hpc)]
  | settling hhas w kind' pcw hw hne hpcw hsettles hfinish hstore hothers =>
      rw [← hdone hhas]
      by_cases hjw : j = w
      · subst hjw
        obtain rfl := Option.some.inj (hkind.symm.trans hw)
        obtain rfl := Option.some.inj (hpc.symm.trans hpcw)
        cases hsettles
        rfl
      · cases hothers j kind _ hjw hkind hpc with
        | awaits hawaits => exact hawaited hhas hawaits
        | done => rfl

/-- When all handlers have returned, and one was to commit if there was
something to commit, the Space is as after one commit. -/
theorem outcome (hserving : Serving h₀ x kinds s)
    (hlength : kinds.length = s.tasks.length)
    (hreturned : ∀ pc ∈ s.tasks, ∃ answer, pc = .returned answer)
    (hcommit : h₀.store.hasTxn x = true → ∃ kind ∈ kinds, kind ≠ .prepare) :
    s.shared = h₀.committed x := by
  have hat : ∀ kind ∈ kinds, ∃ (j : Nat) (answer : SpaceAnswer),
      kinds[j]? = some kind ∧ s.tasks[j]? = some (.returned answer) := by
    intro kind hkind
    obtain ⟨j, hj⟩ := List.mem_iff_getElem?.mp hkind
    have hlt := hlength ▸ (List.getElem?_eq_some_iff.mp hj).1
    obtain ⟨answer, heq⟩ := hreturned _ (List.getElem_mem hlt)
    exact ⟨j, answer, hj, heq ▸ List.getElem?_eq_getElem hlt⟩
  unfold SpaceHost.committed
  cases hserving with
  | voting hshared hsingle htasks =>
      split
      · next hhas =>
        obtain ⟨kind, hmem, hne⟩ := hcommit hhas
        obtain ⟨j, answer, hj, hpc⟩ := hat kind hmem
        cases htasks j kind _ hj hpc with
        | voted => exact absurd rfl hne
        | notChanged hnone => exact absurd hhas (by simp [hnone])
      · exact hshared
  | committing hhas hshared htasks =>
      obtain ⟨kind, hmem, hne⟩ := hcommit hhas
      obtain ⟨j, answer, hj, hpc⟩ := hat kind hmem
      cases htasks j kind _ hj hpc
      exact absurd rfl hne
  | settling hhas w kind pcw hw hne hpcw hsettles hfinish hstore hothers =>
      obtain ⟨answer, rfl⟩ := hreturned pcw (List.mem_of_getElem? hpcw)
      rw [if_pos hhas]
      exact hfinish

/-! ### Progress -/

theorem enabled {j : Nat} {pc : SpacePc} (hserving : Serving h₀ x kinds s)
    (hlength : kinds.length = s.tasks.length) (hpc : s.tasks[j]? = some pc)
    (hbusy : ∀ answer, pc ≠ .returned answer) :
    ∃ choice s', spaceCalled (.step j choice) = false ∧
      (spaceProgram config).step s (.step j choice) = some s' := by
  obtain ⟨kind, hkind⟩ : ∃ kind, kinds[j]? = some kind :=
    ⟨_, List.getElem?_eq_getElem
      (hlength ▸ (List.getElem?_eq_some_iff.mp hpc).1)⟩
  have hsome : (pc.advance config j s.shared .go).isSome ∨
      (pc.advance config j s.shared (.lease .go)).isSome := by
    cases hserving with
    | voting _ _ htasks | committing _ _ htasks =>
        exact Or.inl ((htasks j kind pc hkind hpc).enabled hbusy)
    | settling _ w _ pcw _ _ hpcw hsettles _ _ hothers =>
        by_cases hjw : j = w
        · subst hjw
          obtain rfl := Option.some.inj (hpc.symm.trans hpcw)
          exact hsettles.enabled hbusy
        · exact Or.inl ((hothers j kind pc hjw hkind hpc).enabled hbusy)
  rcases hsome with hsome | hsome <;>
    obtain ⟨⟨h', pc', events⟩, hadv⟩ := Option.isSome_iff_exists.mp hsome
  · exact ⟨.go, _, rfl, Program.step_step.mpr ⟨pc, _, _, _, hpc, hadv, rfl⟩⟩
  · exact ⟨.lease .go, _, rfl,
      Program.step_step.mpr ⟨pc, _, _, _, hpc, hadv, rfl⟩⟩

end Serving

end Coordin8
