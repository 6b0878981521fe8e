import Coordin8.Space.Moves
import Coordin8.Space.Outcome

/-!
# The Space as a participant

What the Space process guarantees to a coordinator.  A transaction has records
in the buffers only after the Space enlisted in it (`Enrolled`).  Once the Space
has answered that it has nothing of a transaction, or has committed or aborted
it, the Space is released from it; from then on the buffers of the transaction
stay empty, as long as no client's call under it reaches the store
(`Cleared.step`).
-/

namespace Coordin8

open Support Support.DashMap SpacePc

/-- The transaction that a store call shows to have nothing in the Space, or
leaves without anything there. -/
def SpaceEvent.releases : SpaceEvent → Option String
  | .store (.hasTxn x) (.flag false) => some x
  | .store (.commitTxn x) _ | .store (.abortTxn x) _ => some x
  | _ => none

/-- The Space has been released from the transaction `x`. -/
def Released (x : String) (log : List SpaceEvent) : Prop :=
  ∃ e ∈ log, e.releases = some x

instance (x : String) (log : List SpaceEvent) : Decidable (Released x log) :=
  inferInstanceAs (Decidable (∃ e ∈ log, e.releases = some x))

theorem Released.mono {x : String} {log log' : List SpaceEvent}
    (h : Released x log) (hsub : log ⊆ log') : Released x log' := by
  obtain ⟨e, he, hx⟩ := h
  exact ⟨e, hsub he, hx⟩

/-- The transaction under which the next store call of a client's call may
buffer a record. -/
def SpacePc.buffers : SpacePc → Option String
  | .insertUncommitted x _ _ => some x
  | .query .take q _ => q.txnId
  | _ => none

/-- Nothing is buffered under the transaction `x`. -/
def InMemorySpaceStore.Vacant (s : InMemorySpaceStore) (x : String) : Prop :=
  bucket s.uncommitted x = [] ∧ bucket s.txnTaken x = [] ∧
    bucket s.txnSelfTaken x = []

namespace InMemorySpaceStore

variable {s : InMemorySpaceStore} {x : String}

theorem vacant_iff :
    s.Vacant x ↔ ∀ p r, p.txn = some x → (p, r) ∉ s.holdings := by
  simp only [Vacant, List.eq_nil_iff_forall_not_mem]
  constructor
  · rintro ⟨hwrites, htaken, hown⟩ p r hp hr
    cases p with
    | committed => cases hp
    | uncommitted y | taken y | selfTaken y =>
        obtain rfl := Option.some.inj hp
        have hmem := (mem_buffer hp).mpr hr
        first
          | exact hwrites r hmem
          | exact htaken r hmem
          | exact hown r hmem
  · intro h
    exact ⟨fun r hr => h _ r rfl (mem_holdings_uncommitted.mpr hr),
      fun r hr => h _ r rfl (mem_holdings_taken.mpr hr),
      fun r hr => h _ r rfl (mem_holdings_selfTaken.mpr hr)⟩

theorem vacant_of_hasTxn (h : s.hasTxn x = false) : s.Vacant x := by
  simpa [hasTxn, Vacant, and_assoc] using h

end InMemorySpaceStore

/-- A record buffered under `x` was so before a store call, unless the call is
under `x` itself. -/
theorem LedgerStep.buffered_before {H H' : Holdings} {op : SpaceOp}
    {result : SpaceResult} {pc pc' : SpacePc} {q : Place} {r : TupleRecord}
    {x : String} (hstep : LedgerStep H op result H')
    (hcalls : Calls pc op result pc') (hq : q.txn = some x)
    (hr : (q, r) ∈ H') :
    (∃ p, p.txn = some x ∧ (p, r) ∈ H) ∨ pc.buffers = some x := by
  rcases hstep.mem_after hr with
    hold | ⟨-, rfl⟩ | ⟨y, rfl, rfl⟩ | ⟨p, hold, hmoved⟩
  · exact Or.inl ⟨q, hq, hold⟩
  · cases hq
  · cases hcalls
    exact Or.inr hq
  · cases hmoved with
    | takeOwn it template y => exact Or.inl ⟨.uncommitted y, hq, hold⟩
    | takeTxn it template y =>
        refine Or.inr ?_
        generalize htxn : some y = txnId at hcalls
        cases hcalls
        exact htxn.symm.trans hq
    | publish | restore => cases hq

/-! ## Released transactions -/

/-- Once the Space is released from `x`, nothing is buffered under `x`. -/
def Cleared (x : String) (s : SpaceProc) : Prop :=
  Released x s.log → s.shared.store.Vacant x

/-- No call under `x` reaches the store after the Space was released
from `x`. -/
def ReachesInTime (x : String) (s : SpaceProc) : SpaceAct → Prop
  | .step i _ => ∀ pc, s.tasks[i]? = some pc → pc.buffers = some x →
      ¬ Released x s.log
  | _ => True

instance (x : String) (s : SpaceProc) : ∀ act, Decidable (ReachesInTime x s act)
  | .step i _ => decidable_of_iff (∀ pc ∈ s.tasks[i]?, pc.buffers = some x →
      ¬ Released x s.log) Iff.rfl
  | .call _ | .ambient _ => .isTrue trivial

section Cleared

variable {config : SpaceConfig} {s s' : SpaceProc} {x : String} {i : Nat}
  {pc pc' : SpacePc} {h' : SpaceHost} {events : List SpaceEvent}

theorem Cleared.move (hreach : SpaceReachable config s)
    (hcleared : Cleared x s) (hpc : s.tasks[i]? = some pc)
    (htimely : pc.buffers = some x → ¬ Released x s.log)
    (hmove : SpaceMove config i s.shared pc h' pc' events)
    (hreleased : Released x (s.log ++ events)) : h'.store.Vacant x := by
  obtain ⟨e, he, hx⟩ := hreleased
  rcases hmove.events_cases with ⟨op, hcalls, hstore, rfl⟩ | ⟨hstore, hnone, -⟩
  · have hledger := hreach.ledgerStep hpc hcalls
    rw [hstore]
    rcases List.mem_append.mp he with he | he
    · have hvacant := InMemorySpaceStore.vacant_iff.mp (hcleared ⟨e, he, hx⟩)
      refine InMemorySpaceStore.vacant_iff.mpr fun q r hq hr => ?_
      rcases hledger.buffered_before hcalls hq hr with ⟨p, hp, hr⟩ | hbuffers
      · exact hvacant p r hp hr
      · exact htimely hbuffers ⟨e, he, hx⟩
    · obtain rfl := List.mem_singleton.mp he
      cases op with
      | hasTxn y =>
          cases hflag : s.shared.store.hasTxn y with
          | false =>
              simp only [InMemorySpaceStore.exec, hflag,
                SpaceEvent.releases] at hx
              obtain rfl := Option.some.inj hx
              exact InMemorySpaceStore.vacant_of_hasTxn hflag
          | true =>
              simp [InMemorySpaceStore.exec, hflag, SpaceEvent.releases] at hx
      | commitTxn y | abortTxn y =>
          obtain rfl := Option.some.inj hx
          refine InMemorySpaceStore.vacant_iff.mpr fun q r hq hr => ?_
          exact hledger.finished (by simp [SpaceOp.finishes]) hr hq
      | _ => cases hx
  · rw [hstore]
    rcases List.mem_append.mp he with he | he
    · exact hcleared ⟨e, he, hx⟩
    · cases e with
      | drawn => cases hx
      | store op result =>
          have hmem : (op, result) ∈ storeCalls events :=
            List.mem_filterMap.mpr ⟨_, he, rfl⟩
          rw [hnone] at hmem
          cases hmem

theorem Cleared.step {act : SpaceAct} (hreach : SpaceReachable config s)
    (hcleared : Cleared x s) (htimely : ReachesInTime x s act)
    (hstep : (spaceProgram config).step s act = some s') : Cleared x s' := by
  cases act with
  | call pc =>
      obtain ⟨-, rfl⟩ := Program.step_call.mp hstep
      exact hcleared
  | ambient event =>
      obtain ⟨shared, spawned, hamb, rfl⟩ := Program.step_ambient.mp hstep
      obtain ⟨hstore, -⟩ := SpaceHost.ambient_cases hamb
      intro hreleased
      rw [hstore]
      exact hcleared hreleased
  | step i choice =>
      obtain ⟨pc, shared, pc', events, hpc, hadv, rfl⟩ :=
        Program.step_step.mp hstep
      exact hcleared.move hreach hpc (htimely pc hpc) (.of_advance hadv)

end Cleared

/-! ## Enlisted transactions -/

/-- The transaction in which the Space has enlisted when a call stands here. -/
def SpacePc.enrolled : SpacePc → Option String
  | .markEnlisted x _ | .insertUncommitted x _ _ => some x
  | .subscribe .take q | .query .take q _ | .wait .take q _ => q.txnId
  | _ => none

/-- A take that enlists the Space does so for its own transaction. -/
def SpacePc.OwnTxn : SpacePc → Prop
  | .ensureEnlisted x (.take q) | .enlist x (.take q)
  | .markEnlisted x (.take q) => q.txnId = some x
  | _ => True

/-- `P` holds of every transaction in which the Space counts as enlisted, or
under which it has buffered something. -/
structure Enrolled (P : String → Prop) (s : SpaceProc) : Prop where
  enlisted : ∀ x : String, x ∈ s.shared.enlisted → P x
  tasks : ∀ pc ∈ s.tasks, pc.OwnTxn ∧ ∀ x, pc.enrolled = some x → P x
  held : ∀ p r x, (p, r) ∈ s.shared.store.holdings → p.txn = some x → P x

section Enrolled

variable {config : SpaceConfig} {P P' : String → Prop} {s s' : SpaceProc}
  {i : Nat} {h h' : SpaceHost} {pc pc' : SpacePc} {events : List SpaceEvent}
  {x : String}

theorem SpacePc.enrolled_of_buffers (hx : pc.buffers = some x) :
    pc.enrolled = some x := by
  cases pc with
  | insertUncommitted => exact hx
  | query mode => cases mode <;> exact hx
  | _ => cases hx

theorem SpacePc.entry_enrolled (hentry : pc.entry = true) :
    pc.OwnTxn ∧ pc.enrolled = none := by
  cases pc with
  | subscribe mode => cases mode <;> first | exact ⟨trivial, rfl⟩ | cases hentry
  | _ => first | exact ⟨trivial, rfl⟩ | cases hentry

theorem SpacePc.advance_enlist {choice : SpaceChoice} {next : Enlisting}
    (hadv : (SpacePc.enlist x next).advance config i h choice =
      some (h', pc', events)) :
    h' = h ∧ events = [] ∧
      ((choice = .enlisted (.ok ()) ∧ pc' = .markEnlisted x next) ∨
        ∃ e, pc' = .returned (.error e)) := by
  cases choice with
  | enlisted result =>
      cases result <;>
        simp only [advance, stay, Option.some.injEq, Prod.mk.injEq] at hadv <;>
        obtain ⟨rfl, rfl, rfl⟩ := hadv
      · exact ⟨rfl, rfl, Or.inr ⟨_, rfl⟩⟩
      · exact ⟨rfl, rfl, Or.inl ⟨rfl, rfl⟩⟩
  | uuids id leaseId =>
      simp only [advance] at hadv
      split at hadv <;> cases hadv
  | _ => cases hadv

theorem SpacePc.afterEnlist_enrolled {next : Enlisting}
    (hown : (SpacePc.markEnlisted x next).OwnTxn) :
    (afterEnlist x next).OwnTxn ∧ (afterEnlist x next).enrolled = some x := by
  cases next with
  | write => exact ⟨trivial, rfl⟩
  | take q => exact ⟨trivial, hown⟩

/-- A call that counted as enlisted in no other transaction than `pc` goes on
at `pc'`. -/
def SpacePc.Follows (pc pc' : SpacePc) : Prop :=
  pc'.OwnTxn ∧ ∀ x, pc'.enrolled = some x → pc.enrolled = some x

theorem SpacePc.Follows.of_none (hown : pc'.OwnTxn)
    (hnone : pc'.enrolled = none) : pc.Follows pc' := by
  refine ⟨hown, fun x hx => ?_⟩
  rw [hnone] at hx
  cases hx

theorem SpacePc.follows_settle (pc : SpacePc) (todo sends : List TupleRecord)
    (reply : SpaceReply) : pc.Follows (settle todo sends reply) := by
  unfold settle
  split <;> exact .of_none trivial rfl

theorem SpacePc.follows_afterLease {lpc : LeasePc}
    (hafter : pc.afterLease lpc = some pc') : pc.Follows pc' := by
  cases pc with
  | cancelTaken | leaseCall | lease =>
      cases lpc <;> cases hafter <;> exact .of_none trivial rfl
  | settleCancel lpc' todo sends reply =>
      cases lpc <;> cases hafter <;>
        first | exact .of_none trivial rfl | exact follows_settle ..
  | _ => cases hafter

theorem SpacePc.follows_afterQuery (mode : Mode) (q : Query) (cursor : Nat)
    (found : Option TupleRecord) :
    (SpacePc.query mode q cursor).Follows (afterQuery mode q cursor found) := by
  unfold afterQuery
  split
  · split <;> exact .of_none trivial rfl
  · split
    · exact ⟨trivial, fun x hx => by cases mode <;> exact hx⟩
    · exact .of_none trivial rfl

theorem SpacePc.follows_afterRecv (mode : Mode) (q : Query)
    (cursor cursor' : Nat) (received : Recv TupleRecord) :
    (SpacePc.wait mode q cursor).Follows (afterRecv mode q cursor' received) := by
  unfold afterRecv
  split
  · split
    · cases mode with
      | read => exact .of_none trivial rfl
      | take => exact ⟨trivial, fun x hx => hx⟩
    · exact ⟨trivial, fun x hx => by cases mode <;> exact hx⟩
  · exact ⟨trivial, fun x hx => by cases mode <;> exact hx⟩

theorem Calls.follows {op : SpaceOp} {result : SpaceResult}
    (hcalls : Calls pc op result pc') : pc.Follows pc' := by
  cases hcalls with
  | findMatch | takeMatch => exact follows_afterQuery ..
  | prepareAndCommit x hasState =>
      cases hasState <;> exact .of_none trivial rfl
  | _ => exact .of_none trivial rfl

/-- A call that does not wait for the enlister goes on in its transaction, or
finds itself enlisted. -/
theorem SpaceMove.follows {ep : String} (hep : config.enlister = some ep)
    (hmove : SpaceMove config i h pc h' pc' events)
    (hne : ∀ x next, pc ≠ .enlist x next) (hown : pc.OwnTxn) :
    pc.Follows pc' ∨
      ∃ x, pc'.OwnTxn ∧ pc'.enrolled = some x ∧ x ∈ h.enlisted := by
  cases hmove with
  | store hcalls => exact Or.inl hcalls.follows
  | pass hpasses =>
      cases hpasses with
      | takeUnder hx => exact Or.inl (.of_none hx rfl)
      | takePlain hx => exact Or.inl (.of_none trivial hx)
      | noEnlister hnone =>
          rw [hnone] at hep
          cases hep
      | @known x next hx =>
          have hmark : (SpacePc.markEnlisted x next).OwnTxn := by
            cases next <;> exact hown
          obtain ⟨hown', henrolled⟩ := afterEnlist_enrolled hmark
          exact Or.inr ⟨x, hown', henrolled, hx⟩
      | @unknown x _ next =>
          exact Or.inl (.of_none (by cases next <;> exact hown) rfl)
      | accepted | refused => exact absurd rfl (hne _ _)
      | @subscribed mode =>
          exact Or.inl ⟨trivial, fun x hx => by cases mode <;> exact hx⟩
      | received => exact Or.inl (follows_afterRecv ..)
      | timeout => exact Or.inl (.of_none trivial rfl)
  | mark =>
      obtain ⟨hown', henrolled⟩ := afterEnlist_enrolled hown
      exact Or.inl ⟨hown', fun y hy => henrolled.symm.trans hy⟩
  | write =>
      unfold afterWrite
      split <;> exact Or.inl (.of_none trivial rfl)
  | unmark | sendSettled => exact Or.inl (follows_settle ..)
  | lease _ _ hafter => exact Or.inl (follows_afterLease hafter)
  | _ => exact Or.inl (.of_none trivial rfl)

theorem SpaceMove.enlisted (hmove : SpaceMove config i h pc h' pc' events)
    (hx : x ∈ h'.enlisted) : x ∈ h.enlisted ∨ pc.enrolled = some x := by
  cases hmove with
  | mark =>
      rcases Std.ExtTreeMap.mem_insert.mp hx with hx | hx
      · exact Or.inr (congrArg some (Std.LawfulEqCmp.eq_of_compare hx))
      · exact Or.inl hx
  | unmark => exact Or.inl (Std.ExtTreeMap.mem_erase.mp hx).2
  | _ => exact Or.inl hx

theorem Enrolled.weaken (henr : Enrolled P s) (hweaken : ∀ x, P x → P' x) :
    Enrolled P' s :=
  ⟨fun x hx => hweaken x (henr.enlisted x hx),
    fun pc hpc => ⟨(henr.tasks pc hpc).1,
      fun x hx => hweaken x ((henr.tasks pc hpc).2 x hx)⟩,
    fun p r x hr hp => hweaken x (henr.held p r x hr hp)⟩

theorem Enrolled.held_step (hreach : SpaceReachable config s)
    (henr : Enrolled P s) (hpc : s.tasks[i]? = some pc)
    (hmove : SpaceMove config i s.shared pc h' pc' events) {p : Place}
    {r : TupleRecord} (hr : (p, r) ∈ h'.store.holdings)
    (hp : p.txn = some x) : P x := by
  rcases hmove.events_cases with ⟨op, hcalls, hstore, -⟩ | ⟨hstore, -, -⟩
  · rw [hstore] at hr
    rcases (hreach.ledgerStep hpc hcalls).buffered_before hcalls hp hr with
      ⟨q, hq, hr⟩ | hbuffers
    · exact henr.held q r x hr hq
    · exact (henr.tasks pc (List.mem_of_getElem? hpc)).2 x
        (enrolled_of_buffers hbuffers)
  · exact henr.held p r x (hstore ▸ hr) hp

theorem Enrolled.step {ep : String} (hep : config.enlister = some ep)
    {act : SpaceAct} (hreach : SpaceReachable config s) (henr : Enrolled P s)
    (hstep : (spaceProgram config).step s act = some s')
    (hweaken : ∀ x, P x → P' x)
    (haccepted : ∀ i x next, act = .step i (.enlisted (.ok ())) →
      s.tasks[i]? = some (.enlist x next) → P' x) : Enrolled P' s' := by
  have hold := henr.weaken hweaken
  cases act with
  | call pc =>
      obtain ⟨hentry, rfl⟩ := Program.step_call.mp hstep
      obtain ⟨hown, hnone⟩ := entry_enrolled hentry
      refine ⟨hold.enlisted, fun pc' hpc' => ?_, hold.held⟩
      rcases List.mem_append.mp hpc' with hpc' | hpc'
      · exact hold.tasks pc' hpc'
      · obtain rfl := List.mem_singleton.mp hpc'
        exact ⟨hown, fun x hx => by rw [hnone] at hx; cases hx⟩
  | ambient event =>
      obtain ⟨shared, spawned, hamb, rfl⟩ := Program.step_ambient.mp hstep
      obtain ⟨hstore, -, henlisted, -, -, hspawned⟩ :=
        SpaceHost.ambient_cases hamb
      refine ⟨fun x hx => hold.enlisted x (henlisted ▸ hx),
        fun pc' hpc' => ?_, fun p r x hr => hold.held p r x (hstore ▸ hr)⟩
      rcases List.mem_append.mp hpc' with hpc' | hpc'
      · exact hold.tasks pc' hpc'
      · obtain ⟨l, rfl | rfl⟩ := hspawned pc' hpc' <;>
          exact ⟨trivial, fun x hx => by cases hx⟩
  | step i choice =>
      obtain ⟨pc, shared, pc', events, hpc, hadv, rfl⟩ :=
        Program.step_step.mp hstep
      have hmove := SpaceMove.of_advance hadv
      obtain ⟨hown, henrolled⟩ := henr.tasks pc (List.mem_of_getElem? hpc)
      refine ⟨fun x hx => hweaken x ?_, fun pc'' hpc'' => ?_,
        fun p r x hr hp => hweaken x (henr.held_step hreach hpc hmove hr hp)⟩
      · exact (hmove.enlisted hx).elim (henr.enlisted x) (henrolled x)
      rcases List.mem_or_eq_of_mem_set hpc'' with hpc'' | rfl
      · exact hold.tasks pc'' hpc''
      by_cases henlist : ∃ x next, pc = .enlist x next
      · obtain ⟨x, next, rfl⟩ := henlist
        obtain ⟨-, -, ⟨rfl, rfl⟩ | ⟨e, rfl⟩⟩ := advance_enlist hadv
        · refine ⟨by cases next <;> exact hown, fun y hy => ?_⟩
          obtain rfl := Option.some.inj hy
          exact haccepted i x next rfl hpc
        · exact ⟨trivial, fun y hy => by cases hy⟩
      · have hne : ∀ x next, pc ≠ .enlist x next :=
          fun x next heq => henlist ⟨x, next, heq⟩
        rcases hmove.follows hep hne hown with
          ⟨hown', hfollows⟩ | ⟨x, hown', hx, hmem⟩
        · exact ⟨hown', fun y hy => hweaken y (henrolled y (hfollows y hy))⟩
        · refine ⟨hown', fun y hy => hweaken y ?_⟩
          obtain rfl := Option.some.inj (hx.symm.trans hy)
          exact henr.enlisted x hmem

theorem Enrolled.new (P : String → Prop) : Enrolled P SpaceProc.new := by
  have hstore : SpaceProc.new.shared.store.holdings = 0 :=
    InMemorySpaceStore.holdings_new
  refine ⟨fun x hx => absurd hx Std.ExtTreeMap.not_mem_empty,
    by simp [SpaceProc.new], ?_⟩
  simp [hstore]

end Enrolled

end Coordin8
