import Coordin8.Space.Moves
import Mathlib.Data.List.Infix

/-!
# What the notifications show

Notify streams are fed from two broadcasts, `tupleTx` and `expiryTx`.  A call
that is going to broadcast keeps the records in hand, `SpacePc.outgoing`, from
the store call that produced them.  `Announces` lists these store calls: a
write, a commit, an abort and an expiry.  The first three leave the record
visible to everybody.  An expiry takes the record from wherever it is, and so
it can hand out a write that only its transaction has seen.
-/

namespace Coordin8

open Support Support.DashMap SpacePc

/-- The records a call still has to broadcast. -/
def SpacePc.outgoing : SpacePc → List TupleRecord
  | .insertSend r _ | .expirySend r => [r]
  | .unmark _ _ sends _ | .settleCancel _ _ sends _ => sends
  | .settleSend r sends _ => r :: sends
  | _ => []

/-- Everything the process has broadcast. -/
def SpaceHost.sent (h : SpaceHost) : List TupleRecord :=
  h.tupleTx ++ h.expiryTx

/-- The store calls whose records are broadcast. -/
inductive Announces : SpaceOp → SpaceResult → TupleRecord → Prop where
  | written (r : TupleRecord) : Announces (.insert r) .unit r
  | flushed (x : String) {writes : List TupleRecord} (taken : List TupleRecord)
      {r : TupleRecord} (hr : r ∈ writes) :
      Announces (.commitTxn x) (.lists writes taken) r
  | restored (x : String) (discarded : List TupleRecord)
      {taken : List TupleRecord} {r : TupleRecord} (hr : r ∈ taken) :
      Announces (.abortTxn x) (.lists discarded taken) r
  | expired (l : String) (r : TupleRecord) :
      Announces (.removeByLease l) (.tuple (some r)) r

/-- An announced record is visible after the call, unless its lease expired. -/
theorem LedgerStep.announced {H H' : Holdings} {op : SpaceOp}
    {result : SpaceResult} {r : TupleRecord}
    (hstep : LedgerStep H op result H') (hann : Announces op result r) :
    (.committed, r) ∈ H' ∨ op = .removeByLease r.leaseId ∧ ∃ p, (p, r) ∈ H := by
  cases hann with
  | written =>
      cases hstep with
      | insert => exact Or.inl (Multiset.mem_cons_self _ _)
      | stationary _ _ _ hop => cases hop
  | flushed x taken hr =>
      cases hstep with
      | commit => exact Or.inl (Multiset.mem_add.mpr (Or.inl (by simp [hr])))
      | stationary _ _ _ hop => cases hop
  | restored x discarded hr =>
      cases hstep with
      | abort => exact Or.inl (Multiset.mem_add.mpr (Or.inl (by simp [hr])))
      | stationary _ _ _ hop => cases hop
  | expired l =>
      cases hstep with
      | expire H p => exact Or.inr ⟨rfl, p, Multiset.mem_cons_self _ _⟩
      | stationary _ _ _ hop => cases hop

/-! ## What one move sends -/

section Outgoing

variable {config : SpaceConfig} {i : Nat} {h h' : SpaceHost} {pc pc' : SpacePc}
  {events : List SpaceEvent} {op : SpaceOp} {result : SpaceResult}
  {r : TupleRecord}

theorem SpacePc.entry_outgoing (hentry : pc.entry = true) :
    pc.outgoing = [] := by
  cases pc <;> first | rfl | cases hentry

theorem SpacePc.outgoing_settle (todo sends : List TupleRecord)
    (reply : SpaceReply) : (settle todo sends reply).outgoing = sends := by
  unfold settle
  split <;> rfl

theorem SpacePc.outgoing_afterLease {lpc : LeasePc}
    (hafter : pc.afterLease lpc = some pc') :
    pc'.outgoing = pc.outgoing := by
  cases pc with
  | cancelTaken | leaseCall | lease =>
      cases lpc <;> cases hafter <;> rfl
  | settleCancel pc todo sends reply =>
      cases lpc <;> cases hafter <;> first | rfl | exact outgoing_settle ..
  | _ => cases hafter

theorem Calls.outgoing (hcalls : Calls pc op result pc')
    (hr : r ∈ pc'.outgoing) : Announces op result r := by
  cases hcalls with
  | insert =>
      obtain rfl := List.mem_singleton.mp hr
      exact .written r
  | commitTxn x reply flushed taken => exact .flushed x taken hr
  | abortTxn x discarded restored => exact .restored x discarded hr
  | expired l =>
      obtain rfl := List.mem_singleton.mp hr
      exact .expired l r
  | findMatch it q cursor found | takeMatch it q cursor found =>
      unfold afterQuery at hr
      split at hr
      · split at hr <;> cases hr
      · split at hr <;> cases hr
  | prepareAndCommit x hasState => cases hasState <;> cases hr
  | _ => cases hr

theorem Passes.outgoing (hpasses : Passes config h pc pc') :
    pc'.outgoing = [] := by
  cases hpasses with
  | @noEnlister x next | @known x next => cases next <;> rfl
  | received =>
      unfold afterRecv
      split
      · split
        · split <;> rfl
        · rfl
      · rfl
  | _ => rfl

/-- What a call has to broadcast it had before, or its store call just
announced it. -/
theorem SpaceMove.outgoing (hmove : SpaceMove config i h pc h' pc' events)
    (hr : r ∈ pc'.outgoing) :
    r ∈ pc.outgoing ∨ ∃ op, Calls pc op (h.store.exec op).1 pc' ∧
      h'.store = (h.store.exec op).2 ∧ Announces op (h.store.exec op).1 r := by
  cases hmove with
  | store hcalls => exact Or.inr ⟨_, hcalls, rfl, hcalls.outgoing hr⟩
  | pass hpasses =>
      rw [hpasses.outgoing] at hr
      cases hr
  | write =>
      unfold afterWrite at hr
      split at hr <;> cases hr
  | @mark x next => cases next <;> cases hr
  | unmark =>
      rw [outgoing_settle] at hr
      exact Or.inl hr
  | sendSettled =>
      rw [outgoing_settle] at hr
      exact Or.inl (List.mem_cons_of_mem _ hr)
  | lease _ _ hafter =>
      rw [outgoing_afterLease hafter] at hr
      exact Or.inl hr
  | _ => cases hr

theorem SpaceMove.sent (hmove : SpaceMove config i h pc h' pc' events)
    (hr : r ∈ h'.sent) : r ∈ h.sent ∨ r ∈ pc.outgoing := by
  cases hmove with
  | sendNew | sendSettled | sendExpired =>
      simp only [SpaceHost.sent, List.mem_append, List.mem_singleton] at hr ⊢
      simp only [SpacePc.outgoing, List.mem_cons]
      tauto
  | _ => exact Or.inl hr

end Outgoing

/-! ## Whole runs -/

/-- No expiry takes a write that only its own transaction can see: the lease of
the expiry is not the lease of a record in `uncommitted` or `txnSelfTaken`. -/
def SparesHidden (s : SpaceProc) : SpaceAct → Prop
  | .step i _ =>
      ∀ l, s.tasks[i]? = some (.onTupleExpired l) → ∀ (x : String),
        (∀ r ∈ bucket s.shared.store.uncommitted x, r.leaseId ≠ l) ∧
          ∀ r ∈ bucket s.shared.store.txnSelfTaken x, r.leaseId ≠ l
  | _ => True

theorem sparesHidden_of_empty {s : SpaceProc} (act : SpaceAct)
    (hwrites : s.shared.store.uncommitted = ∅)
    (hown : s.shared.store.txnSelfTaken = ∅) : SparesHidden s act := by
  cases act with
  | step i choice =>
      intro l _ x
      simp [hwrites, hown, bucket]
  | _ => trivial

/-- `P` holds of every record that is visible, of those that were so until a
transaction took them, and of those about to be broadcast. -/
structure Vouched (P : TupleRecord → Prop) (s : SpaceProc) : Prop where
  visible : ∀ r, (.committed, r) ∈ s.shared.store.holdings → P r
  taken : ∀ x r, (.taken x, r) ∈ s.shared.store.holdings → P r
  outgoing : ∀ pc ∈ s.tasks, ∀ r ∈ pc.outgoing, P r

section Vouched

variable {config : SpaceConfig} {P P' : TupleRecord → Prop} {s s' : SpaceProc}
  {i : Nat} {pc pc' : SpacePc} {h' : SpaceHost} {events : List SpaceEvent}
  {r : TupleRecord}

theorem Vouched.taken_step (hreach : SpaceReachable config s)
    (hv : Vouched P s) (hpc : s.tasks[i]? = some pc)
    (hmove : SpaceMove config i s.shared pc h' pc' events) {x : String}
    (hr : (.taken x, r) ∈ h'.store.holdings) : P r := by
  rcases hmove.events_cases with ⟨op, hcalls, hstore, -⟩ | ⟨hstore, -, -⟩
  · rw [hstore] at hr
    rcases (hreach.ledgerStep hpc hcalls).mem_after hr with
      hold | ⟨-, hplace⟩ | ⟨y, -, hplace⟩ | ⟨p, hold, hmoved⟩
    · exact hv.taken x r hold
    · cases hplace
    · cases hplace
    · generalize (s.shared.store.exec op).1 = result at hmoved
      cases hmoved with
      | takeTxn => exact hv.visible r hold
  · rw [hstore] at hr
    exact hv.taken x r hr

theorem Vouched.outgoing_step (hreach : SpaceReachable config s)
    (hv : Vouched P s) {choice : SpaceChoice}
    (hspares : SparesHidden s (.step i choice)) (hpc : s.tasks[i]? = some pc)
    (hmove : SpaceMove config i s.shared pc h' pc' events)
    (hr : r ∈ pc'.outgoing) : P r ∨ (.committed, r) ∈ h'.store.holdings := by
  rcases hmove.outgoing hr with hold | ⟨op, hcalls, hstore, hann⟩
  · exact Or.inl (hv.outgoing pc (List.mem_of_getElem? hpc) r hold)
  rcases (hreach.ledgerStep hpc hcalls).announced hann with
    hvisible | ⟨rfl, p, hp⟩
  · exact Or.inr (hstore ▸ hvisible)
  -- The lease of the record has expired, wherever the record was.
  have hexpired : pc = .onTupleExpired r.leaseId := by
    generalize ((s.shared.store.exec (.removeByLease r.leaseId)).1) = result
      at hcalls
    cases hcalls <;> rfl
  have hspares := hspares r.leaseId (hexpired ▸ hpc)
  cases p with
  | committed => exact Or.inl (hv.visible r hp)
  | taken x => exact Or.inl (hv.taken x r hp)
  | uncommitted x =>
      exact absurd rfl ((hspares x).1 r
        (InMemorySpaceStore.mem_holdings_uncommitted.mp hp))
  | selfTaken x =>
      exact absurd rfl ((hspares x).2 r
        (InMemorySpaceStore.mem_holdings_selfTaken.mp hp))

theorem Vouched.step {act : SpaceAct} (hreach : SpaceReachable config s)
    (hv : Vouched P s) (hspares : SparesHidden s act)
    (hstep : (spaceProgram config).step s act = some s')
    (hweaken : ∀ r, P r → P' r)
    (hvisible : ∀ r, (.committed, r) ∈ s'.shared.store.holdings → P' r) :
    Vouched P' s' := by
  cases act with
  | call pc =>
      obtain ⟨hentry, rfl⟩ := Program.step_call.mp hstep
      refine ⟨hvisible, fun x r hr => hweaken r (hv.taken x r hr),
        fun pc' hpc' r hr => ?_⟩
      rcases List.mem_append.mp hpc' with hpc' | hpc'
      · exact hweaken r (hv.outgoing pc' hpc' r hr)
      · obtain rfl := List.mem_singleton.mp hpc'
        rw [entry_outgoing hentry] at hr
        cases hr
  | ambient event =>
      obtain ⟨shared, spawned, hamb, rfl⟩ := Program.step_ambient.mp hstep
      obtain ⟨hstore, -, -, -, -, hspawned⟩ := SpaceHost.ambient_cases hamb
      refine ⟨hvisible, fun x r hr => hweaken r (hv.taken x r (hstore ▸ hr)),
        fun pc' hpc' r hr => ?_⟩
      rcases List.mem_append.mp hpc' with hpc' | hpc'
      · exact hweaken r (hv.outgoing pc' hpc' r hr)
      · obtain ⟨l, rfl | rfl⟩ := hspawned pc' hpc' <;> cases hr
  | step i choice =>
      obtain ⟨pc, shared, pc', events, hpc, hadv, rfl⟩ :=
        Program.step_step.mp hstep
      have hmove := SpaceMove.of_advance hadv
      refine ⟨hvisible,
        fun x r hr => hweaken r (hv.taken_step hreach hpc hmove hr),
        fun pc'' hpc'' r hr => ?_⟩
      rcases List.mem_or_eq_of_mem_set hpc'' with hpc'' | rfl
      · exact hweaken r (hv.outgoing pc'' hpc'' r hr)
      · exact (hv.outgoing_step hreach hspares hpc hmove hr).elim (hweaken r)
          (hvisible r)

theorem sent_of_step {act : SpaceAct}
    (hstep : (spaceProgram config).step s act = some s')
    (hr : r ∈ s'.shared.sent) :
    r ∈ s.shared.sent ∨ ∃ pc ∈ s.tasks, r ∈ pc.outgoing := by
  cases act with
  | call pc =>
      obtain ⟨-, rfl⟩ := Program.step_call.mp hstep
      exact Or.inl hr
  | ambient event =>
      obtain ⟨shared, spawned, hamb, rfl⟩ := Program.step_ambient.mp hstep
      obtain ⟨-, -, -, htuple, hexpiry, -⟩ := SpaceHost.ambient_cases hamb
      simp only [SpaceHost.sent, htuple, hexpiry] at hr
      exact Or.inl hr
  | step i choice =>
      obtain ⟨pc, shared, pc', events, hpc, hadv, rfl⟩ :=
        Program.step_step.mp hstep
      exact ((SpaceMove.of_advance hadv).sent hr).imp_right
        fun hr => ⟨pc, List.mem_of_getElem? hpc, hr⟩

end Vouched

/-- The run `as` ends with the record in the committed tuples. -/
def VisibleAfter (config : SpaceConfig) (as : List SpaceAct)
    (r : TupleRecord) : Prop :=
  ∃ s, run (spaceProgram config).step SpaceProc.new as = some s ∧
    ∃ t : String, s.shared.store.tuples[t]? = some r

/-- Every record in `Vouched`'s places was visible at some moment of the run
`acts`, and every record broadcast was so before its last step. -/
structure Accounted (config : SpaceConfig) (acts : List SpaceAct)
    (s : SpaceProc) : Prop where
  vouched : Vouched (fun r => ∃ as, as <+: acts ∧ VisibleAfter config as r) s
  sent : ∀ r ∈ s.shared.sent,
    ∃ as a, as ++ [a] <+: acts ∧ VisibleAfter config as r

theorem Accounted.new (config : SpaceConfig) :
    Accounted config [] SpaceProc.new := by
  have hstore : SpaceProc.new.shared.store.holdings = 0 :=
    InMemorySpaceStore.holdings_new
  refine ⟨⟨?_, ?_, ?_⟩, ?_⟩
  · simp [hstore, -InMemorySpaceStore.mem_holdings_committed]
  · simp [hstore, -InMemorySpaceStore.mem_holdings_taken]
  · simp [SpaceProc.new]
  · simp [SpaceProc.new, SpaceHost.new, SpaceHost.sent]

theorem Accounted.step {config : SpaceConfig} {acts : List SpaceAct}
    {s s' : SpaceProc} {act : SpaceAct}
    (hrun : run (spaceProgram config).step SpaceProc.new acts = some s)
    (hacc : Accounted config acts s) (hspares : SparesHidden s act)
    (hstep : (spaceProgram config).step s act = some s') :
    Accounted config (acts ++ [act]) s' := by
  have hmono : acts <+: acts ++ [act] := List.prefix_append _ _
  refine ⟨hacc.vouched.step ⟨acts, hrun⟩ hspares hstep ?_ ?_, fun r hr => ?_⟩
  · rintro r ⟨as, has, hr⟩
    exact ⟨as, has.trans hmono, hr⟩
  · intro r hr
    exact ⟨acts ++ [act], List.prefix_rfl, s', run_snoc_eq_some.mpr
      ⟨s, hrun, hstep⟩, InMemorySpaceStore.mem_holdings_committed.mp hr⟩
  · rcases sent_of_step hstep hr with hr | ⟨pc, hpc, hr⟩
    · obtain ⟨as, a, has, hr⟩ := hacc.sent r hr
      exact ⟨as, a, has.trans hmono, hr⟩
    · obtain ⟨as, ⟨bs, rfl⟩, hr⟩ := hacc.vouched.outgoing pc hpc r hr
      cases bs with
      | nil => exact ⟨as, act, by simp, hr⟩
      | cons b bs => exact ⟨as, b, by simp, hr⟩

/-- In every run whose expiries spare the writes that only their transaction can
see, every record on the two broadcasts was in the committed tuples at an
earlier moment of the run. -/
theorem notifications_seen {config : SpaceConfig} {acts : List SpaceAct}
    {s : SpaceProc} {r : TupleRecord}
    (hrun : run (spaceProgram config).step SpaceProc.new acts = some s)
    (hmeet : StepsMeet (spaceProgram config).step SparesHidden SpaceProc.new
      acts)
    (hsent : r ∈ s.shared.tupleTx ∨ r ∈ s.shared.expiryTx) :
    ∃ as a, as ++ [a] <+: acts ∧ VisibleAfter config as r := by
  have hacc : Accounted config acts s := by
    refine run_invariant (P := fun acts s =>
      StepsMeet (spaceProgram config).step SparesHidden SpaceProc.new acts →
        Accounted config acts s) (fun _ => .new config) ?_ hrun hmeet
    intro acts s act s' hrun ih hstep hmeet
    obtain ⟨hmeet, hspares, -⟩ := (stepsMeet_append hrun).mp hmeet
    exact (ih hmeet).step hrun hspares hstep
  exact hacc.sent r (List.mem_append.mpr hsent)

def draft : WriteRequest where
  attrs := ∅
  payload := []
  ttlSecs := 60
  writtenBy := "shop"
  inputTupleId := none
  txnId := some "t"

def draftWritten : List SpaceAct :=
  [.call (.write draft), .step 0 (.uuids "1" "l"), .step 0 .go, .step 0 .go]

/-- The lease of the tuple is cancelled, and the cascade removes the tuple. -/
def leaseReclaimed (cancel expire : Nat) : List SpaceAct :=
  [.call (.lease (.cancel "l")), .step cancel (.lease .go),
    .step cancel (.lease .go), .step cancel (.lease .go), .ambient .cascade,
    .step expire .go, .step expire .go]

/-- The lease of a pending write is cancelled: the write is announced as expired
although at no moment was any tuple visible. -/
theorem notification_of_hidden_write :
    ∃ s r, run (spaceProgram quietSpace).step SpaceProc.new
        (draftWritten ++ leaseReclaimed 1 2) = some s ∧
      r ∈ s.shared.expiryTx ∧
      ∀ as, as <+: draftWritten ++ leaseReclaimed 1 2 →
        ¬ VisibleAfter quietSpace as r := by
  refine ⟨_, _, rfl, List.mem_singleton_self _, ?_⟩
  rintro as has ⟨s, hrun, t, ht⟩
  have hempty : ((draftWritten ++ leaseReclaimed 1 2).inits.all fun as =>
      (run (spaceProgram quietSpace).step SpaceProc.new as).all
        fun s => s.shared.store.tuples.isEmpty) = true := by
    decide
  have hs := List.all_eq_true.mp hempty as ((List.mem_inits _ _).mpr has)
  rw [hrun, Option.all_some, Std.ExtTreeMap.isEmpty_iff] at hs
  simp [hs] at ht

/-- The transaction commits before the lease is cancelled. -/
def draftCommitted : List SpaceAct :=
  draftWritten ++ [.call (.commitTxn "t" .unit), .step 1 .go, .step 1 .go,
    .step 1 .go] ++ leaseReclaimed 2 3

theorem draftCommitted_meets :
    StepsMeet (spaceProgram quietSpace).step SparesHidden SpaceProc.new
      draftCommitted := by
  refine .cons trivial rfl (.cons ?_ rfl (.cons ?_ rfl (.cons ?_ rfl
    (.cons trivial rfl (.cons ?_ rfl (.cons ?_ rfl (.cons ?_ rfl
    (.cons trivial rfl (.cons ?_ rfl (.cons ?_ rfl (.cons ?_ rfl
    (.cons trivial rfl (.cons ?_ rfl (.cons ?_ rfl trivial))))))))))))))
  -- At the expiry the transaction has no buffers any more.
  case refine_10 => exact sparesHidden_of_empty _ (by decide) (by decide)
  all_goals
    intro l hl
    cases hl

theorem notifications_seen_committed :
    ∃ s r, run (spaceProgram quietSpace).step SpaceProc.new draftCommitted =
        some s ∧
      r ∈ s.shared.tupleTx ∧ r ∈ s.shared.expiryTx ∧
      ∃ as a, as ++ [a] <+: draftCommitted ∧ VisibleAfter quietSpace as r :=
  ⟨_, _, rfl, List.mem_singleton_self _, List.mem_singleton_self _,
    notifications_seen (show run (spaceProgram quietSpace).step SpaceProc.new
        draftCommitted = some _ from rfl) draftCommitted_meets
      (Or.inr (List.mem_singleton_self _))⟩

end Coordin8
