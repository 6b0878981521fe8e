import Coordin8.Event.Moves
import Coordin8.Support.Tally

/-!
# The sequence numbers of events

`emit` draws the number of an event from a counter, and a best-effort
subscription takes the largest counter of its source as its baseline.  Both look
the counters up by text: the counter of an event is filed under
`source::event_type`, and those of a source are the ones whose key begins with
`source::`.

A run of the process leaves behind the list of what was issued in it and to
which call, events and subscriptions in the order in which they were drawn.  The
counters are the tally of the events' keys, so what is issued is a function of
what was issued before.
Different sources and types may have the same key, and the keys of one source
may begin like those of another; where they do not, the numbers are what they
are meant to be.
-/

namespace Coordin8

open Support

/-- The key of the counter: `format!("{}::{}", source, event_type)`. -/
def seqKey (source eventType : String) : String :=
  source ++ "::" ++ eventType

def EventRecord.seqKey (e : EventRecord) : String :=
  Coordin8.seqKey e.source e.eventType

/-- What the event manager hands out: events with their numbers, and
subscriptions with their baselines. -/
inductive Issue where
  | emitted (event : EventRecord)
  | subscribed (sub : SubscriptionRecord)
deriving DecidableEq

def Issue.event? : Issue → Option EventRecord
  | .emitted event => some event
  | .subscribed _ => none

/-- The events of a history. -/
def eventsOf (history : List Issue) : List EventRecord :=
  history.filterMap Issue.event?

/-- The keys drawn for in a history. -/
def keysOf (history : List Issue) : List String :=
  (eventsOf history).map EventRecord.seqKey

theorem keysOf_append (h₁ h₂ : List Issue) :
    keysOf (h₁ ++ h₂) = keysOf h₁ ++ keysOf h₂ := by
  simp [keysOf, eventsOf]

/-- The number, or the baseline, is the one that the counters give after
`history`. -/
def Issue.Follows (history : List Issue) : Issue → Prop
  | .emitted event => event.seqNum = (keysOf history).count event.seqKey + 1
  | .subscribed sub => sub.initialSeqNum =
      EventPc.initialSeqNum (tally (keysOf history)) sub.source sub.delivery

/-- Everything in the history follows from what was issued before. -/
def Consistent (history : List Issue) : Prop :=
  ∀ pre issue post, history = pre ++ issue :: post → issue.Follows pre

theorem Consistent.nil : Consistent [] := by
  intro pre issue post h
  simp at h

variable {history : List Issue} {event : EventRecord} {shared : LocalEventHost}
  {log : List EventLog} {i : Nat} {pc : EventPc}

theorem Consistent.concat {issue : Issue}
    (h : Consistent history) (hissue : issue.Follows history) :
    Consistent (history ++ [issue]) := by
  intro pre x post heq
  rcases List.eq_nil_or_concat post with rfl | ⟨post, y, rfl⟩
  · obtain ⟨rfl, hx⟩ := List.append_inj' heq rfl
    obtain rfl := List.singleton_inj.mp hx
    exact hissue
  · have hsnoc : history ++ [issue] = (pre ++ x :: post) ++ [y] := by
      simpa using heq
    exact h pre x post (List.append_inj' hsnoc rfl).1

/-! ## The history of a run -/

/-- What the place a call has come to says was issued to it. -/
def EventPc.issued : EventPc → List Issue
  | .emitList event => [.emitted event]
  | .createSubscription sub _ => [.subscribed sub]
  | _ => []

/-- What is issued in a step of the process, with the task it is issued to. -/
def issuedIn (_ : LocalEventProc) (act : LocalEventAct) (s' : LocalEventProc) :
    List (Nat × Issue) :=
  match act with
  | .step i (.manager _) =>
      (((s'.tasks[i]?).map EventPc.issued).getD []).map (i, ·)
  | _ => []

/-- What is drawn in a run from a fresh start. -/
def draws (config : EventConfig) (acts : List LocalEventAct) :
    List (Nat × Issue) :=
  trace (localEventProgram config).step issuedIn LocalEventProc.new acts

def issues (config : EventConfig) (acts : List LocalEventAct) : List Issue :=
  (draws config acts).map Prod.snd

/-- What was issued to the task `i`. -/
def drawnBy (i : Nat) (drawn : List (Nat × Issue)) : List Issue :=
  (drawn.filter fun d => d.1 = i).map Prod.snd

theorem drawnBy_append (i : Nat) (drawn more : List (Nat × Issue)) :
    drawnBy i (drawn ++ more) = drawnBy i drawn ++ drawnBy i more := by
  rw [drawnBy, List.filter_append, List.map_append]
  rfl

/-- The answer of a call, and what it is still to answer, is what was issued to
it, and nothing was issued to a call that is still to draw. -/
def EventPc.Vouched (own : List Issue) : EventPc → Prop
  | .emitList event | .emitEnqueue event _ _ _ | .emitSend event _
  | .returned (.ok (.emitted event)) => own = [.emitted event]
  | .createSubscription sub _ => own = [.subscribed sub]
  | .returned (.ok (.registered id _ seqNum)) =>
      ∃ sub, own = [.subscribed sub] ∧ sub.registrationId = id ∧
        sub.initialSeqNum = seqNum
  | .emit _ | .subscribe _ => own = []
  | _ => True

namespace EventPc

variable {config : EventConfig} {task : Nat} {h h' : EventHost}
  {pc pc' : EventPc} {events : List EventLog} {own : List Issue}

theorem vouched_enqueueNext {failures : List String}
    (hevent : own = [.emitted event]) (todo : List SubscriptionRecord) :
    (enqueueNext event failures todo).Vouched own := by
  induction todo with
  | nil => exact hevent
  | cons sub todo ih =>
      unfold enqueueNext
      split
      · exact hevent
      · exact ih

theorem vouched_afterEnqueue
    (hevent : own = [.emitted event]) (sub : SubscriptionRecord)
    (todo : List SubscriptionRecord) (failures : List String)
    (result : Except Error Nat) :
    (afterEnqueue event sub todo failures result).Vouched own := by
  unfold afterEnqueue
  split <;> exact vouched_enqueueNext hevent todo

theorem Vouched.request {op : EventOp} {next : op.Result → EventPc}
    (hpc : pc.Vouched own) (hrequest : pc.request = some ⟨op, next⟩)
    (result : op.Result) : (next result).Vouched own := by
  cases pc with
  | createSubscription sub granted =>
      cases hrequest
      cases result with
      | error e => trivial
      | ok u => exact ⟨sub, hpc, rfl, rfl⟩
  | emitList event =>
      cases hrequest
      cases result with
      | error e => trivial
      | ok subs => exact vouched_enqueueNext hpc subs
  | emitEnqueue event sub todo failures =>
      cases hrequest
      exact vouched_afterEnqueue hpc sub todo failures result
  | receive id | cancelSubscription id =>
      cases hrequest
      rcases result with e | _ | sub <;> trivial
  | receivePeek stream | durablePeek stream =>
      cases hrequest
      rcases result with e | _ | ⟨event, batch⟩ <;> trivial
  | durableAck stream event batch =>
      cases hrequest
      cases result with
      | error e => trivial
      | ok u => cases batch <;> trivial
  | cancelRemove sub =>
      cases hrequest
      cases result <;> trivial
  | renewSubscription id ttlSecs =>
      cases hrequest
      rcases result with e | _ | sub <;> trivial
  | unsubscribeByLease leaseId =>
      cases hrequest
      cases result <;> trivial
  | _ => cases hrequest

/-- The place a call has come to was issued nothing new. -/
def Plain (pc pc' : EventPc) : Prop :=
  pc'.issued = [] ∧ ∀ own, pc.Vouched own → pc'.Vouched own

theorem quiet_of_move (hmove : EventMove config task h pc h' pc' events)
    (hemit : ∀ req, pc ≠ .emit req) (hsubscribe : ∀ req, pc ≠ .subscribe req) :
    h'.seqCounters = h.seqCounters ∧ pc.Plain pc' := by
  cases hmove with
  | @emitSend event failures =>
      refine ⟨rfl, rfl, fun own hpc => ?_⟩
      unfold emitAnswer
      split
      · exact hpc
      · trivial
  | opened =>
      refine ⟨rfl, ?_⟩
      unfold opening
      split <;> exact ⟨rfl, fun _ _ => trivial⟩
  | @bestEffort stream received position | @wakeup stream received position =>
      refine ⟨rfl, ?_⟩
      cases received with
      | message e =>
          simp only [afterBroadcast, afterWakeup]
          split <;> exact ⟨rfl, fun _ _ => trivial⟩
      | lagged n => exact ⟨rfl, fun _ _ => trivial⟩
  | sent hsending =>
      refine ⟨rfl, ?_⟩
      cases pc <;> cases hsending <;> exact ⟨rfl, fun _ _ => trivial⟩
  | reserved | hangup | leaseCalled | lease =>
      exact ⟨rfl, rfl, fun _ _ => trivial⟩
  | drawEvent => exact absurd rfl (hemit _)
  | drawSubscription | refused => exact absurd rfl (hsubscribe _)
  | @leaseAnswered lpc landlord result =>
      refine ⟨rfl, rfl, fun _ _ => ?_⟩
      rcases result with e | _ | record <;> trivial

/-- What a move of the manager does to the counters: a call that has drawn
nothing draws an event or takes the baseline of a subscription, or they are left
alone. -/
theorem issued_of_advance {choice : EventChoice}
    (hmove : pc.advance config task h choice = some (h', pc', events)) :
    (∃ event, pc' = .emitList event ∧ (∀ own, pc.Vouched own → own = []) ∧
        event.seqNum = h.seqCounters.getD event.seqKey 0 + 1 ∧
        h'.seqCounters = drawNumber h.seqCounters event.seqKey) ∨
      (∃ sub granted, pc' = .createSubscription sub granted ∧
        (∀ own, pc.Vouched own → own = []) ∧ sub.initialSeqNum =
          initialSeqNum h.seqCounters sub.source sub.delivery ∧
        h'.seqCounters = h.seqCounters) ∨
      (h'.seqCounters = h.seqCounters ∧ pc.Plain pc') := by
  cases pc with
  | emit req =>
      cases choice with
      | uuid id =>
          simp only [advance] at hmove
          split at hmove
          · cases hmove
          · cases hmove
            exact .inl ⟨_, rfl, fun _ h => h, rfl, rfl⟩
      | _ => cases hmove
  | subscribe req =>
      cases choice with
      | uuids id leaseId =>
          simp only [advance] at hmove
          split at hmove
          · cases hmove
          · simp only [drawSubscription, Option.some.injEq] at hmove
            split at hmove
            · cases hmove
              exact .inr (.inr ⟨rfl, rfl, fun _ _ => trivial⟩)
            · cases hmove
              exact .inr (.inl ⟨_, _, rfl, fun _ h => h, rfl, rfl⟩)
      | _ => cases hmove
  | _ =>
      exact .inr (.inr (quiet_of_move (EventMove.of_advance hmove)
        (by simp) (by simp)))

end EventPc

/-- What was drawn accounts for the state of the process. -/
structure Recorded (drawn : List (Nat × Issue)) (s : LocalEventProc) : Prop where
  consistent : Consistent (drawn.map Prod.snd)
  counters : s.shared.host.seqCounters = tally (keysOf (drawn.map Prod.snd))
  started : ∀ d ∈ drawn, d.1 < s.tasks.length
  vouched : ∀ (i : Nat) (pc : EventPc), s.tasks[i]? = some pc →
    pc.Vouched (drawnBy i drawn)

namespace Recorded

variable {config : EventConfig} {drawn : List (Nat × Issue)}
  {s s' : LocalEventProc}

theorem new : Recorded [] LocalEventProc.new where
  consistent := .nil
  counters := rfl
  started := by simp
  vouched := by simp [LocalEventProc.new]

theorem quiet {tasks : List EventPc} (h : Recorded drawn s)
    (hcounters : shared.host.seqCounters = s.shared.host.seqCounters)
    (hlength : s.tasks.length ≤ tasks.length)
    (htasks : ∀ (i : Nat) (pc : EventPc), tasks[i]? = some pc →
      pc.Vouched (drawnBy i drawn)) :
    Recorded (drawn ++ []) ⟨shared, tasks, log⟩ := by
  rw [List.append_nil]
  exact ⟨h.consistent, hcounters.trans h.counters,
    fun d hd => (h.started d hd).trans_le hlength, htasks⟩

theorem set (h : Recorded drawn s)
    (hcounters : shared.host.seqCounters = s.shared.host.seqCounters)
    (hpc : pc.Vouched (drawnBy i drawn)) :
    Recorded (drawn ++ []) ⟨shared, s.tasks.set i pc, log⟩ := by
  refine h.quiet hcounters (by simp) fun j pc' hj => ?_
  rcases getElem?_set_cases hj with ⟨rfl, rfl⟩ | ⟨-, hj⟩
  · exact hpc
  · exact h.vouched j pc' hj

theorem append
    {pcs : List EventPc} (h : Recorded drawn s)
    (hcounters : shared.host.seqCounters = s.shared.host.seqCounters)
    (hpcs : ∀ pc ∈ pcs, pc.Vouched []) :
    Recorded (drawn ++ []) ⟨shared, s.tasks ++ pcs, log⟩ := by
  refine h.quiet hcounters (by simp) fun j pc hj => ?_
  by_cases hlt : j < s.tasks.length
  · exact h.vouched j pc (List.getElem?_append_left hlt ▸ hj)
  · have hnone : drawnBy j drawn = [] := by
      rw [drawnBy, List.map_eq_nil_iff, List.filter_eq_nil_iff]
      intro d hd heq
      exact hlt (of_decide_eq_true heq ▸ h.started d hd)
    rw [List.getElem?_append_right (Nat.le_of_not_lt hlt)] at hj
    exact hnone ▸ hpcs pc (List.mem_of_getElem? hj)

theorem issue {x : Issue} (h : Recorded drawn s) (hlt : i < s.tasks.length)
    (hown : drawnBy i drawn = []) (hx : x.Follows (drawn.map Prod.snd))
    (hpc : pc.Vouched [x]) (hcounters : shared.host.seqCounters =
      tally (keysOf (drawn.map Prod.snd ++ [x]))) :
    Recorded (drawn ++ [(i, x)]) ⟨shared, s.tasks.set i pc, log⟩ where
  consistent := by
    rw [List.map_append]
    exact h.consistent.concat hx
  counters := by
    rw [List.map_append]
    exact hcounters
  started := by
    rw [List.length_set]
    simpa [or_imp, forall_and, hlt] using h.started
  vouched := by
    intro j pc' hj
    rw [drawnBy_append]
    rcases getElem?_set_cases hj with ⟨rfl, rfl⟩ | ⟨hij, hj⟩
    · rw [hown]
      simpa [drawnBy] using hpc
    · simpa [drawnBy, hij] using h.vouched j pc' hj

theorem manager {pc' : EventPc} {choice : EventChoice}
    {host : EventHost} {events : List EventLog} (h : Recorded drawn s)
    (hi : s.tasks[i]? = some pc)
    (hadv : pc.advance config i s.shared.host choice =
      some (host, pc', events)) :
    Recorded (drawn ++ pc'.issued.map (i, ·))
      ⟨{ s.shared with host := host }, s.tasks.set i pc', s.log ++ events⟩ := by
  have hlt : i < s.tasks.length := (List.getElem?_eq_some_iff.mp hi).1
  have hpc := h.vouched i pc hi
  rcases EventPc.issued_of_advance hadv with
    ⟨event, rfl, hown, hnum, hdraw⟩ | ⟨sub, granted, rfl, hown, hbase, hsame⟩ |
      ⟨hsame, hissued, hvouched⟩
  · have hcount : event.seqNum =
        (keysOf (drawn.map Prod.snd)).count event.seqKey + 1 := by
      rw [hnum, h.counters, getD_tally]
    refine h.issue hlt (hown _ hpc) hcount rfl ?_
    rw [keysOf_append]
    exact (hdraw.trans (congrArg (drawNumber · _) h.counters)).trans
      (tally_concat _ _).symm
  · refine h.issue hlt (hown _ hpc) (x := .subscribed sub) ?_ rfl ?_
    · rw [h.counters] at hbase
      exact hbase
    · rw [keysOf_append]
      exact (hsame.trans h.counters).trans (congrArg tally (List.append_nil _).symm)
  · rw [hissued]
    exact h.set hsame (hvouched _ hpc)

theorem ambient {event : EventAmbient} {host : EventHost}
    {spawned : List EventPc} (h : Recorded drawn s)
    (hamb : s.shared.host.ambient config event = some (host, spawned)) :
    Recorded (drawn ++ [])
      ⟨{ s.shared with host := host }, s.tasks ++ spawned, s.log⟩ := by
  have hquiet : host.seqCounters = s.shared.host.seqCounters ∧
      ∀ pc ∈ spawned, pc.Vouched [] := by
    cases event with
    | tick d =>
        cases hamb
        exact ⟨rfl, by simp⟩
    | cascade =>
        simp only [EventHost.ambient] at hamb
        split at hamb
        · cases hamb
        · cases hamb
          exact ⟨rfl, by simp⟩
        · cases hamb
          exact ⟨rfl, by simp [EventPc.Vouched]⟩
    | pull c =>
        simp only [EventHost.ambient] at hamb
        split at hamb
        · cases hamb
        · obtain ⟨queue, -, heq⟩ := Option.map_eq_some_iff.mp hamb
          cases heq
          exact ⟨rfl, by simp⟩
    | disconnect c =>
        simp only [EventHost.ambient] at hamb
        split at hamb
        · cases hamb
        · cases hamb
          exact ⟨rfl, by simp⟩
  exact h.append hquiet.1 hquiet.2

theorem step {act : LocalEventAct} (h : Recorded drawn s)
    (hstep : (localEventProgram config).step s act = some s') :
    Recorded (drawn ++ issuedIn s act s') s' := by
  cases act with
  | call pc =>
      obtain ⟨hentry, rfl⟩ := Program.step_call.mp hstep
      refine h.append rfl fun pc' hpc' => ?_
      obtain rfl := List.mem_singleton.mp hpc'
      cases pc' <;> trivial
  | ambient event =>
      obtain ⟨shared, spawned, hamb, rfl⟩ := Program.step_ambient.mp hstep
      obtain ⟨⟨host, pcs⟩, hhost, heq⟩ := Option.map_eq_some_iff.mp hamb
      cases heq
      exact h.ambient hhost
  | step i choice =>
      obtain ⟨pc, shared, pc', events, hi, hadv, rfl⟩ := Program.step_step.mp hstep
      have hlt : i < s.tasks.length := (List.getElem?_eq_some_iff.mp hi).1
      cases choice with
      | store it =>
          simp only [localEventProgram, localEventAdvance] at hadv
          split at hadv
          · cases hadv
          · next op next hrequest =>
            cases hadv
            exact h.set rfl ((h.vouched i pc hi).request hrequest _)
      | manager choice =>
          have hissued : issuedIn s (.step i (.manager choice))
              ⟨shared, s.tasks.set i pc', s.log ++ events⟩ =
                pc'.issued.map (i, ·) := by
            simp [issuedIn, hlt]
          rw [hissued]
          simp only [localEventProgram, localEventAdvance] at hadv
          split at hadv
          · cases hadv
          · next host pc₁ events₁ hmove =>
            cases hadv
            exact h.manager hi hmove

theorem of_run {acts : List LocalEventAct}
    (hrun : run (localEventProgram config).step LocalEventProc.new acts =
      some s) : Recorded (draws config acts) s := by
  refine run_invariant (P := fun acts s => Recorded (draws config acts) s) new ?_
    hrun
  intro acts s act s' hrun h hstep
  rw [draws, trace_concat hrun hstep]
  exact h.step hstep

end Recorded

/-! ## Numbers -/

theorem exists_of_eventsOf {pre post : List EventRecord} (h : eventsOf history = pre ++ event :: post) :
    ∃ before after, history = before ++ .emitted event :: after ∧
      eventsOf before = pre := by
  obtain ⟨l₁, l₂, rfl, hl₁, hl₂⟩ := List.filterMap_eq_append_iff.mp h
  obtain ⟨skipped, issue, after, rfl, hskipped, hissue, -⟩ :=
    List.filterMap_eq_cons_iff.mp hl₂
  obtain rfl : issue = .emitted event := by
    cases issue <;> simp_all [Issue.event?]
  refine ⟨l₁ ++ skipped, after, by simp, ?_⟩
  rw [eventsOf, List.filterMap_append, hl₁,
    List.filterMap_eq_nil_iff.mpr hskipped, List.append_nil]

theorem Consistent.numbered (h : Consistent history) :
    Numbered EventRecord.seqKey EventRecord.seqNum (eventsOf history) := by
  intro pre event post heq
  obtain ⟨before, after, rfl, rfl⟩ := exists_of_eventsOf heq
  exact h before (.emitted event) after rfl

/-- The events of one source and one type. -/
def eventsFor (source eventType : String) (history : List Issue) :
    List EventRecord :=
  (eventsOf history).filter fun e => e.source = source ∧ e.eventType = eventType

/-- In every run, the events of one source and type have the numbers
`1, 2, 3, …` in the order in which they were drawn, if no event of another
source or type has their key.  What an `emit` returns is the event that it has
drawn, the only one. -/
theorem numbers_per_source_and_type (config : EventConfig)
    (acts : List LocalEventAct) (s : LocalEventProc)
    (hrun : run (localEventProgram config).step LocalEventProc.new acts = some s)
    (source eventType : String)
    (hkey : ∀ e ∈ eventsOf (issues config acts),
      e.seqKey = seqKey source eventType →
        e.source = source ∧ e.eventType = eventType) :
    (eventsFor source eventType (issues config acts)).map EventRecord.seqNum =
        List.range' 1 (eventsFor source eventType (issues config acts)).length ∧
      ∀ (i : Nat) e, s.tasks[i]? = some (.returned (.ok (.emitted e))) →
        drawnBy i (draws config acts) = [.emitted e] := by
  have hrecorded := Recorded.of_run hrun
  have hfor : eventsFor source eventType (issues config acts) =
      (eventsOf (issues config acts)).filter fun e =>
        e.seqKey = seqKey source eventType := by
    refine List.filter_congr fun e he => decide_eq_decide.mpr ⟨?_, hkey e he⟩
    rintro ⟨rfl, rfl⟩
    rfl
  refine ⟨?_, fun i e hi => hrecorded.vouched i _ hi⟩
  have hconsistent : Consistent (issues config acts) := hrecorded.consistent
  have hnumbers := hconsistent.numbered.map_filter (seqKey source eventType)
  have hlength := congrArg List.length hnumbers
  rw [List.length_map, List.length_range'] at hlength
  rw [hfor, hlength]
  exact hnumbers

def emitAlone (i : Nat) (id source eventType : String) : List LocalEventAct :=
  [.call (.emit {
      source := source
      eventType := eventType
      attrs := ∅
      payload := [] }),
    .step i (.manager (.uuid id)), .step i (.store .sorted),
    .step i (.manager .go)]

def smallEventConfig : EventConfig where
  lease := .default
  capacity := 4
  eventCapacity := 4

/-- Two events of one type, with one of another type between them. -/
def threeEmits : List LocalEventAct :=
  emitAlone 0 "e0" "orders" "placed" ++ emitAlone 1 "e1" "orders" "shipped" ++
    emitAlone 2 "e2" "orders" "placed"

def threeEmitsEnd : LocalEventProc :=
  (run (localEventProgram smallEventConfig).step LocalEventProc.new
    threeEmits).get (by decide +kernel)

theorem numbers_per_source_and_type_three :
    (eventsFor "orders" "placed"
        (issues smallEventConfig threeEmits)).length = 2 ∧
      (eventsFor "orders" "placed"
        (issues smallEventConfig threeEmits)).map EventRecord.seqNum =
        List.range' 1 (eventsFor "orders" "placed"
          (issues smallEventConfig threeEmits)).length :=
  ⟨by decide +kernel, (numbers_per_source_and_type smallEventConfig threeEmits
    threeEmitsEnd (Option.some_get _).symm "orders" "placed"
    (by decide +kernel)).1⟩

/-- Two events with the same key, of different sources and types. -/
def sameKeyEmits : List LocalEventAct :=
  emitAlone 0 "e0" "a::b" "c" ++ emitAlone 1 "e1" "a" "b::c"

/-- The only event of the source `a` is returned with the number `2`. -/
theorem sameKeyEmits_skip_number :
    ∃ s e, run (localEventProgram smallEventConfig).step LocalEventProc.new
        sameKeyEmits = some s ∧
      s.tasks[1]? = some (.returned (.ok (.emitted e))) ∧
      eventsFor "a" "b::c" (issues smallEventConfig sameKeyEmits) = [e] ∧
      e.seqNum = 2 := by
  refine ⟨_, ⟨"e1", "a", "b::c", 2, ∅, [], 0⟩,
    (Option.some_get (by decide +kernel)).symm, ?_, ?_, rfl⟩
  · decide +kernel
  · decide +kernel

/-! ## Baselines -/

theorem foldl_max_le_iff (xs : List Nat) (a n : Nat) :
    xs.foldl max a ≤ n ↔ a ≤ n ∧ ∀ x ∈ xs, x ≤ n := by
  induction xs generalizing a with
  | nil => simp
  | cons x xs ih => simp [ih, and_assoc]

/-- The key is read as one of the source. -/
def KeyOf (source key : String) : Prop :=
  (stripPrefix (source ++ "::") key).isSome = true

instance (source key : String) : Decidable (KeyOf source key) :=
  inferInstanceAs (Decidable (_ = _))

theorem keyOf_seqKey (source eventType : String) :
    KeyOf source (seqKey source eventType) := by
  have h : stripPrefix (source ++ "::") (seqKey source eventType) =
      some eventType := stripPrefix_eq_some_iff.mpr rfl
  rw [KeyOf, h]
  rfl

/-- The baseline of a best-effort subscription bounds the counters of the keys
read as those of its source, and is the least that does. -/
theorem initialSeqNum_le_iff (keys : List String) (source : String) (n : Nat) :
    EventPc.initialSeqNum (tally keys) source .bestEffort ≤ n ↔
      ∀ key, KeyOf source key → keys.count key ≤ n := by
  simp only [EventPc.initialSeqNum, foldl_max_le_iff, Nat.zero_le, true_and,
    List.mem_map, List.mem_filter, Std.ExtTreeMap.mem_toList_iff_getElem?_eq_some,
    Prod.exists, get_tally]
  constructor
  · intro h key hkey
    by_cases hmem : key ∈ keys
    · exact h _ ⟨key, _, ⟨if_pos hmem, hkey⟩, rfl⟩
    · simp [List.count_eq_zero_of_not_mem hmem]
  · rintro h x ⟨key, y, ⟨hget, hkey⟩, rfl⟩
    split at hget
    · exact Option.some.inj hget ▸ h key hkey
    · cases hget

theorem Consistent.left {before after : List Issue}
    (h : Consistent (before ++ after)) : Consistent before := by
  rintro pre issue post rfl
  exact h pre issue (post ++ after) (by simp)

theorem Consistent.seqNum_le {e : EventRecord}
    (h : Consistent history) (he : e ∈ eventsOf history) :
    e.seqNum ≤ (keysOf history).count e.seqKey := by
  obtain ⟨pre, post, hsplit⟩ := List.append_of_mem he
  rw [h.numbered pre e post hsplit, keysOf, hsplit]
  simp

/-- The issue is no event of another source. -/
def Issue.ofSource (source : String) : Issue → Bool
  | .emitted e => e.source == source
  | .subscribed _ => true

/-- Without the events of other sources the counters of a source's keys are the
same, if no other event has such a key. -/
theorem count_keysOf_filter {source key : String}
    (hapart : ∀ e ∈ eventsOf history, KeyOf source e.seqKey →
      e.source = source) (hkey : KeyOf source key) :
    (keysOf (history.filter (Issue.ofSource source))).count key =
      (keysOf history).count key := by
  induction history with
  | nil => rfl
  | cons issue history ih =>
      cases issue with
      | subscribed sub => exact ih hapart
      | emitted e =>
          have hrest := ih fun e' he' => hapart e' (List.mem_cons_of_mem e he')
          by_cases he : e.source = source
          · have hfilter : (Issue.emitted e :: history).filter
                (Issue.ofSource source) =
                .emitted e :: history.filter (Issue.ofSource source) := by
              simp [Issue.ofSource, he]
            rw [hfilter]
            simp only [keysOf, eventsOf, Issue.event?, List.filterMap_cons,
              List.map_cons, List.count_cons] at hrest ⊢
            rw [hrest]
          · have hne : e.seqKey ≠ key := by
              rintro rfl
              exact he (hapart e List.mem_cons_self hkey)
            have hfilter : (Issue.emitted e :: history).filter
                (Issue.ofSource source) =
                history.filter (Issue.ofSource source) := by
              simp [Issue.ofSource, he]
            rw [hfilter, hrest]
            simp [keysOf, eventsOf, Issue.event?, hne]

/-- In every run, the baseline of a best-effort subscription is at least the
number of every event of its source drawn before it.  It is below the number of
an event drawn later exactly when no key read as one of its source had been
drawn for, before the subscription, more often than that event's key was before
the event.  It does not depend on the events of other sources, if none of them
has a key that begins like those of its source.  What a `subscribe` returns is
the baseline that it has taken. -/
theorem baseline_separates (config : EventConfig) (acts : List LocalEventAct)
    (s : LocalEventProc)
    (hrun : run (localEventProgram config).step LocalEventProc.new acts = some s)
    (before after : List Issue) (sub : SubscriptionRecord)
    (hsplit : issues config acts = before ++ .subscribed sub :: after)
    (hmode : sub.delivery = .bestEffort) :
    (∀ e ∈ eventsOf before, e.source = sub.source →
        e.seqNum ≤ sub.initialSeqNum) ∧
      (∀ between e rest, after = between ++ .emitted e :: rest →
        (sub.initialSeqNum < e.seqNum ↔ ∀ key, KeyOf sub.source key →
          (keysOf before).count key ≤
            (keysOf (before ++ between)).count e.seqKey)) ∧
      ((∀ e ∈ eventsOf before, KeyOf sub.source e.seqKey →
          e.source = sub.source) →
        sub.initialSeqNum = EventPc.initialSeqNum
          (tally (keysOf (before.filter (Issue.ofSource sub.source))))
          sub.source .bestEffort) ∧
      ∀ (i : Nat) id granted seqNum,
        s.tasks[i]? = some (.returned (.ok (.registered id granted seqNum))) →
          ∃ sub, drawnBy i (draws config acts) = [.subscribed sub] ∧
            sub.registrationId = id ∧ sub.initialSeqNum = seqNum := by
  have hrecorded := Recorded.of_run hrun
  have hconsistent : Consistent (before ++ .subscribed sub :: after) :=
    hsplit ▸ hrecorded.consistent
  have hbase : sub.initialSeqNum =
      EventPc.initialSeqNum (tally (keysOf before)) sub.source .bestEffort :=
    hmode ▸ hconsistent before (.subscribed sub) after rfl
  refine ⟨?_, ?_, ?_, ?_⟩
  · intro e he hsource
    have hkey : KeyOf sub.source e.seqKey := hsource ▸ keyOf_seqKey _ _
    calc
      e.seqNum ≤ (keysOf before).count e.seqKey := hconsistent.left.seqNum_le he
      _ ≤ sub.initialSeqNum := by
          rw [hbase]
          exact (initialSeqNum_le_iff _ _ _).mp le_rfl _ hkey
  · rintro between e rest rfl
    have hnum : e.seqNum = (keysOf (before ++ between)).count e.seqKey + 1 := by
      rw [keysOf_append, hconsistent (before ++ .subscribed sub :: between)
        (.emitted e) rest (by simp), keysOf_append]
      rfl
    rw [hnum, Nat.lt_succ_iff, hbase, initialSeqNum_le_iff]
  · intro hapart
    refine hbase.trans (le_antisymm ?_ ?_)
    · rw [initialSeqNum_le_iff]
      intro key hkey
      rw [← count_keysOf_filter hapart hkey]
      exact (initialSeqNum_le_iff _ _ _).mp le_rfl key hkey
    · rw [initialSeqNum_le_iff]
      intro key hkey
      rw [count_keysOf_filter hapart hkey]
      exact (initialSeqNum_le_iff _ _ _).mp le_rfl key hkey
  · exact fun i id granted seqNum hi => hrecorded.vouched i _ hi

def subscribeAlone (i : Nat) (id leaseId source : String) :
    List LocalEventAct :=
  [.call (.subscribe {
      source := source
      template := ∅
      delivery := .bestEffort
      ttlSecs := 60
      handback := [] }),
    .step i (.manager (.uuids id leaseId)), .step i (.store .sorted)]

/-- What that `subscribe` takes as its baseline. -/
def aloneSubscription (id leaseId source : String) (baseline : Nat) :
    SubscriptionRecord where
  registrationId := id
  source := source
  template := ∅
  delivery := .bestEffort
  leaseId := leaseId
  handback := []
  initialSeqNum := baseline

/-- A subscription between two events of one type. -/
def subscribeBetween : List LocalEventAct :=
  emitAlone 0 "e0" "orders" "placed" ++ subscribeAlone 1 "r" "l" "orders" ++
    emitAlone 2 "e1" "orders" "placed"

def subscribeBetweenEnd : LocalEventProc :=
  (run (localEventProgram smallEventConfig).step LocalEventProc.new
    subscribeBetween).get (by decide +kernel)

def orderPlaced (id : String) (seqNum : Nat) : EventRecord where
  eventId := id
  source := "orders"
  eventType := "placed"
  seqNum := seqNum
  attrs := ∅
  payload := []
  emittedAt := 0

theorem baseline_separates_two :
    issues smallEventConfig subscribeBetween =
        [.emitted (orderPlaced "e0" 1)] ++
          .subscribed (aloneSubscription "r" "l" "orders" 1) ::
            [.emitted (orderPlaced "e1" 2)] ∧
      (orderPlaced "e0" 1).seqNum ≤ 1 ∧ 1 < (orderPlaced "e1" 2).seqNum := by
  have hsplit : issues smallEventConfig subscribeBetween =
      [.emitted (orderPlaced "e0" 1)] ++
        .subscribed (aloneSubscription "r" "l" "orders" 1) ::
          [.emitted (orderPlaced "e1" 2)] := by decide +kernel
  obtain ⟨hbefore, hafter, -⟩ := baseline_separates smallEventConfig
    subscribeBetween subscribeBetweenEnd (Option.some_get _).symm _ _ _ hsplit rfl
  exact ⟨hsplit, hbefore _ (by decide) rfl,
    (hafter [] _ [] rfl).mpr fun _ _ => List.count_le_length⟩

/-- Two events of one type, a subscription, and the first event of another
type. -/
def twoTypes : List LocalEventAct :=
  emitAlone 0 "e0" "orders" "placed" ++ emitAlone 1 "e1" "orders" "placed" ++
    subscribeAlone 2 "r" "l" "orders" ++ emitAlone 3 "e2" "orders" "shipped"

/-- The event after the subscription has a number below the baseline. -/
theorem twoTypes_below_baseline :
    ∃ s e granted,
      run (localEventProgram smallEventConfig).step LocalEventProc.new
        twoTypes = some s ∧
      issues smallEventConfig twoTypes =
        [.emitted (orderPlaced "e0" 1), .emitted (orderPlaced "e1" 2),
          .subscribed (aloneSubscription "r" "l" "orders" 2), .emitted e] ∧
      s.tasks[2]? = some (.returned (.ok (.registered "r" granted 2))) ∧
      s.tasks[3]? = some (.returned (.ok (.emitted e))) ∧
      e.source = "orders" ∧ e.seqNum = 1 := by
  refine ⟨_, { orderPlaced "e2" 1 with eventType := "shipped" },
    ⟨"l", "event:r", 0, 60 * 10 ^ 9, 60⟩,
    (Option.some_get (by decide +kernel)).symm, ?_, ?_, ?_, rfl, rfl⟩
  · decide +kernel
  · decide +kernel
  · decide +kernel

end Coordin8
