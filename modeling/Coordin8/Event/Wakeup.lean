import Coordin8.Event.Stream

/-!
# No wake-up is missed

A durable stream that finds its mailbox empty parks on the broadcast of events.
Whatever is enqueued from then on is followed by a broadcast, so a parked stream
is owed a wake-up for every entry it has not read: an event of its source that
the broadcast has still to deliver, or an `emit` that has still to broadcast one.
Together with the order in which a stream reads, this is what the stream
promises its client.
-/

namespace Coordin8

open Support Support.DashMap EventPc

/-- The position of a stream in the broadcast of events. -/
def EventPc.position : EventPc → Option Nat
  | .receivePeek st | .bestEffort st | .bestEffortSend st _
  | .durableSend st _ _ | .durableReserve st _ _ | .durableAck st _ _
  | .durablePeek st | .durableWait st => some st.position
  | _ => none

/-- Some task has enqueued for the registration and is still to broadcast an
event of the source. -/
def Announcing (tasks : List EventPc) (log : List EventLog) (reg source : String) :
    Prop :=
  ∃ (j : Nat) (pc : EventPc) (event e : EventRecord) (n : Nat),
    tasks[j]? = some pc ∧ pc.emitting = some event ∧ event.source = source ∧
    .store j (.enqueue reg e) (.ok n) ∈ log

section Emitting

variable {config : EventConfig} {i c : Nat} {h h' : EventHost}
  {pc pc' : EventPc} {events : List EventLog} {event : EventRecord}
  {op : EventOp} {result : op.Result} {next : op.Result → EventPc}

theorem enqueueNext_emitting (failures : List String)
    (todo : List SubscriptionRecord) :
    (enqueueNext event failures todo).emitting = some event := by
  induction todo with
  | nil => rfl
  | cons sub todo ih =>
      unfold enqueueNext
      split
      · rfl
      · exact ih

theorem afterEnqueue_emitting {sub : SubscriptionRecord}
    {todo : List SubscriptionRecord} {failures : List String}
    {result : Except Error Nat} :
    (afterEnqueue event sub todo failures result).emitting = some event := by
  unfold afterEnqueue
  split <;> exact enqueueNext_emitting _ _

theorem channel_of_emitting (hpc : pc.emitting = some event) :
    pc.channel = none := by
  cases pc with
  | emitEnqueue | emitSend => rfl
  | _ => cases hpc

theorem EventResume.emitting (hres : EventResume pc op result pc')
    (hpc : pc.emitting = some event) : pc'.emitting = some event := by
  cases hres with
  | enqueued =>
      cases hpc
      exact afterEnqueue_emitting
  | ended hnone =>
      rw [hnone] at hpc
      cases hpc
  | streamFailed hchannel =>
      rw [channel_of_emitting hpc] at hchannel
      cases hchannel
  | _ => cases hpc

theorem EventMove.emitting (hmove : EventMove config i h pc h' pc' events)
    (hpc : pc.emitting = some event) : h'.eventTx = h.eventTx ++ [event] := by
  cases hmove with
  | emitSend =>
      cases hpc
      rfl
  | @sent pc next d item ch hsending hch hroom =>
      cases pc with
      | bestEffortSend | durableSend | sendError => cases hpc
      | _ => cases hsending
  | @hangup pc d hd =>
      cases pc with
      | emitEnqueue | emitSend => cases hd
      | _ => cases hpc
  | _ => cases hpc

theorem EventMove.position_le (hmove : EventMove config i h pc h' pc' events)
    (hpos : ∀ c, pc.position = some c → c ≤ h.eventTx.length)
    (hc : pc'.position = some c) : c ≤ h'.eventTx.length := by
  have hlength := hmove.grows.eventTx.length_le
  cases hmove with
  | emitSend | refused | hangup | leaseAnswered => cases hc
  | opened =>
      unfold opening at hc
      split at hc <;> (cases hc; exact Nat.le_refl _)
  | @bestEffort st received position hrecv =>
      have hle := (recv_bounds hrecv).2
      unfold afterBroadcast at hc
      split at hc
      · split at hc <;> (cases hc; exact hle)
      · cases hc
  | @wakeup st received position hrecv =>
      have hle := (recv_bounds hrecv).2
      unfold afterWakeup at hc
      split at hc
      · split at hc <;> (cases hc; exact hle)
      · cases hc
        exact hle
  | @sent pc next d item ch hsending hch hroom =>
      cases pc with
      | bestEffortSend | durableSend =>
          cases hsending
          exact Nat.le_trans (hpos c hc) hlength
      | sendError =>
          cases hsending
          cases hc
      | _ => cases hsending
  | reserved => exact Nat.le_trans (hpos c hc) hlength
  | drawEvent | drawSubscription | leaseCalled | lease => cases hc

theorem position_of_emitting (hpc : pc.emitting = some event) :
    pc.position = none := by
  cases pc with
  | emitEnqueue | emitSend => rfl
  | _ => cases hpc

theorem EventResume.position (hres : EventResume pc op result pc')
    (hc : pc'.position = some c) : pc.position = some c := by
  have hemit : ∀ {pc' : EventPc} {event : EventRecord},
      pc'.emitting = some event → pc'.position ≠ some c := by
    intro pc' event hpc' hc'
    rw [position_of_emitting hpc'] at hc'
    cases hc'
  cases hres with
  | @listed event subs => exact absurd hc (hemit (enqueueNext_emitting [] subs))
  | enqueued => exact absurd hc (hemit afterEnqueue_emitting)
  | @backlog stream batch | @read stream batch | @acked stream event batch =>
      cases batch <;> exact hc
  | ended | streamFailed | found | cancelling | removed | renewing => cases hc

end Emitting

/-- A parked stream will hear of every entry it has not read. -/
structure EventAlert (s : LocalEventProc) : Prop where
  positions : ∀ pc ∈ s.tasks, ∀ c, pc.position = some c →
    c ≤ s.shared.host.eventTx.length
  owed : ∀ st, .durableWait st ∈ s.tasks → ∀ (box : Mailbox) (n : Nat) e,
    s.shared.store.mailboxes[st.sub.registrationId]? = some box →
    box.entries[n]? = some e → st.cursor < n →
    (∃ m ∈ s.shared.host.eventTx.drop st.position, m.source = st.sub.source) ∨
      Announcing s.tasks s.log st.sub.registrationId st.sub.source

variable {reg source : String}

section Alert

variable {config : EventConfig} {s s' : LocalEventProc} {i : Nat}
  {pc pc' : EventPc} {host : EventHost} {store : InMemoryEventStore}
  {events : List EventLog} {it : SubscriptionIteration} {op : EventOp}
  {result : op.Result} {next : op.Result → EventPc}

theorem Announcing.mono {tasks new : List EventPc} {log more : List EventLog} (h : Announcing tasks log reg source) :
    Announcing (tasks ++ new) (log ++ more) reg source := by
  obtain ⟨j, pcj, event, e, n, hj, hemit, hsource, hmem⟩ := h
  have hlt : j < tasks.length := (List.getElem?_eq_some_iff.mp hj).1
  exact ⟨j, pcj, event, e, n, (List.getElem?_append_left hlt).trans hj, hemit,
    hsource, List.mem_append_left _ hmem⟩

/-- A task that announces goes on announcing when another one moves, and when
its own move is not the broadcast. -/
theorem Announcing.set {tasks : List EventPc} {log more : List EventLog} (h : Announcing tasks log reg source)
    (hi : tasks[i]? = some pc)
    (hkeep : ∀ event, pc.emitting = some event → event.source = source →
      pc'.emitting = some event) :
    Announcing (tasks.set i pc') (log ++ more) reg source := by
  obtain ⟨j, pcj, event, e, n, hj, hemit, hsource, hmem⟩ := h
  have hlt : i < tasks.length := (List.getElem?_eq_some_iff.mp hi).1
  by_cases heq : i = j
  · subst heq
    obtain rfl := Option.some.inj (hi.symm.trans hj)
    exact ⟨i, pc', event, e, n, List.getElem?_set_self hlt,
      hkeep event hemit hsource, hsource, List.mem_append_left _ hmem⟩
  · exact ⟨j, pcj, event, e, n, (List.getElem?_set_ne heq).trans hj, hemit,
      hsource, List.mem_append_left _ hmem⟩

theorem SubscriptionRecord.source_eq_of_wants {sub : SubscriptionRecord}
    {event : EventRecord} (h : sub.Wants event = true) :
    event.source = sub.source := by
  simp only [Wants, Bool.and_eq_true, beq_iff_eq] at h
  exact h.1.symm

theorem entry_cases {box : Mailbox} {n : Nat} {e : EventRecord}
    (hposted : Posted s.shared.store s.log)
    (hposted' : Posted store (s.log ++ [.store i op result]))
    (hlawful : op.Lawful s.log)
    (hexec : s.shared.store.exec it op = (result, store))
    (hbox : store.mailboxes[reg]? = some box) (hn : box.entries[n]? = some e) :
    (∃ box', s.shared.store.mailboxes[reg]? = some box' ∧
      box'.entries[n]? = some e) ∨
    ∃ event, (⟨op, result⟩ : (op : EventOp) × op.Result) =
      ⟨.enqueue reg event, .ok n⟩ := by
  obtain ⟨event, henq, rfl⟩ := hposted'.entry hbox hn
  rcases enqueued_append_store.mp henq with henq | heq
  · left
    cases hold : s.shared.store.mailboxes[reg]? with
    | none =>
        obtain ⟨sub, hsub, rfl⟩ := hposted.enqueued_created henq
        have hnone := goneStays_exec hlawful hexec sub hsub hold
        exact absurd (hnone.symm.trans hbox) nofun
    | some box' =>
        refine ⟨box', rfl, ?_⟩
        rcases hposted.kept henq hold with hkept | ⟨j, hacked⟩
        · exact hkept
        · have hgone := hposted'.acked_gone hacked.append hbox
          exact absurd (hgone.symm.trans hn) nofun
  · exact Or.inr ⟨event, heq⟩

/-- How a call of the store ends at the wait: it read the mailbox and found
nothing more. -/
theorem EventResume.durableWait {st : EventStream}
    (hres : EventResume pc op result (.durableWait st)) :
    ∃ c ≤ st.cursor, (⟨op, result⟩ : (op : EventOp) × op.Result) =
      ⟨.peek st.sub.registrationId c mailboxBatch, .ok []⟩ := by
  generalize hst : EventPc.durableWait st = pc' at hres
  have hemit : ∀ {pc' : EventPc} {event : EventRecord},
      pc'.emitting = some event → EventPc.durableWait st ≠ pc' := by
    rintro pc' event hpc' rfl
    cases hpc'
  cases hres with
  | @backlog stream batch =>
      cases batch with
      | nil =>
          cases hst
          exact ⟨0, Nat.zero_le _, rfl⟩
      | cons event batch => cases hst
  | @read stream batch =>
      cases batch with
      | nil =>
          cases hst
          exact ⟨st.cursor, Nat.le_refl _, rfl⟩
      | cons event batch => cases hst
  | @acked stream event batch => cases batch <;> cases hst
  | @listed event subs => exact absurd hst (hemit (enqueueNext_emitting [] subs))
  | enqueued => exact absurd hst (hemit afterEnqueue_emitting)
  | ended | streamFailed | found | cancelling | removed | renewing => cases hst

theorem emitEnqueue_of_request {event : EventRecord}
    (hreq : pc.request = some ⟨op, next⟩) (hop : op = .enqueue reg event) :
    ∃ sub todo failures, pc = .emitEnqueue event sub todo failures ∧
      sub.registrationId = reg := by
  cases pc with
  | emitEnqueue event' sub todo failures =>
      cases hreq
      obtain ⟨hreg, rfl⟩ := EventOp.enqueue.inj hop
      exact ⟨sub, todo, failures, rfl, hreg⟩
  | createSubscription | emitList | receive | receivePeek | durableAck
  | durablePeek | cancelSubscription | cancelRemove | renewSubscription
  | unsubscribeByLease =>
      cases hreq
      cases hop
  | _ => cases hreq

theorem EventAlert.exec (hreach : LocalEventReachable config s)
    (halert : EventAlert s) (hi : s.tasks[i]? = some pc)
    (hreq : pc.request = some ⟨op, next⟩)
    (hexec : s.shared.store.exec it op = (result, store)) :
    EventAlert ⟨{ s.shared with store := store }, s.tasks.set i (next result),
      s.log ++ [.store i op result]⟩ := by
  have htally := hreach.tally
  have hdebt := hreach.debt hi
  have hlt : i < s.tasks.length := (List.getElem?_eq_some_iff.mp hi).1
  have hlawful := hdebt.lawful htally hreq
  have hposted' := (htally.exec hdebt hlt hreq hexec).posted
  constructor
  · intro pc' hpc' c hc
    rcases List.mem_or_eq_of_mem_set hpc' with hold | rfl
    · exact halert.positions pc' hold c hc
    · exact halert.positions pc (List.mem_of_getElem? hi) c
        ((EventResume.of_request hreq result).position hc)
  · intro st hwait box n e hbox hn hcursor
    rcases List.mem_or_eq_of_mem_set hwait with hold | hnew
    · rcases entry_cases htally.posted hposted' hlawful hexec hbox hn with
        ⟨box', hbox', hn'⟩ | ⟨event, heq⟩
      · refine (halert.owed st hold box' n e hbox' hn' hcursor).imp_right ?_
        intro hann
        exact hann.set hi fun event hevent _ =>
          (EventResume.of_request hreq result).emitting hevent
      · -- The entry has just been enqueued, its event is still to be broadcast.
        right
        obtain ⟨sub, todo, failures, rfl, hsub⟩ :=
          emitEnqueue_of_request hreq (congrArg Sigma.fst heq)
        cases hreq
        obtain ⟨j, hj⟩ := List.mem_iff_getElem?.mp hold
        have hst : Streaming s.shared.host s.log j st := hreach.debt hj
        obtain ⟨-, hcreated, hwants⟩ := hdebt
        obtain rfl := htally.posted.created_unique
          (hcreated sub List.mem_cons_self) hst.created hsub
        cases heq
        exact ⟨i, _, event, event, n, List.getElem?_set_self hlt,
          afterEnqueue_emitting, SubscriptionRecord.source_eq_of_wants hwants,
          List.mem_append_right _ (List.mem_singleton.mpr rfl)⟩
    · have hres := EventResume.of_request hreq result
      rw [← hnew] at hres
      obtain ⟨c, hle, heq⟩ := hres.durableWait
      cases heq
      obtain ⟨hpeek, rfl⟩ := Prod.mk.inj hexec
      have hnc := htally.posted.le_of_peek_eq_nil (Except.ok.inj hpeek) hbox hn
      omega

/-- How another move ends at the wait: the broadcast delivered an event of
another source. -/
theorem EventMove.durableWait {h h' : EventHost} {st : EventStream}
    (hmove : EventMove config i h pc h' (.durableWait st) events) :
    ∃ position m, pc = .durableWait { st with position := position } ∧
      h.eventTx[position]? = some m ∧ st.position = position + 1 ∧
      m.source ≠ st.sub.source ∧ h'.eventTx = h.eventTx := by
  generalize hst : EventPc.durableWait st = pc' at hmove
  cases hmove with
  | opened =>
      unfold opening at hst
      split at hst <;> cases hst
  | bestEffort =>
      unfold afterBroadcast at hst
      split at hst
      · split at hst <;> cases hst
      · cases hst
  | @wakeup st₀ received position hrecv =>
      unfold afterWakeup at hst
      split at hst
      · next m =>
        split at hst
        · cases hst
        · next hsource =>
          cases hst
          obtain ⟨hget, rfl⟩ := recv_eq_message hrecv
          exact ⟨st₀.position, m, rfl, hget, rfl, hsource, rfl⟩
      · cases hst
  | @sent pc next c item ch hsending hch hroom =>
      cases pc with
      | bestEffortSend | durableSend | sendError =>
          cases hsending
          cases hst
      | _ => cases hsending
  | emitSend | reserved | hangup | drawEvent | drawSubscription | refused
  | leaseCalled | leaseAnswered | lease => cases hst

theorem owed_move {position : Nat} (hi : s.tasks[i]? = some pc)
    (hmove : EventMove config i s.shared.host pc host pc' events)
    (hle : position ≤ s.shared.host.eventTx.length)
    (howed : (∃ m ∈ s.shared.host.eventTx.drop position, m.source = source) ∨
      Announcing s.tasks s.log reg source) :
    (∃ m ∈ host.eventTx.drop position, m.source = source) ∨
      Announcing (s.tasks.set i pc') (s.log ++ events) reg source := by
  obtain ⟨more, hmore⟩ := hmove.grows.eventTx
  rcases howed with ⟨m, hm, hsource⟩ | hann
  · left
    rw [← hmore]
    exact ⟨m, mem_drop_append hle (Or.inl hm), hsource⟩
  · cases hemit : pc.emitting with
    | none =>
        refine Or.inr (hann.set hi fun event hevent _ => ?_)
        rw [hemit] at hevent
        cases hevent
    | some event =>
        by_cases hsource : event.source = source
        · left
          rw [hmove.emitting hemit]
          exact ⟨event, mem_drop_append hle
            (Or.inr (List.mem_singleton.mpr rfl)), hsource⟩
        · refine Or.inr (hann.set hi fun event' hevent' hsource' => ?_)
          obtain rfl := Option.some.inj (hemit.symm.trans hevent')
          exact absurd hsource' hsource

theorem EventAlert.move (halert : EventAlert s) (hi : s.tasks[i]? = some pc)
    (hmove : EventMove config i s.shared.host pc host pc' events) :
    EventAlert ⟨{ s.shared with host := host }, s.tasks.set i pc',
      s.log ++ events⟩ := by
  have hmem : pc ∈ s.tasks := List.mem_of_getElem? hi
  have hlength := hmove.grows.eventTx.length_le
  constructor
  · intro pc'' hpc'' c hc
    rcases List.mem_or_eq_of_mem_set hpc'' with hold | rfl
    · exact Nat.le_trans (halert.positions pc'' hold c hc) hlength
    · exact hmove.position_le (halert.positions pc hmem) hc
  · intro st hwait box n e hbox hn hcursor
    rcases List.mem_or_eq_of_mem_set hwait with hold | rfl
    · have hle := halert.positions _ hold st.position rfl
      exact owed_move hi hmove hle (halert.owed st hold box n e hbox hn hcursor)
    · obtain ⟨position, m, rfl, hget, hposition, hother, htx⟩ :=
        hmove.durableWait
      have hle := halert.positions _ hmem position rfl
      have howed := owed_move hi hmove hle
        (halert.owed _ hmem box n e hbox hn hcursor)
      -- The event just received is of another source.
      refine howed.imp_left ?_
      rintro ⟨m', hm', hsource⟩
      rw [htx] at hm'
      rcases mem_drop_cases hget hm' with rfl | hm'
      · exact absurd hsource hother
      · refine ⟨m', ?_, hsource⟩
        dsimp only
        rw [htx, hposition]
        exact hm'

theorem EventAlert.step {act : LocalEventAct}
    (hreach : LocalEventReachable config s) (halert : EventAlert s)
    (hstep : (localEventProgram config).step s act = some s') :
    EventAlert s' := by
  -- A new task has no stream yet.
  have hspawn : ∀ {h' : LocalEventHost} {new : List EventPc},
      h'.store = s.shared.store → h'.host.eventTx = s.shared.host.eventTx →
      (∀ pc ∈ new, pc.position = none) →
      EventAlert ⟨h', s.tasks ++ new, s.log⟩ := by
    intro h' new hstore htx hnew
    constructor
    · intro pc hpc c hc
      dsimp only
      rw [htx]
      rcases List.mem_append.mp hpc with hpc | hpc
      · exact halert.positions pc hpc c hc
      · rw [hnew pc hpc] at hc
        cases hc
    · intro st hwait box n e hbox hn hcursor
      dsimp only at hbox ⊢
      rw [hstore] at hbox
      rw [htx]
      rcases List.mem_append.mp hwait with hold | hwait
      · refine (halert.owed st hold box n e hbox hn hcursor).imp_right ?_
        intro hann
        have hann' : Announcing (s.tasks ++ new) (s.log ++ [])
          st.sub.registrationId st.sub.source := hann.mono
        rwa [List.append_nil] at hann'
      · exact absurd (hnew _ hwait) nofun
  cases act with
  | call pc =>
      obtain ⟨hentry, rfl⟩ := Program.step_call.mp hstep
      refine hspawn rfl rfl fun pc' hpc' => ?_
      obtain rfl := List.mem_singleton.mp hpc'
      cases pc' with
      | subscribe | emit | receive | cancelSubscription | renewSubscription
      | unsubscribeByLease | lease => rfl
      | _ => cases hentry
  | ambient event =>
      obtain ⟨h', spawned, hamb, rfl⟩ := Program.step_ambient.mp hstep
      obtain ⟨⟨host, spawned'⟩, hhost, heq⟩ := Option.map_eq_some_iff.mp hamb
      cases heq
      obtain ⟨-, -, htx, hspawned⟩ := EventHost.ambient_cases hhost
      refine hspawn rfl htx fun pc hpc => ?_
      obtain ⟨leaseId, rfl⟩ := hspawned pc hpc
      rfl
  | step i choice =>
      obtain ⟨pc, h', pc', events, hi, hadv, rfl⟩ := Program.step_step.mp hstep
      rcases localEventAdvance_cases hadv with
        ⟨it, op, next, result, store, hreq, hexec, rfl, rfl, rfl⟩ |
        ⟨host, hmove, rfl⟩
      · exact halert.exec hreach hi hreq hexec
      · exact halert.move hi hmove

theorem LocalEventReachable.alert (hreach : LocalEventReachable config s) :
    EventAlert s := by
  refine Reachable.invariant (P := EventAlert) ?_ ?_ hreach
  · exact ⟨by simp [LocalEventProc.new], by simp [LocalEventProc.new]⟩
  · intro s act s' (hreach : LocalEventReachable config s) halert hstep
    exact halert.step hreach hstep

end Alert

/-! ## The promise of a durable stream -/

section Promise

variable {config : EventConfig} {s : LocalEventProc}

/-- What the stream of the task `i` on the channel `c` promises, for the
subscription `sub`. -/
structure DeliversInOrder (s : LocalEventProc) (i c : Nat)
    (sub : SubscriptionRecord) : Prop where
  /-- The numbers sent grow. -/
  increasing : (s.shared.host.sentSeqs c).Pairwise (· < ·)
  /-- What is sent are entries of the mailbox, as they were enqueued. -/
  messages : ∀ m, .ok m ∈ s.shared.host.sentOn c →
    ∃ e, Filed s.log sub.registrationId e ∧ m = eventRecordToProto e sub.handback
  /-- Every entry up to the last number sent, whenever it was enqueued, has been
  sent, or another task has acknowledged it. -/
  gapless : ∀ last event n, (s.shared.host.sentSeqs c).getLast? = some last →
    Enqueued s.log sub.registrationId event n → n ≤ last →
    n ∈ s.shared.host.sentSeqs c ∨
      ∃ j, j ≠ i ∧ AckedBy s.log j sub.registrationId n
  /-- When the stream is parked, no event of its source is to come on the
  broadcast (lost ones included, which are told as a lag), and no `emit` is
  between its enqueue for the registration and its broadcast, then every entry
  of the mailbox has been sent. -/
  woken : ∀ st, s.tasks[i]? = some (.durableWait st) →
    (∀ e ∈ s.shared.host.eventTx.drop st.position, e.source ≠ sub.source) →
    (∀ j pc event, s.tasks[j]? = some pc → pc.emitting = some event →
      ∀ e n, .store j (.enqueue sub.registrationId e) (.ok n) ∉ s.log) →
    ∀ (box : Mailbox) (n : Nat) e,
      s.shared.store.mailboxes[sub.registrationId]? = some box →
      box.entries[n]? = some e → n ∈ s.shared.host.sentSeqs c

/-- A durable stream delivers its mailbox in order, without gaps and without
missed wake-ups, in every interleaving. -/
theorem durable_stream_in_order {i c : Nat} {sub : SubscriptionRecord}
    (hreach : LocalEventReachable config s) (hopened : .opened i c ∈ s.log)
    (hreg : s.shared.host.registrationOf c = some sub.registrationId)
    (hsub : Created s.log sub) (hdurable : sub.delivery = .durable) :
    DeliversInOrder s i c sub := by
  have hposted := hreach.tally.posted
  have hlt : i < s.tasks.length :=
    ((streamKeeps config).holds hreach).1.task_lt hopened
  have hread := fun pc (hi : s.tasks[i]? = some pc) =>
    hreach.reads hi hopened hreg hsub hdurable
  obtain ⟨rest, hreads⟩ := hread _ (List.getElem?_eq_getElem hlt)
  refine ⟨(List.pairwise_append.mp hreads.inOrder.sorted).1, hreads.messages,
    ?_, ?_⟩
  · intro last event n hlast henq hle
    by_cases hacked : ∃ j, j ≠ i ∧ AckedBy s.log j sub.registrationId n
    · exact Or.inr hacked
    · push Not at hacked
      exact Or.inl (hreads.inOrder.mem_of_le hlast ⟨⟨event, henq⟩, hacked⟩ hle)
  · intro st hi hquiet hdone box n e hbox hn
    obtain ⟨rest', ⟨-, rfl, rfl, hcursor⟩, hinOrder, -⟩ := hread _ hi
    rw [List.append_nil] at hinOrder
    by_cases hle : n ≤ st.cursor
    · -- An entry that is there has been acknowledged by nobody.
      obtain ⟨event, henq, -⟩ := hposted.entry hbox hn
      rw [hcursor] at hle
      refine hinOrder.complete n ⟨⟨event, henq⟩, fun j _ hacked => ?_⟩ hle
      exact absurd ((hposted.acked_gone hacked hbox).symm.trans hn) nofun
    · have hwait : EventPc.durableWait st ∈ s.tasks := List.mem_of_getElem? hi
      rcases hreach.alert.owed st hwait box n e hbox hn
          (Nat.lt_of_not_le hle) with ⟨m, hm, hsource⟩ | hann
      · exact absurd hsource (hquiet m hm)
      · obtain ⟨j, pc, event, e', n', hj, hemit, -, hmem⟩ := hann
        exact absurd hmem (hdone j pc event hj hemit e' n')

end Promise

/-- The stream that delivered the shower reads on, and parks. -/
def showerParked : LocalEventProc :=
  (run (localEventProgram newsroom).step LocalEventProc.new
    (showerDelivered ++ [.step 2 (.store .sorted)])).get (by decide)

theorem showerParked_run :
    run (localEventProgram newsroom).step LocalEventProc.new
      (showerDelivered ++ [.step 2 (.store .sorted)]) = some showerParked :=
  rfl

theorem durable_stream_in_order_shower :
    ∃ st, showerParked.tasks[2]? = some (.durableWait st) ∧
      .opened 2 0 ∈ showerParked.log ∧
      showerParked.shared.host.registrationOf 0 = some st.sub.registrationId ∧
      Created showerParked.log st.sub ∧ st.sub.delivery = .durable ∧
      showerParked.shared.host.sentSeqs 0 = [1] ∧
      DeliversInOrder showerParked 2 0 st.sub := by
  have hcreate : showerParked.log[1]? =
      some (.store 0 (.createSubscription _) (.ok ())) := rfl
  have hopen : showerParked.log[5]? = some (.opened 2 0) := rfl
  have hopened := List.mem_of_getElem? hopen
  have hcreated : Created showerParked.log _ :=
    ⟨0, List.mem_of_getElem? hcreate⟩
  exact ⟨_, rfl, hopened, rfl, hcreated, rfl, by decide,
    durable_stream_in_order ⟨_, showerParked_run⟩ hopened rfl hcreated rfl⟩

end Coordin8
