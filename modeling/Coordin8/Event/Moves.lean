import Coordin8.Event.Manager

/-!
# The moves of the event manager

`EventMove` lists what one move of a call can do that is not a call of the
store, and `EventHost.Grows` what every such move and every ambient event
leaves true: nothing that was sent, pulled, broadcast or drawn is forgotten.
These hold whatever the store is.
-/

namespace Coordin8

open Support EventPc

namespace EventPc

/-- The stream that a call runs. -/
def stream? : EventPc → Option EventStream
  | .receivePeek st | .bestEffort st | .bestEffortSend st _
  | .durableSend st _ _ | .durableReserve st _ _ | .durableAck st _ _
  | .durablePeek st | .durableWait st => some st
  | _ => none

/-- The channel of a stream. -/
def channel : EventPc → Option Nat
  | .receivePeek stream | .bestEffort stream | .bestEffortSend stream _
  | .durableSend stream _ _ | .durableReserve stream _ _
  | .durableAck stream _ _ | .durablePeek stream | .durableWait stream =>
      some stream.channel
  | .sendError c _ => some c
  | _ => none

/-- What a stream is about to send, on which channel, and how it goes on. -/
def sending : EventPc → Option (Nat × Except Status EventMessage × EventPc)
  | .bestEffortSend stream event =>
      some (stream.channel,
        .ok (eventRecordToProto event stream.sub.handback), .bestEffort stream)
  | .durableSend stream event batch =>
      some (stream.channel, .ok (eventRecordToProto event stream.sub.handback),
        .durableReserve stream event batch)
  | .sendError c status =>
      some (c, .error status, .returned (.ok .unit))
  | _ => none

/-- The event an `emit` call is still to broadcast, from its first call of the
store on. -/
def emitting : EventPc → Option EventRecord
  | .emitEnqueue event _ _ _ | .emitSend event _ => some event
  | _ => none

/-- The first point of the loop of a stream. -/
def opening (stream : EventStream) : EventPc :=
  if stream.sub.delivery = .durable then .receivePeek stream
  else .bestEffort stream

end EventPc

namespace EventHost

/-- The stream a `Receive` call opens. -/
def stream (h : EventHost) (sub : SubscriptionRecord) : EventStream where
  sub := sub
  channel := h.channels.length
  position := h.eventTx.length
  cursor := 0

/-- A new channel for a registration. -/
def openChannel (h : EventHost) (registrationId : String) : EventHost :=
  { h with channels := h.channels ++ [{
    registrationId := registrationId
    queue := .new }] }

/-- A channel gets a new queue. -/
def setQueue (h : EventHost) (c : Nat) (ch : EventChannel)
    (queue : Mpsc (Except Status EventMessage)) : EventHost :=
  { h with channels := h.channels.set c { ch with queue := queue } }

/-- Everything sent on a channel. -/
def sentOn (h : EventHost) (c : Nat) : List (Except Status EventMessage) :=
  (h.channels[c]?.map fun ch => ch.queue.sent).getD []

/-- What the transport has pulled off a channel. -/
def pulledOn (h : EventHost) (c : Nat) : List (Except Status EventMessage) :=
  (h.channels[c]?.map fun ch => ch.queue.pulled).getD []

/-- The registration whose stream the channel is. -/
def registrationOf (h : EventHost) (c : Nat) : Option String :=
  h.channels[c]?.map EventChannel.registrationId

end EventHost

/-- What one move of the task `i` can do when it is not a call of the store. -/
inductive EventMove (config : EventConfig) (i : Nat) (h : EventHost) :
    EventPc → EventHost → EventPc → List EventLog → Prop where
  | emitSend {event : EventRecord} {failures : List String} :
      EventMove config i h (.emitSend event failures)
        { h with eventTx := h.eventTx ++ [event] }
        (.returned (emitAnswer event failures)) []
  | opened {sub : SubscriptionRecord} :
      EventMove config i h (.receiveSubscribe sub)
        (h.openChannel sub.registrationId) (opening (h.stream sub))
        [.opened i h.channels.length]
  | bestEffort {stream : EventStream} {received : Recv EventRecord}
      {position : Nat}
      (hrecv : recv config.eventCapacity h.eventTx stream.position =
        some (received, position)) :
      EventMove config i h (.bestEffort stream) h
        (afterBroadcast { stream with position := position } received) []
  | wakeup {stream : EventStream} {received : Recv EventRecord}
      {position : Nat}
      (hrecv : recv config.eventCapacity h.eventTx stream.position =
        some (received, position)) :
      EventMove config i h (.durableWait stream) h
        (afterWakeup { stream with position := position } received) []
  | sent {pc next : EventPc} {c : Nat} {item : Except Status EventMessage}
      {ch : EventChannel} (hsending : pc.sending = some (c, item, next))
      (hch : h.channels[c]? = some ch) (hroom : ch.queue.slot 1 = .room) :
      EventMove config i h pc (h.setQueue c ch (ch.queue.send item)) next []
  | reserved {stream : EventStream} {event : EventRecord}
      {batch : List EventRecord} {ch : EventChannel}
      (hch : h.channels[stream.channel]? = some ch)
      (hroom : ch.queue.slot 1 = .room) :
      EventMove config i h (.durableReserve stream event batch) h
        (.durableAck stream event batch) []
  | hangup {pc : EventPc} {c : Nat} (hc : pc.channel = some c) :
      EventMove config i h pc h (.returned (.ok .unit)) []
  | drawEvent {req : EmitRequest} {id : String} {counters : DashMap String Nat}
      {event : EventRecord} :
      EventMove config i h (.emit req)
        { h with
          landlord := { h.landlord with uuids := id :: h.landlord.uuids }
          seqCounters := counters }
        (.emitList event) []
  | drawSubscription {req : SubscribeRequest} {sub : SubscriptionRecord}
      {granted : LeaseRecord} {landlord : Landlord}
      (hid : sub.registrationId ∉ h.landlord.uuids)
      (huuids : sub.registrationId :: h.landlord.uuids ⊆ landlord.uuids) :
      EventMove config i h (.subscribe req) { h with landlord := landlord }
        (.createSubscription sub granted) [.drawn i sub.registrationId]
  | refused {req : SubscribeRequest} {id : String} {e : Error} :
      EventMove config i h (.subscribe req)
        { h with landlord := { h.landlord with
          uuids := id :: h.landlord.uuids } }
        (fail e) []
  | leaseCalled {lpc lpc' : LeasePc} {landlord : Landlord}
      (hmove : LeaseMove config.lease h.landlord lpc landlord lpc') :
      EventMove config i h (.leaseCall lpc) { h with landlord := landlord }
        (.leaseCall lpc') []
  | leaseAnswered {lpc : LeasePc} {landlord : Landlord}
      {result : Except Error (Option LeaseRecord)}
      (hmove : LeaseMove config.lease h.landlord lpc landlord
        (.returned result)) :
      EventMove config i h (.leaseCall lpc) { h with landlord := landlord }
        (.returned (leaseAnswer result)) []
  | lease {lpc lpc' : LeasePc} {landlord : Landlord}
      (hmove : LeaseMove config.lease h.landlord lpc landlord lpc') :
      EventMove config i h (.lease lpc) { h with landlord := landlord }
        (.lease lpc') []

namespace EventMove

variable {config : EventConfig} {i : Nat} {h h' : EventHost} {pc pc' : EventPc}
  {events : List EventLog}

theorem of_sendOn {c : Nat} {item : Except Status EventMessage}
    {next : EventPc} (hsending : pc.sending = some (c, item, next))
    (hc : pc.channel = some c)
    (hmove : sendOn h c item next = some (h', pc', events)) :
    EventMove config i h pc h' pc' events := by
  unfold sendOn at hmove
  split at hmove
  · cases hmove
  · next ch hch =>
    split at hmove
    · next hroom =>
      cases hmove
      exact .sent hsending hch hroom
    · cases hmove
    · cases hmove
      exact .hangup hc

theorem of_go (hmove : pc.go config i h = some (h', pc', events)) :
    EventMove config i h pc h' pc' events := by
  cases pc with
  | emitSend event failures =>
      cases hmove
      exact .emitSend
  | receiveSubscribe sub =>
      cases hmove
      exact .opened
  | bestEffort stream =>
      simp only [go] at hmove
      split at hmove
      · cases hmove
      · next hrecv =>
        cases hmove
        exact .bestEffort hrecv
  | bestEffortSend stream event | durableSend stream event batch =>
      exact of_sendOn rfl rfl hmove
  | durableReserve stream event batch =>
      simp only [go] at hmove
      split at hmove
      · next hslot =>
        cases hmove
        obtain ⟨ch, hch, hroom⟩ := Option.map_eq_some_iff.mp hslot
        exact .reserved hch hroom
      · cases hmove
        exact .hangup rfl
      · cases hmove
  | durableWait stream =>
      simp only [go] at hmove
      split at hmove
      · cases hmove
      · next hrecv =>
        cases hmove
        exact .wakeup hrecv
  | sendError c status => exact of_sendOn rfl rfl hmove
  | _ => cases hmove

theorem of_closed (hmove : pc.closed h = some (h', pc', events)) :
    EventMove config i h pc h' pc' events := by
  cases pc with
  | bestEffort stream | durableWait stream =>
      simp only [EventPc.closed] at hmove
      split at hmove
      · cases hmove
        exact .hangup rfl
      · cases hmove
  | _ => cases hmove

theorem of_drawSubscription {id leaseId : String} {req : SubscribeRequest}
    (hid : id ∉ h.landlord.uuids)
    (hmove : EventPc.drawSubscription config i h id leaseId req =
      (h', pc', events)) :
    EventMove config i h (.subscribe req) h' pc' events := by
  simp only [EventPc.drawSubscription] at hmove
  split at hmove
  · cases hmove
    exact .refused
  · next granted landlord hgrant =>
    cases hmove
    obtain ⟨-, -, rfl⟩ := Landlord.grant_eq_ok hgrant
    exact .drawSubscription hid (List.subset_cons_self _ _)

theorem of_leaseStep {c : LeaseChoice}
    (hmove : pc.leaseStep config h c = some (h', pc', events)) :
    EventMove config i h pc h' pc' events := by
  simp only [EventPc.leaseStep] at hmove
  split at hmove
  · cases hmove
  · next lpc hlpc =>
    split at hmove
    · cases hmove
    · next landlord lpc' hadv =>
      have hlease := LeaseMove.of_advance hadv
      obtain ⟨next, hnext, heq⟩ := Option.map_eq_some_iff.mp hmove
      cases heq
      cases pc with
      | leaseCall pc₀ =>
          cases hlpc
          cases lpc' with
          | returned result =>
              cases hnext
              exact .leaseAnswered hlease
          | _ =>
              cases hnext
              exact .leaseCalled hlease
      | lease pc₀ =>
          cases hlpc
          cases hnext
          exact .lease hlease
      | _ => cases hlpc

theorem of_advance {choice : EventChoice}
    (hmove : pc.advance config i h choice = some (h', pc', events)) :
    EventMove config i h pc h' pc' events := by
  cases choice with
  | go => exact of_go hmove
  | uuid id =>
      cases pc with
      | emit req =>
          simp only [EventPc.advance] at hmove
          split at hmove
          · cases hmove
          · cases hmove
            exact .drawEvent
      | _ => cases hmove
  | uuids id leaseId =>
      cases pc with
      | subscribe req =>
          simp only [EventPc.advance] at hmove
          split at hmove
          · cases hmove
          · next hfresh =>
            push Not at hfresh
            exact of_drawSubscription hfresh.1 (Option.some.inj hmove)
      | _ => cases hmove
  | closed => exact of_closed hmove
  | lease c => exact of_leaseStep hmove

end EventMove

/-! ## Calls of the store -/

/-- Where a call stands after a call of the store that had the given result. -/
inductive EventResume :
    EventPc → (op : EventOp) → op.Result → EventPc → Prop where
  | ended {pc : EventPc} {op : EventOp} {result : op.Result}
      {answer : EventAnswer} (hpc : pc.emitting = none) :
      EventResume pc op result (.returned answer)
  | streamFailed {pc : EventPc} {op : EventOp} {result : op.Result}
      {stream : EventStream} {e : Error}
      (hpc : pc.channel = some stream.channel) :
      EventResume pc op result (streamFail stream e)
  | listed {event : EventRecord} {subs : List SubscriptionRecord} :
      EventResume (.emitList event) .listSubscriptions (.ok subs)
        (enqueueNext event [] subs)
  | enqueued {event : EventRecord} {sub : SubscriptionRecord}
      {todo : List SubscriptionRecord} {failures : List String}
      {result : Except Error Nat} :
      EventResume (.emitEnqueue event sub todo failures)
        (.enqueue sub.registrationId event) result
        (afterEnqueue event sub todo failures result)
  | found {registrationId : String} {sub : SubscriptionRecord} :
      EventResume (.receive registrationId) (.getSubscription registrationId)
        (.ok (some sub)) (.receiveSubscribe sub)
  | backlog {stream : EventStream} {batch : List EventRecord} :
      EventResume (.receivePeek stream)
        (.peek stream.sub.registrationId 0 mailboxBatch) (.ok batch)
        (flush stream batch)
  | read {stream : EventStream} {batch : List EventRecord} :
      EventResume (.durablePeek stream)
        (.peek stream.sub.registrationId stream.cursor mailboxBatch) (.ok batch)
        (flush stream batch)
  | acked {stream : EventStream} {event : EventRecord}
      {batch : List EventRecord} :
      EventResume (.durableAck stream event batch)
        (.ack stream.sub.registrationId [event.seqNum]) (.ok ())
        (advanceCursor stream event.seqNum batch)
  | cancelling {registrationId : String} {sub : SubscriptionRecord} :
      EventResume (.cancelSubscription registrationId)
        (.getSubscription registrationId) (.ok (some sub)) (.cancelRemove sub)
  | removed {sub : SubscriptionRecord} :
      EventResume (.cancelRemove sub) (.removeSubscription sub.registrationId)
        (.ok ()) (.leaseCall (.cancel sub.leaseId))
  | renewing {registrationId : String} {ttlSecs : UInt64}
      {sub : SubscriptionRecord} :
      EventResume (.renewSubscription registrationId ttlSecs)
        (.getSubscription registrationId) (.ok (some sub))
        (.leaseCall (.renew sub.leaseId ttlSecs))

theorem EventResume.of_request {pc : EventPc} {op : EventOp}
    {next : op.Result → EventPc} (hreq : pc.request = some ⟨op, next⟩)
    (result : op.Result) : EventResume pc op result (next result) := by
  cases pc with
  | emitList event =>
      cases hreq
      cases result with
      | error e => exact .ended rfl
      | ok subs => exact .listed
  | emitEnqueue event sub todo failures =>
      cases hreq
      exact .enqueued
  | receive registrationId =>
      cases hreq
      rcases result with e | _ | sub
      · exact .ended rfl
      · exact .ended rfl
      · exact .found
  | receivePeek stream =>
      cases hreq
      cases result with
      | error e => exact .ended rfl
      | ok batch => exact .backlog
  | durableAck stream event batch =>
      cases hreq
      cases result with
      | error e => exact .streamFailed rfl
      | ok => exact .acked
  | durablePeek stream =>
      cases hreq
      cases result with
      | error e => exact .streamFailed rfl
      | ok batch => exact .read
  | cancelSubscription registrationId =>
      cases hreq
      rcases result with e | _ | sub
      · exact .ended rfl
      · exact .ended rfl
      · exact .cancelling
  | renewSubscription registrationId ttlSecs =>
      cases hreq
      rcases result with e | _ | sub
      · exact .ended rfl
      · exact .ended rfl
      · exact .renewing
  | cancelRemove sub =>
      cases hreq
      cases result with
      | error e => exact .ended rfl
      | ok => exact .removed
  | createSubscription sub granted =>
      cases hreq
      cases result with
      | error e | ok => exact .ended rfl
  | unsubscribeByLease leaseId =>
      cases hreq
      cases result with
      | error e | ok sub => exact .ended rfl
  | _ => cases hreq

/-! ## What is never forgotten -/

namespace EventHost

/-- `h'` comes after `h`. -/
structure Grows (h h' : EventHost) : Prop where
  uuids : h.landlord.uuids ⊆ h'.landlord.uuids
  eventTx : h.eventTx <+: h'.eventTx
  channels : h.channels.length ≤ h'.channels.length
  registrationOf : ∀ c reg, h.registrationOf c = some reg →
    h'.registrationOf c = some reg
  sentOn : ∀ c, h.sentOn c <+: h'.sentOn c
  pulledOn : ∀ c, h.pulledOn c ⊆ h'.pulledOn c

variable {h h' : EventHost}

theorem Grows.of_channels (huuids : h.landlord.uuids ⊆ h'.landlord.uuids)
    (heventTx : h.eventTx <+: h'.eventTx) (hchannels : h'.channels = h.channels) :
    h.Grows h' := by
  refine ⟨huuids, heventTx, ?_, ?_, ?_, ?_⟩
  · rw [hchannels]
  · intro c reg hreg
    rwa [EventHost.registrationOf, hchannels]
  · intro c
    rw [EventHost.sentOn, EventHost.sentOn, hchannels]
  · intro c
    rw [EventHost.pulledOn, EventHost.pulledOn, hchannels]
    exact List.Subset.refl _

theorem Grows.refl (h : EventHost) : h.Grows h :=
  .of_channels (List.Subset.refl _) List.prefix_rfl rfl

section SetQueue

variable {c : Nat} {ch : EventChannel} {queue : Mpsc (Except Status EventMessage)}

theorem getElem?_setQueue (hch : h.channels[c]? = some ch) (d : Nat) :
    (h.setQueue c ch queue).channels[d]? =
      if d = c then some { ch with queue := queue } else h.channels[d]? := by
  have hlt := (List.getElem?_eq_some_iff.mp hch).1
  simp only [setQueue]
  rw [List.getElem?_set]
  by_cases hd : c = d
  · subst hd
    simp [hlt]
  · simp [hd, Ne.symm hd]

theorem sentOn_setQueue (hch : h.channels[c]? = some ch) (d : Nat) :
    (h.setQueue c ch queue).sentOn d =
      if d = c then queue.sent else h.sentOn d := by
  unfold EventHost.sentOn
  rw [getElem?_setQueue hch]
  split <;> rfl

theorem pulledOn_setQueue (hch : h.channels[c]? = some ch) (d : Nat) :
    (h.setQueue c ch queue).pulledOn d =
      if d = c then queue.pulled else h.pulledOn d := by
  unfold EventHost.pulledOn
  rw [getElem?_setQueue hch]
  split <;> rfl

theorem sentOn_eq (hch : h.channels[c]? = some ch) :
    h.sentOn c = ch.queue.sent := by
  simp [EventHost.sentOn, hch]

theorem pulledOn_eq (hch : h.channels[c]? = some ch) :
    h.pulledOn c = ch.queue.pulled := by
  simp [EventHost.pulledOn, hch]

theorem Grows.setQueue (hch : h.channels[c]? = some ch)
    (hsent : ch.queue.sent <+: queue.sent)
    (hpulled : ch.queue.pulled ⊆ queue.pulled) :
    h.Grows (h.setQueue c ch queue) := by
  refine ⟨List.Subset.refl _, List.prefix_rfl, ?_, ?_, ?_, ?_⟩
  · simp [EventHost.setQueue]
  · intro d reg hreg
    unfold EventHost.registrationOf at hreg ⊢
    rw [getElem?_setQueue hch]
    split
    · next hd =>
      rw [hd, hch] at hreg
      exact hreg
    · exact hreg
  · intro d
    rw [sentOn_setQueue hch]
    split
    · next hd => rwa [hd, sentOn_eq hch]
    · exact List.prefix_rfl
  · intro d
    rw [pulledOn_setQueue hch]
    split
    · next hd => rwa [hd, pulledOn_eq hch]
    · exact List.Subset.refl _

end SetQueue

section OpenChannel

variable {reg : String}

theorem getElem?_openChannel_of_lt {c : Nat} (hc : c < h.channels.length) :
    (h.openChannel reg).channels[c]? = h.channels[c]? :=
  List.getElem?_append_left hc

theorem sentOn_openChannel (c : Nat) :
    (h.openChannel reg).sentOn c = h.sentOn c := by
  unfold EventHost.sentOn
  rcases Nat.lt_trichotomy c h.channels.length with hlt | rfl | hgt
  · rw [getElem?_openChannel_of_lt hlt]
  · simp [openChannel, Mpsc.new]
  · rw [List.getElem?_eq_none (by simp [openChannel]; omega),
      List.getElem?_eq_none (by omega)]

theorem pulledOn_openChannel (c : Nat) :
    (h.openChannel reg).pulledOn c = h.pulledOn c := by
  unfold EventHost.pulledOn
  rcases Nat.lt_trichotomy c h.channels.length with hlt | rfl | hgt
  · rw [getElem?_openChannel_of_lt hlt]
  · simp [openChannel, Mpsc.new, Mpsc.pulled]
  · rw [List.getElem?_eq_none (by simp [openChannel]; omega),
      List.getElem?_eq_none (by omega)]

theorem registrationOf_openChannel :
    (h.openChannel reg).registrationOf h.channels.length = some reg := by
  simp [EventHost.registrationOf, openChannel]

theorem registrationOf_lt {c : Nat} (hreg : h.registrationOf c = some reg) :
    c < h.channels.length := by
  obtain ⟨ch, hch, -⟩ := Option.map_eq_some_iff.mp hreg
  exact (List.getElem?_eq_some_iff.mp hch).1

theorem Grows.openChannel (h : EventHost) (reg : String) :
    h.Grows (h.openChannel reg) := by
  refine ⟨List.Subset.refl _, List.prefix_rfl, ?_, ?_, ?_, ?_⟩
  · simp [EventHost.openChannel]
  · intro c reg' hreg
    unfold EventHost.registrationOf
    rw [getElem?_openChannel_of_lt (registrationOf_lt hreg)]
    exact hreg
  · intro c
    rw [sentOn_openChannel]
  · intro c
    rw [pulledOn_openChannel]
    exact List.Subset.refl _

end OpenChannel

theorem ambient_cases {config : EventConfig} {e : EventAmbient}
    {spawned : List EventPc} (hamb : h.ambient config e = some (h', spawned)) :
    h.Grows h' ∧ (∀ c, h'.sentOn c = h.sentOn c) ∧ h'.eventTx = h.eventTx ∧
      ∀ pc ∈ spawned, ∃ leaseId, pc = .unsubscribeByLease leaseId := by
  cases e with
  | tick d =>
      cases hamb
      exact ⟨.of_channels (List.Subset.refl _) List.prefix_rfl rfl,
        fun _ => rfl, rfl, by simp⟩
  | cascade =>
      simp only [EventHost.ambient] at hamb
      split at hamb <;> cases hamb <;>
        exact ⟨.of_channels (List.Subset.refl _) List.prefix_rfl rfl,
          fun _ => rfl, rfl, by simp⟩
  | pull c =>
      simp only [EventHost.ambient] at hamb
      split at hamb
      · cases hamb
      · next ch hch =>
        obtain ⟨queue, hpull, heq⟩ := Option.map_eq_some_iff.mp hamb
        cases heq
        have hsent := Mpsc.sent_pull hpull
        refine ⟨Grows.setQueue hch (by rw [hsent])
          (Mpsc.pulled_subset_pull hpull), fun d => ?_, rfl, by simp⟩
        refine (sentOn_setQueue hch d).trans ?_
        split
        · next hd => rw [hd, hsent, sentOn_eq hch]
        · rfl
  | disconnect c =>
      simp only [EventHost.ambient] at hamb
      split at hamb
      · cases hamb
      · next ch hch =>
        cases hamb
        refine ⟨Grows.setQueue hch List.prefix_rfl (List.Subset.refl _),
          fun d => ?_, rfl, by simp⟩
        refine (sentOn_setQueue hch d).trans ?_
        split
        · next hd => rw [hd, Mpsc.sent_disconnect, sentOn_eq hch]
        · rfl

end EventHost

namespace EventMove

variable {config : EventConfig} {i : Nat} {h h' : EventHost} {pc pc' : EventPc}
  {events : List EventLog}

theorem grows (hmove : EventMove config i h pc h' pc' events) : h.Grows h' := by
  cases hmove with
  | emitSend =>
      exact .of_channels (List.Subset.refl _) (List.prefix_append _ _) rfl
  | opened => exact .openChannel h _
  | sent _ hch _ =>
      refine .setQueue hch (List.prefix_append _ _) ?_
      rw [Mpsc.pulled_send]
      exact List.Subset.refl _
  | bestEffort | wakeup | reserved | hangup => exact .refl h
  | drawEvent | refused =>
      exact .of_channels (List.subset_cons_self _ _) List.prefix_rfl rfl
  | drawSubscription _ huuids =>
      exact .of_channels (List.Subset.trans (List.subset_cons_self _ _) huuids)
        List.prefix_rfl rfl
  | leaseCalled hlease | leaseAnswered hlease | lease hlease =>
      exact .of_channels hlease.uuids_subset List.prefix_rfl rfl

theorem sentOn_eq (hmove : EventMove config i h pc h' pc' events) {c : Nat}
    (hc : pc.channel ≠ some c) : h'.sentOn c = h.sentOn c := by
  cases hmove with
  | opened => exact EventHost.sentOn_openChannel c
  | sent hsending hch _ =>
      rw [EventHost.sentOn_setQueue hch]
      split
      · next heq =>
        subst heq
        cases pc with
        | bestEffortSend | durableSend | sendError =>
            cases hsending
            exact absurd rfl hc
        | _ => cases hsending
      · rfl
  | _ => rfl

/-- Where a move leads: it is one of a stream, the last one of a call, or it
starts something new. -/
theorem target_cases (hmove : EventMove config i h pc h' pc' events) :
    pc'.channel.isSome = true ∨ (∃ answer, pc' = .returned answer) ∨
      (∃ req event, pc = .emit req ∧ pc' = .emitList event) ∨
      (∃ sub granted, pc' = .createSubscription sub granted ∧
        sub.registrationId ∉ h.landlord.uuids ∧
        sub.registrationId ∈ h'.landlord.uuids) ∨
      ∃ lpc, pc' = .leaseCall lpc ∨ pc' = .lease lpc := by
  cases hmove with
  | opened =>
      left
      unfold opening
      split <;> rfl
  | bestEffort =>
      left
      unfold afterBroadcast
      split
      · split <;> rfl
      · rfl
  | wakeup =>
      left
      unfold afterWakeup
      split
      · split <;> rfl
      · rfl
  | @sent pc next c item ch hsending =>
      cases pc with
      | bestEffortSend | durableSend =>
          cases hsending
          exact Or.inl rfl
      | sendError =>
          cases hsending
          exact Or.inr (Or.inl ⟨_, rfl⟩)
      | _ => cases hsending
  | reserved => exact Or.inl rfl
  | emitSend | hangup | refused | leaseAnswered =>
      exact Or.inr (Or.inl ⟨_, rfl⟩)
  | drawEvent => exact Or.inr (Or.inr (Or.inl ⟨_, _, rfl, rfl⟩))
  | @drawSubscription req sub granted landlord hid huuids =>
      exact Or.inr (Or.inr (Or.inr (Or.inl
        ⟨sub, granted, rfl, hid, huuids List.mem_cons_self⟩)))
  | @leaseCalled lpc lpc' =>
      exact Or.inr (Or.inr (Or.inr (Or.inr ⟨lpc', Or.inl rfl⟩)))
  | @lease lpc lpc' =>
      exact Or.inr (Or.inr (Or.inr (Or.inr ⟨lpc', Or.inr rfl⟩)))

theorem eventTx_cases (hmove : EventMove config i h pc h' pc' events) :
    h'.eventTx = h.eventTx ∨ ∃ event failures, pc = .emitSend event failures ∧
      pc' = .returned (emitAnswer event failures) ∧
      h'.eventTx = h.eventTx ++ [event] := by
  cases hmove with
  | emitSend => exact Or.inr ⟨_, _, rfl, rfl, rfl⟩
  | _ => exact Or.inl rfl

end EventMove

end Coordin8
