import Coordin8.Core.Matcher
import Coordin8.Lease.Manager
import Coordin8.Provider.EventStore
import Coordin8.Support.Broadcast
import Coordin8.Support.Mpsc
import Coordin8.Support.Pool

/-!
# The event manager

`EventManager` and the `EventService` in front of it, in the process that runs
them: with the lease manager of the subscriptions, its reaper, and the `event`
cascade that removes a subscription when its lease is reclaimed.  `EventPc` says
where a call stands.  Where the next move is a call of the event store,
`EventPc.request` names it and says how the call goes on with the result; the
other moves are those of `EventPc.advance`, which never look at the store.  So
the same manager runs over any implementation of the `EventStore` trait.

A `Receive` stream is a call like the others: it ends when its channel is
closed or the store fails.  The transport pulls from the channels, and clients
disconnect, whenever they like.
-/

namespace Coordin8

open Support

/-! ## Requests and replies -/

structure SubscribeRequest where
  source : String
  template : Attrs
  delivery : DeliveryMode
  ttlSecs : UInt64
  handback : List UInt8
deriving DecidableEq

structure EmitRequest where
  source : String
  eventType : String
  attrs : Attrs
  payload : List UInt8
deriving DecidableEq

/-- The status of a core error. -/
def mapErr (e : Error) : Status where
  code :=
    match e with
    | .unavailable _ => .unavailable
    | .subscriptionNotFound _ | .leaseNotFound _ => .notFound
    | .subscriptionExpired _ | .leaseExpired _ => .failedPrecondition
    | .invalidArgument _ => .invalidArgument
    | .permissionDenied _ => .permissionDenied
    | _ => .internal
  message := e.display

/-- An event as it goes to the client. -/
structure EventMessage extends EventRecord where
  handback : List UInt8
deriving DecidableEq

def eventRecordToProto (e : EventRecord) (handback : List UInt8) :
    EventMessage :=
  { e with handback := handback }

inductive EventReply where
  | unit
  | registered (registrationId : String) (granted : LeaseRecord) (seqNum : Nat)
  | emitted (event : EventRecord)
  | lease (record : LeaseRecord)
  | removed (registrationId : Option String)
deriving DecidableEq

abbrev EventAnswer := Except Status EventReply

/-! ## Where a call stands -/

/-- Mailbox entries read per page by a durable `Receive`. -/
def mailboxBatch : Nat := 64

/-- What a `Receive` stream carries through its loop: the subscription, its
channel, its position in the broadcast of events, and the number of the last
mailbox entry it has dealt with. -/
structure EventStream where
  sub : SubscriptionRecord
  channel : Nat
  position : Nat
  cursor : Nat
deriving DecidableEq

inductive EventPc where
  | subscribe (req : SubscribeRequest)
  | createSubscription (sub : SubscriptionRecord) (granted : LeaseRecord)
  | emit (req : EmitRequest)
  | emitList (event : EventRecord)
  /-- `sub` is to get the event, then those of `todo` that match. -/
  | emitEnqueue (event : EventRecord) (sub : SubscriptionRecord)
      (todo : List SubscriptionRecord) (failures : List String)
  | emitSend (event : EventRecord) (failures : List String)
  | receive (registrationId : String)
  | receiveSubscribe (sub : SubscriptionRecord)
  /-- The backlog of a durable stream is read. -/
  | receivePeek (stream : EventStream)
  /-- A best-effort stream waits on the broadcast. -/
  | bestEffort (stream : EventStream)
  | bestEffortSend (stream : EventStream) (event : EventRecord)
  /-- A durable stream flushes a batch: `event`, then those of `batch`. -/
  | durableSend (stream : EventStream) (event : EventRecord)
      (batch : List EventRecord)
  | durableReserve (stream : EventStream) (event : EventRecord)
      (batch : List EventRecord)
  | durableAck (stream : EventStream) (event : EventRecord)
      (batch : List EventRecord)
  | durablePeek (stream : EventStream)
  /-- A durable stream is parked on the broadcast. -/
  | durableWait (stream : EventStream)
  /-- A stream ends with an error, once the channel has room for it. -/
  | sendError (channel : Nat) (status : Status)
  | cancelSubscription (registrationId : String)
  | cancelRemove (sub : SubscriptionRecord)
  | renewSubscription (registrationId : String) (ttlSecs : UInt64)
  | unsubscribeByLease (leaseId : String)
  /-- The call ends with what the lease manager answers. -/
  | leaseCall (pc : LeasePc)
  /-- A call of `LeaseService`, or a sweep of the reaper. -/
  | lease (pc : LeasePc)
  | returned (answer : EventAnswer)
deriving DecidableEq

/-- What the outside decides in a move. -/
inductive EventChoice where
  | go
  | uuid (id : String)
  /-- The identifiers drawn for a subscription and for its lease. -/
  | uuids (id leaseId : String)
  /-- A loop notices that its channel is closed. -/
  | closed
  | lease (c : LeaseChoice)

/-- What happened in the process: a call drew the identifier of a new
subscription, a call opened a channel, or a call of the store was answered. -/
inductive EventLog where
  | drawn (task : Nat) (registrationId : String)
  | opened (task channel : Nat)
  | store (task : Nat) (op : EventOp) (result : op.Result)

structure EventConfig where
  lease : LeaseConfig
  /-- Capacity of the broadcast of reclaimed leases. -/
  capacity : Nat
  /-- Capacity of the broadcast of events. -/
  eventCapacity : Nat

/-- The channel of a `Receive` stream. -/
structure EventChannel where
  registrationId : String
  queue : Mpsc (Except Status EventMessage)
deriving DecidableEq

/-- What the calls share besides the store.  `eventTx` holds everything sent on
it, oldest first; `cascadeAt` is the position of the cascade in the broadcast of
reclaimed leases. -/
structure EventHost where
  landlord : Landlord
  seqCounters : DashMap String Nat
  eventTx : List EventRecord
  channels : List EventChannel
  cascadeAt : Nat
deriving DecidableEq

def EventHost.new : EventHost where
  landlord := .new
  seqCounters := ∅
  eventTx := []
  channels := []
  cascadeAt := 0

/-- Whether a channel has room, when there is such a channel. -/
def EventHost.slot (h : EventHost) (c : Nat) : Option Mpsc.Slot :=
  h.channels[c]?.map fun ch => ch.queue.slot 1

/-- The subscription wants the event: its source, and its template over the
attributes and the event type. -/
def SubscriptionRecord.Wants (sub : SubscriptionRecord) (event : EventRecord) :
    Bool :=
  let ops := parseTemplate sub.template
  let checkAttrs := event.attrs.insert "event_type" event.eventType
  sub.source == event.source && (ops.isEmpty || templateMatches ops checkAttrs)

namespace EventPc

/-! ## Local steps -/

/-- The loop of `emit` over the subscriptions, up to the next one that gets the
event. -/
def enqueueNext (event : EventRecord) (failures : List String) :
    List SubscriptionRecord → EventPc
  | [] => .emitSend event failures
  | sub :: todo =>
      if sub.delivery = .durable ∧ sub.Wants event then
        .emitEnqueue event sub todo failures
      else
        enqueueNext event failures todo

/-- What `emit` does with the result of an enqueue. -/
def afterEnqueue (event : EventRecord) (sub : SubscriptionRecord)
    (todo : List SubscriptionRecord) (failures : List String) :
    Except Error Nat → EventPc
  | .ok _ => enqueueNext event failures todo
  -- A subscription removed between list and enqueue is not a failure.
  | .error (.subscriptionNotFound _) => enqueueNext event failures todo
  | .error e =>
      enqueueNext event
        (failures ++ [sub.registrationId ++ ": " ++ e.display]) todo

/-- What `emit` answers. -/
def emitAnswer (event : EventRecord) (failures : List String) : EventAnswer :=
  if failures.isEmpty then
    .ok (.emitted event)
  else
    .error (mapErr (.storage ("durable enqueue failed for " ++
      toString failures.length ++ " subscription(s): " ++
      String.intercalate "; " failures)))

/-- A durable stream goes on with a batch it has read. -/
def flush (stream : EventStream) : List EventRecord → EventPc
  | [] => .durableWait stream
  | event :: batch => .durableSend stream event batch

/-- A durable stream goes on once the entry `seq` is acknowledged. -/
def advanceCursor (stream : EventStream) (seq : Nat) :
    List EventRecord → EventPc
  | [] => .durablePeek { stream with cursor := seq }
  | event :: batch => .durableSend { stream with cursor := seq } event batch

def leaseAnswer : Except Error (Option LeaseRecord) → EventAnswer
  | .error e => .error (mapErr e)
  | .ok none => .ok .unit
  | .ok (some record) => .ok (.lease record)

/-- The call fails with a core error. -/
def fail (e : Error) : EventPc :=
  .returned (.error (mapErr e))

/-- A stream fails with a core error. -/
def streamFail (stream : EventStream) (e : Error) : EventPc :=
  .sendError stream.channel (mapErr e)

/-! ## Calls of the store -/

/-- The call of the store that is the next move, and how the call goes on with
its result. -/
def request : EventPc → Option ((op : EventOp) × (op.Result → EventPc))
  | .createSubscription sub granted =>
      some ⟨.createSubscription sub, fun
        | .error e => fail e
        | .ok () => .returned (.ok (.registered sub.registrationId granted
            sub.initialSeqNum))⟩
  | .emitList event =>
      some ⟨.listSubscriptions, fun
        | .error e => fail e
        | .ok subs => enqueueNext event [] subs⟩
  | .emitEnqueue event sub todo failures =>
      some ⟨.enqueue sub.registrationId event,
        afterEnqueue event sub todo failures⟩
  | .receive registrationId =>
      some ⟨.getSubscription registrationId, fun
        | .error e => fail e
        | .ok none => .returned (.error {
            code := .notFound
            message := "subscription not found" })
        | .ok (some sub) => .receiveSubscribe sub⟩
  | .receivePeek stream =>
      some ⟨.peek stream.sub.registrationId 0 mailboxBatch, fun
        | .error e => fail e
        | .ok batch => flush stream batch⟩
  | .durableAck stream event batch =>
      some ⟨.ack stream.sub.registrationId [event.seqNum], fun
        | .error e => streamFail stream e
        | .ok () => advanceCursor stream event.seqNum batch⟩
  | .durablePeek stream =>
      some ⟨.peek stream.sub.registrationId stream.cursor mailboxBatch, fun
        | .error e => streamFail stream e
        | .ok batch => flush stream batch⟩
  | .cancelSubscription registrationId =>
      some ⟨.getSubscription registrationId, fun
        | .error e => fail e
        | .ok none => fail (.subscriptionNotFound registrationId)
        | .ok (some sub) => .cancelRemove sub⟩
  | .cancelRemove sub =>
      some ⟨.removeSubscription sub.registrationId, fun
        | .error e => fail e
        | .ok () => .leaseCall (.cancel sub.leaseId)⟩
  | .renewSubscription registrationId ttlSecs =>
      some ⟨.getSubscription registrationId, fun
        | .error e => fail e
        | .ok none => fail (.subscriptionNotFound registrationId)
        | .ok (some sub) => .leaseCall (.renew sub.leaseId ttlSecs)⟩
  | .unsubscribeByLease leaseId =>
      some ⟨.removeByLease leaseId, fun
        | .error e => fail e
        | .ok sub => .returned (.ok (.removed
            (sub.map SubscriptionRecord.registrationId)))⟩
  | _ => none

/-! ## The other moves -/

/-- A move that leaves the shared state as it is. -/
def stay (h : EventHost) (pc : EventPc) :
    Option (EventHost × EventPc × List EventLog) :=
  some (h, pc, [])

/-- Send on a channel and go on with `next`, or end when the receiver is gone;
no move while the channel is full. -/
def sendOn (h : EventHost) (c : Nat) (item : Except Status EventMessage)
    (next : EventPc) : Option (EventHost × EventPc × List EventLog) :=
  match h.channels[c]? with
  | none => none
  | some ch =>
      match ch.queue.slot 1 with
      | .room =>
          some ({ h with
            channels := h.channels.set c
              { ch with queue := ch.queue.send item } }, next, [])
      | .full => none
      | .closed => stay h (.returned (.ok .unit))

/-- What a parked durable stream does with what the broadcast delivers: an event
of its source, and a lag, make it read its mailbox again. -/
def afterWakeup (stream : EventStream) : Recv EventRecord → EventPc
  | .message e =>
      if e.source = stream.sub.source then .durablePeek stream
      else .durableWait stream
  | .lagged _ => .durablePeek stream

def afterBroadcast (stream : EventStream) : Recv EventRecord → EventPc
  | .message e =>
      if stream.sub.Wants e then .bestEffortSend stream e
      else .bestEffort stream
  | .lagged _ =>
      .sendError stream.channel {
        code := .dataLoss
        message := "subscriber lagged; resubscribe" }

/-- The next move of a call that depends on nothing outside. -/
def go (config : EventConfig) (task : Nat) (h : EventHost) :
    EventPc → Option (EventHost × EventPc × List EventLog)
  | .emitSend event failures =>
      some ({ h with eventTx := h.eventTx ++ [event] },
        .returned (emitAnswer event failures), [])
  | .receiveSubscribe sub =>
      -- The broadcast is subscribed to before the mailbox is read.
      let stream : EventStream := {
        sub := sub
        channel := h.channels.length
        position := h.eventTx.length
        cursor := 0 }
      some ({ h with channels := h.channels ++ [{
          registrationId := sub.registrationId
          queue := .new }] },
        if sub.delivery = .durable then .receivePeek stream
          else .bestEffort stream,
        [.opened task stream.channel])
  | .bestEffort stream =>
      match recv config.eventCapacity h.eventTx stream.position with
      | none => none
      | some (received, position) =>
          stay h (afterBroadcast { stream with position := position } received)
  | .bestEffortSend stream event =>
      sendOn h stream.channel
        (.ok (eventRecordToProto event stream.sub.handback))
        (.bestEffort stream)
  | .durableSend stream event batch =>
      sendOn h stream.channel
        (.ok (eventRecordToProto event stream.sub.handback))
        (.durableReserve stream event batch)
  | .durableReserve stream event batch =>
      -- Room in the channel again: the previous event was consumed.
      match h.slot stream.channel with
      | some .room => stay h (.durableAck stream event batch)
      | some .closed => stay h (.returned (.ok .unit))
      | _ => none
  | .durableWait stream =>
      match recv config.eventCapacity h.eventTx stream.position with
      | none => none
      | some (received, position) =>
          stay h (afterWakeup { stream with position := position } received)
  | .sendError c status =>
      sendOn h c (.error status) (.returned (.ok .unit))
  | _ => none

/-- Whether a loop that waits on the broadcast finds its channel closed. -/
def closed (h : EventHost) :
    EventPc → Option (EventHost × EventPc × List EventLog)
  | .bestEffort stream | .durableWait stream =>
      match h.slot stream.channel with
      | some .closed => stay h (.returned (.ok .unit))
      | _ => none
  | _ => none

/-- The baseline of a new subscription: durable numbers start afresh, a
best-effort stream starts at the counters of its source. -/
def initialSeqNum (counters : DashMap String Nat) (source : String) :
    DeliveryMode → Nat
  | .durable => 0
  | .bestEffort =>
      ((counters.toList.filter fun e =>
          (stripPrefix (source ++ "::") e.1).isSome).map
        Prod.snd).foldl max 0

/-- A lease is granted for a new subscription. -/
def drawSubscription (config : EventConfig) (task : Nat) (h : EventHost)
    (id leaseId : String) (req : SubscribeRequest) :
    EventHost × EventPc × List EventLog :=
  let landlord := { h.landlord with uuids := id :: h.landlord.uuids }
  match landlord.grant config.lease leaseId ("event:" ++ id) req.ttlSecs with
  | .error e => ({ h with landlord := landlord }, fail e, [])
  | .ok (granted, landlord) =>
      ({ h with landlord := landlord },
        .createSubscription {
          registrationId := id
          source := req.source
          template := req.template
          delivery := req.delivery
          leaseId := granted.leaseId
          handback := req.handback
          initialSeqNum := initialSeqNum h.seqCounters req.source req.delivery }
          granted,
        [.drawn task id])

/-- A new event gets its number and its identifier. -/
def drawEvent (h : EventHost) (id : String) (req : EmitRequest) :
    EventHost × EventPc × List EventLog :=
  let key := req.source ++ "::" ++ req.eventType
  let seqNum := h.seqCounters.getD key 0 + 1
  ({ h with
      landlord := { h.landlord with uuids := id :: h.landlord.uuids }
      seqCounters := h.seqCounters.insert key seqNum },
    .emitList {
      eventId := id
      source := req.source
      eventType := req.eventType
      seqNum := seqNum
      attrs := req.attrs
      payload := req.payload
      emittedAt := h.landlord.now },
    [])

/-- How a call goes on when the lease manager has made a move for it. -/
def afterLease : EventPc → LeasePc → Option EventPc
  | .leaseCall _, .returned result => some (.returned (leaseAnswer result))
  | .leaseCall _, pc => some (.leaseCall pc)
  | .lease _, pc => some (.lease pc)
  | _, _ => none

/-- The part of the lease manager's call inside this call. -/
def leasePc : EventPc → Option LeasePc
  | .leaseCall pc | .lease pc => some pc
  | _ => none

/-- A move of the lease manager. -/
def leaseStep (config : EventConfig) (h : EventHost) (c : LeaseChoice)
    (pc : EventPc) : Option (EventHost × EventPc × List EventLog) :=
  match pc.leasePc with
  | none => none
  | some lpc =>
      match lpc.advance config.lease h.landlord c with
      | none => none
      | some (landlord, lpc) =>
          (pc.afterLease lpc).map fun pc' =>
            ({ h with landlord := landlord }, pc', [])

/-- The next move of a call when it is not a call of the store. -/
def advance (config : EventConfig) (task : Nat) (h : EventHost) (pc : EventPc) :
    EventChoice → Option (EventHost × EventPc × List EventLog)
  | .go => pc.go config task h
  | .uuid id =>
      match pc with
      | .emit req =>
          if id ∈ h.landlord.uuids then none else some (drawEvent h id req)
      | _ => none
  | .uuids id leaseId =>
      match pc with
      | .subscribe req =>
          if id ∈ h.landlord.uuids ∨ leaseId ∈ id :: h.landlord.uuids then none
          else some (drawSubscription config task h id leaseId req)
      | _ => none
  | .closed => pc.closed h
  | .lease c => leaseStep config h c pc

/-- The calls a client, the cascade, the orphan sweep or the reaper may
start. -/
def entry : EventPc → Bool
  | .subscribe _ | .emit _ | .receive _ | .cancelSubscription _
  | .renewSubscription .. | .unsubscribeByLease _ => true
  | .lease pc => pc.entry
  | _ => false

end EventPc

/-! ## The outside -/

/-- The clock moves, the cascade takes the next reclaimed lease, the transport
pulls from a channel, or a client disconnects. -/
inductive EventAmbient where
  | tick (nanoseconds : Nat)
  | cascade
  | pull (channel : Nat)
  | disconnect (channel : Nat)
deriving DecidableEq, Repr

def EventHost.ambient (config : EventConfig) (h : EventHost) :
    EventAmbient → Option (EventHost × List EventPc)
  | .tick d =>
      some ({ h with landlord := { h.landlord with
        now := h.landlord.now + d } }, [])
  | .cascade =>
      match recv config.capacity h.landlord.sent h.cascadeAt with
      | none => none
      | some (.lagged _, position) => some ({ h with cascadeAt := position }, [])
      | some (.message e, position) =>
          some ({ h with cascadeAt := position },
            [.unsubscribeByLease e.record.leaseId])
  | .pull c =>
      match h.channels[c]? with
      | none => none
      | some ch =>
          ch.queue.pull.map fun queue =>
            ({ h with channels := h.channels.set c { ch with queue := queue } },
              [])
  | .disconnect c =>
      match h.channels[c]? with
      | none => none
      | some ch =>
          some ({ h with
            channels := h.channels.set c
              { ch with queue := ch.queue.disconnect } }, [])

/-! ## The process over the in-memory store -/

/-- What the outside decides in a move of the whole process: the order of a scan
of the subscriptions, or a choice of the manager. -/
inductive LocalEventChoice where
  | store (it : SubscriptionIteration)
  | manager (choice : EventChoice)

structure LocalEventHost where
  host : EventHost
  store : InMemoryEventStore
deriving DecidableEq

/-- One move: an atomic call of the store, or a move of the manager. -/
def localEventAdvance (config : EventConfig) (task : Nat) (h : LocalEventHost)
    (pc : EventPc) :
    LocalEventChoice → Option (LocalEventHost × EventPc × List EventLog)
  | .store it =>
      match pc.request with
      | none => none
      | some ⟨op, next⟩ =>
          let (result, store) := h.store.exec it op
          some ({ h with store := store }, next result, [.store task op result])
  | .manager choice =>
      match pc.advance config task h.host choice with
      | none => none
      | some (host, pc', events) => some ({ h with host := host }, pc', events)

abbrev LocalEventAct := PoolAct EventPc LocalEventChoice EventAmbient

abbrev LocalEventProc := Pool LocalEventHost EventPc EventLog

def localEventProgram (config : EventConfig) :
    Program LocalEventHost EventPc EventLog LocalEventChoice EventAmbient where
  entry := EventPc.entry
  advance := localEventAdvance config
  ambient h e :=
    (h.host.ambient config e).map fun out =>
      ({ h with host := out.1 }, out.2)

def LocalEventProc.new : LocalEventProc where
  shared := { host := .new, store := .new }
  tasks := []
  log := []

/-- The states of the process that some interleaving of calls reaches. -/
def LocalEventReachable (config : EventConfig) (s : LocalEventProc) : Prop :=
  Reachable (localEventProgram config).step LocalEventProc.new s

end Coordin8
