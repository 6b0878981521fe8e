import Coordin8.Core.Matcher
import Coordin8.Lease.Reclaim
import Coordin8.Space.Moves
import Coordin8.Support.Mpsc

/-!
# Watches on the Space

`Notify` has the manager make a watch with a lease of its own, and then spawns a
task that forwards what is sent on one of the two broadcasts to the client's
stream.  When the lease is reclaimed `on_watch_expired` removes the watch from
the store; the forwarding task never looks there.  So a stream outlives its
watch, and what it delivers after the watch has ended is what was sent before,
as long as nothing that it wants is broadcast while it is still open.
-/

namespace Coordin8

open Support

/-! ## Requests and messages -/

structure NotifyRequest where
  template : Attrs
  on : Int32
  ttlSeconds : UInt64
  handback : List UInt8
deriving DecidableEq

/-- Only the number of `EXPIRATION` asks for expirations. -/
def NotifyRequest.kind (req : NotifyRequest) : SpaceEventKind :=
  if req.on = 1 then .expiration else .appearance

def SpaceEventKind.eventType : SpaceEventKind → Int32
  | .appearance => 0
  | .expiration => 1

/-- A tuple as it goes to the client. -/
structure TupleMessage where
  tupleId : String
  attrs : Attrs
  payload : List UInt8
  writtenBy : String
  writtenAt : Timestamp
  inputTupleId : String
  lease : Option LeaseRecord
deriving DecidableEq

def tupleRecordToProto (r : TupleRecord) (lease : Option LeaseRecord) :
    TupleMessage where
  tupleId := r.tupleId
  attrs := r.attrs
  payload := r.payload
  writtenBy := r.writtenBy
  writtenAt := r.writtenAt
  inputTupleId := r.inputTupleId.getD ""
  lease := lease

/-- What a watch reports. -/
structure SpaceNotice where
  eventType : Int32
  tuple : TupleMessage
  occurredAt : Timestamp
  handback : List UInt8
deriving DecidableEq

/-- A message on a stream.  The position on the broadcast of what it is about is
not part of what the client gets. -/
structure Delivery where
  position : Nat
  item : Except Status SpaceNotice
deriving DecidableEq

/-- The message is an event, and not the error that ends the stream. -/
def Delivery.IsEvent (d : Delivery) : Prop :=
  ∃ notice, d.item = .ok notice

/-- The status that the service answers `notify` with, for an error of the
manager. -/
def SpaceService.mapErr (e : Error) : Status where
  code :=
    match e with
    | .unavailable _ => .unavailable
    | .tupleNotFound _ | .watchNotFound _ | .leaseNotFound _ => .notFound
    | .leaseExpired _ => .failedPrecondition
    | .invalidArgument _ => .invalidArgument
    | .permissionDenied _ => .permissionDenied
    | _ => .internal
  message := e.display

def watcherLagged : Status where
  code := .dataLoss
  message := "watcher lagged; resubscribe and re-snapshot"

/-! ## The service -/

/-- Where the forwarding task stands. -/
inductive ForwardPc where
  | next
  | send (delivery : Delivery)
  | ended
deriving DecidableEq

inductive WatcherPc where
  /-- The manager's `notify` runs. -/
  | notifying
  | failed (status : Status)
  /-- The stream is open: its position on the broadcast, its channel, and where
  the forwarding task stands. -/
  | streaming (cursor : Nat) (channel : Mpsc Delivery) (pc : ForwardPc)
deriving DecidableEq

/-- A call of `Notify`; `task` is the manager's call. -/
structure Watcher where
  template : Attrs
  on : SpaceEventKind
  handback : List UInt8
  task : Nat
  pc : WatcherPc
deriving DecidableEq

/-- The process of the Space with the calls of `Notify`. -/
structure SpaceService where
  space : SpaceProc
  watchers : List Watcher

structure WatchConfig where
  space : SpaceConfig
  /-- Capacity of the broadcast of expired tuples. -/
  expiryCapacity : Nat

def WatchConfig.capacity (config : WatchConfig) : SpaceEventKind → Nat
  | .appearance => config.space.tupleCapacity
  | .expiration => config.expiryCapacity

def SpaceHost.broadcast (h : SpaceHost) : SpaceEventKind → List TupleRecord
  | .appearance => h.tupleTx
  | .expiration => h.expiryTx

inductive WatcherMove where
  /-- The manager has answered. -/
  | subscribe
  | receive
  | forward
  /-- The client takes the next message. -/
  | pull
  | disconnect
deriving DecidableEq, Repr

inductive ServiceAct where
  | space (act : SpaceAct)
  | notify (req : NotifyRequest)
  | watcher (i : Nat) (move : WatcherMove)

namespace Watcher

/-- The filter of the forwarding task. -/
def wants (w : Watcher) (tuple : TupleRecord) : Bool :=
  let ops := parseTemplate w.template
  ops.isEmpty || templateMatches ops tuple.attrs

def notice (w : Watcher) (now : Timestamp) (tuple : TupleRecord) :
    SpaceNotice where
  eventType := w.on.eventType
  tuple := tupleRecordToProto tuple none
  occurredAt := now
  handback := w.handback

/-- The call goes on elsewhere. -/
def goTo (w : Watcher) (pc : WatcherPc) : Watcher :=
  { w with pc := pc }

/-- The next move of a call of `Notify`. -/
def advance (config : WatchConfig) (space : SpaceProc) (w : Watcher) :
    WatcherMove → Option Watcher
  | .subscribe =>
      match w.pc, space.tasks[w.task]? with
      | .notifying, some (.returned (.ok _)) =>
          some (w.goTo
            (.streaming (space.shared.broadcast w.on).length .new .next))
      | .notifying, some (.returned (.error e)) =>
          some (w.goTo (.failed (SpaceService.mapErr e)))
      | _, _ => none
  | .receive =>
      match w.pc with
      | .streaming cursor channel .next =>
          match recv (config.capacity w.on) (space.shared.broadcast w.on)
              cursor with
          | none => none
          | some (.lagged _, cursor') =>
              some (w.goTo (.streaming cursor' channel
                (.send ⟨cursor, .error watcherLagged⟩)))
          | some (.message tuple, cursor') =>
              if w.wants tuple then
                some (w.goTo (.streaming cursor' channel (.send
                  ⟨cursor, .ok (w.notice space.shared.landlord.now tuple)⟩)))
              else
                some (w.goTo (.streaming cursor' channel .next))
      | _ => none
  | .forward =>
      match w.pc with
      | .streaming cursor channel (.send delivery) =>
          match channel.slot 64 with
          | .room =>
              some (w.goTo (.streaming cursor (channel.send delivery)
                (match delivery.item with
                  | .ok _ => .next
                  | .error _ => .ended)))
          | .full => none
          | .closed => some (w.goTo (.streaming cursor channel .ended))
      | _ => none
  | .pull =>
      match w.pc with
      | .streaming cursor channel pc =>
          channel.pull.map fun channel =>
            w.goTo (.streaming cursor channel pc)
      | _ => none
  | .disconnect =>
      match w.pc with
      | .streaming cursor channel pc =>
          some (w.goTo (.streaming cursor channel.disconnect pc))
      | _ => none

end Watcher

namespace SpaceService

def new : SpaceService where
  space := .new
  watchers := []

def step (config : WatchConfig) (s : SpaceService) :
    ServiceAct → Option SpaceService
  | .space act =>
      ((spaceProgram config.space).step s.space act).map fun space =>
        { s with space := space }
  | .notify req =>
      let call : SpacePc :=
        .notify req.template req.kind req.ttlSeconds req.handback
      ((spaceProgram config.space).step s.space (.call call)).map fun space =>
        { space := space
          watchers := s.watchers ++ [{
            template := req.template
            on := req.kind
            handback := req.handback
            task := s.space.tasks.length
            pc := .notifying }] }
  | .watcher i move =>
      match s.watchers[i]? with
      | none => none
      | some w =>
          (w.advance config s.space move).map fun w =>
            { s with watchers := s.watchers.set i w }

end SpaceService

/-! ## What is broadcast -/

/-- The tuple that the next move of a call sends on a broadcast. -/
def SpacePc.sends (on : SpaceEventKind) : SpacePc → Option TupleRecord
  | .insertSend r _ | .settleSend r _ _ =>
      match on with
      | .appearance => some r
      | .expiration => none
  | .expirySend r =>
      match on with
      | .appearance => none
      | .expiration => some r
  | _ => none

section Space

variable {config : SpaceConfig} {i : Nat} {h h' : SpaceHost} {pc pc' : SpacePc}
  {events : List SpaceEvent} {s s' : SpaceProc} {act : SpaceAct}

theorem Calls.sends {op : SpaceOp} {result : SpaceResult}
    (hcalls : Calls pc op result pc') (on : SpaceEventKind) :
    pc.sends on = none := by
  cases hcalls <;> rfl

theorem SpaceMove.broadcast (hmove : SpaceMove config i h pc h' pc' events)
    (on : SpaceEventKind) :
    h'.broadcast on = h.broadcast on ++ (pc.sends on).toList := by
  have hnothing : ∀ pc : SpacePc, pc.sends on = none →
      h.broadcast on = h.broadcast on ++ (pc.sends on).toList := by
    intro pc hpc
    rw [hpc, Option.toList_none, List.append_nil]
  cases hmove with
  | sendNew | sendSettled | sendExpired =>
      cases on with
      | appearance | expiration => simp [SpaceHost.broadcast, SpacePc.sends]
  | drawFailed hpc =>
      cases pc with
      | write | notify => exact hnothing _ rfl
      | _ => exact hpc.elim
  | store hcalls => exact hnothing pc (hcalls.sends on)
  | pass hpasses =>
      have hsends : pc.sends on = none := by
        cases hpasses <;> rfl
      exact hnothing pc hsends
  | lease hpc =>
      have hsends : pc.sends on = none := by
        cases pc <;> first | rfl | cases hpc
      exact hnothing pc hsends
  | _ => exact hnothing _ rfl

theorem SpaceMove.later (hmove : SpaceMove config i h pc h' pc' events) :
    h.landlord.Later h'.landlord := by
  cases hmove with
  | write hid hlease hgrant hr | notify hid hlease hgrant =>
      exact (Landlord.Later.draw _ _).trans (.grant hlease hgrant)
  | drawFailed => exact .draw _ _
  | lease hpc hstep hafter => exact (LeaseMove.of_advance hstep).later
  | _ => exact .refl _

theorem SpaceHost.later_ambient {event : SpaceAmbient} {spawned : List SpacePc}
    (hamb : h.ambient config event = some (h', spawned)) :
    h.landlord.Later h'.landlord := by
  cases event with
  | tick d =>
      simp only [SpaceHost.ambient, Option.some.injEq, Prod.mk.injEq] at hamb
      obtain ⟨rfl, -⟩ := hamb
      exact .of_eq rfl rfl rfl
  | cascade =>
      simp only [SpaceHost.ambient] at hamb
      split at hamb <;> cases hamb <;> exact .refl _

theorem space_broadcast_step (hstep : (spaceProgram config).step s act = some s')
    (on : SpaceEventKind) :
    ∃ sent, s'.shared.broadcast on = s.shared.broadcast on ++ sent ∧
      ∀ r ∈ sent, ∃ j choice pc, act = .step j choice ∧
        s.tasks[j]? = some pc ∧ pc.sends on = some r := by
  cases act with
  | call pc =>
      obtain ⟨-, rfl⟩ := Program.step_call.mp hstep
      exact ⟨[], (List.append_nil _).symm, by simp⟩
  | step j choice =>
      obtain ⟨pc, shared, pc', events, hpc, hadv, rfl⟩ :=
        Program.step_step.mp hstep
      refine ⟨_, (SpaceMove.of_advance hadv).broadcast on, fun r hr => ?_⟩
      exact ⟨j, choice, pc, rfl, hpc, Option.mem_toList.mp hr⟩
  | ambient event =>
      obtain ⟨shared, spawned, hamb, rfl⟩ := Program.step_ambient.mp hstep
      obtain ⟨-, -, -, htuple, hexpiry, -⟩ := SpaceHost.ambient_cases hamb
      refine ⟨[], ?_, by simp⟩
      cases on with
      | appearance => simpa [SpaceHost.broadcast] using htuple
      | expiration => simpa [SpaceHost.broadcast] using hexpiry

theorem space_later_step (hstep : (spaceProgram config).step s act = some s') :
    s.shared.landlord.Later s'.shared.landlord := by
  cases act with
  | call pc =>
      obtain ⟨-, rfl⟩ := Program.step_call.mp hstep
      exact .refl _
  | step j choice =>
      obtain ⟨pc, shared, pc', events, -, hadv, rfl⟩ :=
        Program.step_step.mp hstep
      exact (SpaceMove.of_advance hadv).later
  | ambient event =>
      obtain ⟨shared, spawned, hamb, rfl⟩ := Program.step_ambient.mp hstep
      exact SpaceHost.later_ambient hamb

theorem space_returned_step {j : Nat} {answer : SpaceAnswer}
    (hstep : (spaceProgram config).step s act = some s')
    (hj : s.tasks[j]? = some (.returned answer)) :
    s'.tasks[j]? = some (.returned answer) := by
  rcases Program.task_of_step hstep hj with
    hsame | ⟨choice, shared, pc', events, -, hadv, -⟩
  · exact hsame
  · simp [spaceProgram, SpacePc.no_move_of_returned] at hadv

end Space

/-! ## The moves of a watcher -/

variable {broadcast sent : List TupleRecord}

section Watcher

variable {config : WatchConfig} {space space' : SpaceProc} {w w' : Watcher}
  {n : Nat}

/-- What one move of a call of `Notify` can do. -/
inductive Watcher.Moves (space : SpaceProc) (w : Watcher) : Watcher → Prop where
  | opened (hpc : w.pc = .notifying) :
      Moves space w
        (w.goTo (.streaming (space.shared.broadcast w.on).length .new .next))
  | refused {status : Status} (hpc : w.pc = .notifying) :
      Moves space w (w.goTo (.failed status))
  | lagged {cursor cursor' : Nat} {channel : Mpsc Delivery}
      (hpc : w.pc = .streaming cursor channel .next) (hle : cursor ≤ cursor') :
      Moves space w (w.goTo (.streaming cursor' channel
        (.send ⟨cursor, .error watcherLagged⟩)))
  | event {cursor : Nat} {channel : Mpsc Delivery} {tuple : TupleRecord}
      {now : Timestamp} (hpc : w.pc = .streaming cursor channel .next)
      (htuple : (space.shared.broadcast w.on)[cursor]? = some tuple)
      (hwants : w.wants tuple = true) :
      Moves space w (w.goTo (.streaming (cursor + 1) channel
        (.send ⟨cursor, .ok (w.notice now tuple)⟩)))
  | skipped {cursor : Nat} {channel : Mpsc Delivery}
      (hpc : w.pc = .streaming cursor channel .next) :
      Moves space w (w.goTo (.streaming (cursor + 1) channel .next))
  | sent {cursor : Nat} {channel : Mpsc Delivery} {delivery : Delivery}
      {pc : ForwardPc} (hpc : w.pc = .streaming cursor channel (.send delivery))
      (halive : channel.alive = true) (hnext : pc = .next ∨ pc = .ended) :
      Moves space w (w.goTo (.streaming cursor (channel.send delivery) pc))
  | closed {cursor : Nat} {channel : Mpsc Delivery} {pc : ForwardPc}
      (hpc : w.pc = .streaming cursor channel pc) :
      Moves space w (w.goTo (.streaming cursor channel .ended))
  | pulled {cursor : Nat} {channel channel' : Mpsc Delivery} {pc : ForwardPc}
      (hpc : w.pc = .streaming cursor channel pc)
      (hpull : channel.pull = some channel') :
      Moves space w (w.goTo (.streaming cursor channel' pc))
  | disconnected {cursor : Nat} {channel : Mpsc Delivery} {pc : ForwardPc}
      (hpc : w.pc = .streaming cursor channel pc) :
      Moves space w (w.goTo (.streaming cursor channel.disconnect pc))

theorem Watcher.Moves.of_receive
    (hmove : w.advance config space .receive = some w') :
    Watcher.Moves space w w' := by
  simp only [Watcher.advance] at hmove
  split at hmove
  · next cursor channel hpc =>
    split at hmove
    · cases hmove
    · next cursor' hrecv =>
      obtain rfl := Option.some.inj hmove
      exact .lagged hpc (recv_bounds hrecv).1
    · next tuple cursor' hrecv =>
      obtain ⟨htuple, rfl⟩ := recv_eq_message hrecv
      split at hmove
      · next hwants =>
        obtain rfl := Option.some.inj hmove
        exact .event hpc htuple hwants
      · obtain rfl := Option.some.inj hmove
        exact .skipped hpc
  · cases hmove

theorem Watcher.Moves.of_forward
    (hmove : w.advance config space .forward = some w') :
    Watcher.Moves space w w' := by
  simp only [Watcher.advance] at hmove
  split at hmove
  · next cursor channel delivery hpc =>
    split at hmove
    · next hroom =>
      obtain rfl := Option.some.inj hmove
      refine .sent hpc ?_ ?_
      · unfold Mpsc.slot at hroom
        split at hroom
        · assumption
        · cases hroom
      · cases delivery.item with
        | ok => exact Or.inl rfl
        | error => exact Or.inr rfl
    · cases hmove
    · obtain rfl := Option.some.inj hmove
      exact .closed hpc
  · cases hmove

theorem Watcher.Moves.of_advance {move : WatcherMove}
    (hmove : w.advance config space move = some w') :
    Watcher.Moves space w w' := by
  cases move with
  | receive => exact .of_receive hmove
  | forward => exact .of_forward hmove
  | subscribe =>
      simp only [Watcher.advance] at hmove
      split at hmove
      · next hpc _ =>
        obtain rfl := Option.some.inj hmove
        exact .opened hpc
      · next hpc _ =>
        obtain rfl := Option.some.inj hmove
        exact .refused hpc
      · cases hmove
  | pull =>
      simp only [Watcher.advance] at hmove
      split at hmove
      · next hpc =>
        obtain ⟨channel', hpull, rfl⟩ := Option.map_eq_some_iff.mp hmove
        exact .pulled hpc hpull
      · cases hmove
  | disconnect =>
      simp only [Watcher.advance] at hmove
      split at hmove
      · next hpc =>
        obtain rfl := Option.some.inj hmove
        exact .disconnected hpc
      · cases hmove

/-! ## What a stream delivers -/

/-- The client is connected, and the forwarding task runs. -/
def Watcher.isOpen (w : Watcher) : Bool :=
  match w.pc with
  | .streaming _ channel pc => channel.alive && pc != .ended
  | _ => false

/-- The message is about a tuple before the position `n` of the broadcast. -/
def Watcher.Reports (w : Watcher) (broadcast : List TupleRecord) (n : Nat)
    (d : Delivery) : Prop :=
  d.position < n ∧ ∃ tuple now, broadcast[d.position]? = some tuple ∧
    d.item = .ok (w.notice now tuple)

/-- The events that a stream has sent, or is about to, are about tuples before
the position `n` of the broadcast; what an open stream has not received yet, from
there on, it does not want. -/
structure Watcher.Within (n : Nat) (broadcast : List TupleRecord) (w : Watcher) :
    Prop where
  sent : ∀ cursor channel pc, w.pc = .streaming cursor channel pc →
    ∀ d ∈ channel.sent, d.IsEvent → w.Reports broadcast n d
  sending : ∀ cursor channel d, w.pc = .streaming cursor channel (.send d) →
    channel.alive = true → d.IsEvent → w.Reports broadcast n d
  ahead : ∀ cursor channel pc, w.pc = .streaming cursor channel pc →
    w.isOpen = true → ∀ p r, n ≤ p → cursor ≤ p → broadcast[p]? = some r →
      w.wants r = false

theorem Watcher.Reports.append {n' : Nat}
    {d : Delivery} (hreports : w.Reports broadcast n d) (hle : n ≤ n') :
    w.Reports (broadcast ++ sent) n' d := by
  obtain ⟨hlt, tuple, now, htuple, hitem⟩ := hreports
  refine ⟨hlt.trans_le hle, tuple, now, ?_, hitem⟩
  exact (List.getElem?_append_left
    (List.getElem?_eq_some_iff.mp htuple).1).trans htuple

theorem Watcher.Within.of_not_streaming
    (hpc : ∀ cursor channel pc, w.pc ≠ .streaming cursor channel pc) :
    w.Within n broadcast :=
  ⟨fun _ _ _ h => absurd h (hpc _ _ _), fun _ _ _ h => absurd h (hpc _ _ _),
    fun _ _ _ h => absurd h (hpc _ _ _)⟩

theorem Watcher.isOpen_iff {cursor : Nat} {channel : Mpsc Delivery}
    {pc : ForwardPc} (hpc : w.pc = .streaming cursor channel pc) :
    w.isOpen = true ↔ channel.alive = true ∧ pc ≠ .ended := by
  simp [Watcher.isOpen, hpc]

/-- The three parts at once, for a stream that stands at `cursor`. -/
theorem Watcher.within_goTo {cursor : Nat}
    {channel : Mpsc Delivery} {pc : ForwardPc}
    (hsent : ∀ d ∈ channel.sent, d.IsEvent → w.Reports broadcast n d)
    (hsending : channel.alive = true → ∀ d, pc = .send d → d.IsEvent →
      w.Reports broadcast n d)
    (hahead : channel.alive = true → pc ≠ .ended → ∀ p r, n ≤ p → cursor ≤ p →
      broadcast[p]? = some r → w.wants r = false) :
    (w.goTo (.streaming cursor channel pc)).Within n broadcast := by
  refine ⟨?_, ?_, ?_⟩
  · rintro _ _ _ ⟨⟩
    exact hsent
  · rintro _ _ d ⟨⟩ halive
    exact hsending halive d rfl
  · rintro _ _ _ ⟨⟩ hopen
    obtain ⟨halive, hpc⟩ := (isOpen_iff rfl).mp hopen
    exact hahead halive hpc

theorem Watcher.Moves.goTo (hmove : Watcher.Moves space w w') :
    ∃ pc, w' = w.goTo pc := by
  cases hmove <;> exact ⟨_, rfl⟩

theorem Watcher.Within.move (hwithin : w.Within n (space.shared.broadcast w.on))
    (hmove : Watcher.Moves space w w') :
    w'.Within n (space.shared.broadcast w.on) := by
  cases hmove with
  | opened hpc =>
      refine within_goTo ?_ ?_ ?_
      · intro d hd
        cases hd
      · rintro - d ⟨⟩
      · intro _ _ p r _ hp hr
        have hlt := (List.getElem?_eq_some_iff.mp hr).1
        exact absurd hp (Nat.not_le_of_lt hlt)
  | refused hpc => exact .of_not_streaming fun _ _ _ h => by cases h
  | @lagged cursor cursor' channel hpc hle =>
      refine within_goTo (hwithin.sent _ _ _ hpc) ?_ ?_
      · rintro - d ⟨⟩ ⟨notice, hnotice⟩
        cases hnotice
      · intro halive _ p r hn hp hr
        have hopen := (isOpen_iff hpc).mpr ⟨halive, by simp⟩
        exact hwithin.ahead _ _ _ hpc hopen p r hn (hle.trans hp) hr
  | @event cursor channel tuple now hpc htuple hwants =>
      have hahead := fun halive : channel.alive = true =>
        hwithin.ahead _ _ _ hpc ((isOpen_iff hpc).mpr ⟨halive, by simp⟩)
      refine within_goTo (hwithin.sent _ _ _ hpc) ?_ ?_
      · rintro halive d ⟨⟩ -
        refine ⟨?_, tuple, now, htuple, rfl⟩
        by_contra hn
        -- The tuple was wanted, so it stands before `n`.
        have hunwanted :=
          hahead halive cursor tuple (Nat.le_of_not_lt hn) le_rfl htuple
        rw [hwants] at hunwanted
        cases hunwanted
      · intro halive _ p r hn hp hr
        exact hahead halive p r hn (Nat.le_of_succ_le hp) hr
  | @skipped cursor channel hpc =>
      refine within_goTo (hwithin.sent _ _ _ hpc) ?_ ?_
      · rintro - d ⟨⟩
      · intro halive _ p r hn hp hr
        have hopen := (isOpen_iff hpc).mpr ⟨halive, by simp⟩
        exact hwithin.ahead _ _ _ hpc hopen p r hn (Nat.le_of_succ_le hp) hr
  | @sent cursor channel delivery pc hpc halive hnext =>
      refine within_goTo ?_ ?_ ?_
      · intro d hd hevent
        rcases List.mem_append.mp hd with hd | hd
        · exact hwithin.sent _ _ _ hpc d hd hevent
        · obtain rfl := List.mem_singleton.mp hd
          exact hwithin.sending _ _ _ hpc halive hevent
      · rintro - d rfl
        rcases hnext with hnext | hnext <;> cases hnext
      · intro _ _
        exact hwithin.ahead _ _ _ hpc ((isOpen_iff hpc).mpr ⟨halive, by simp⟩)
  | @closed cursor channel pc hpc =>
      refine within_goTo (hwithin.sent _ _ _ hpc) ?_ ?_
      · rintro - d ⟨⟩
      · intro _ hne
        exact absurd rfl hne
  | @pulled cursor channel channel' pc hpc hpull =>
      have halive : channel.alive = true := by
        unfold Mpsc.pull at hpull
        split at hpull
        · next hready => exact hready.1
        · cases hpull
      refine within_goTo ?_ ?_ ?_
      · rw [Mpsc.sent_pull hpull]
        exact hwithin.sent _ _ _ hpc
      · rintro - d rfl
        exact hwithin.sending _ _ _ hpc halive
      · intro _ hne
        exact hwithin.ahead _ _ _ hpc ((isOpen_iff hpc).mpr ⟨halive, hne⟩)
  | @disconnected cursor channel pc hpc =>
      have hsent := hwithin.sent _ _ _ hpc
      refine within_goTo hsent ?_ ?_
      · intro halive
        cases halive
      · intro halive
        cases halive

theorem Watcher.Within.append (hwithin : w.Within n broadcast)
    (hspares : w.isOpen = true → ∀ r ∈ sent, w.wants r = false) :
    w.Within n (broadcast ++ sent) := by
  refine ⟨fun _ _ _ hpc d hd hevent => ?_, fun _ _ _ hpc halive hevent => ?_,
    fun cursor channel pc hpc hopen p r hn hp hr => ?_⟩
  · exact (hwithin.sent _ _ _ hpc d hd hevent).append le_rfl
  · exact (hwithin.sending _ _ _ hpc halive hevent).append le_rfl
  · rw [List.getElem?_append] at hr
    split at hr
    · exact hwithin.ahead _ _ _ hpc hopen p r hn hp hr
    · exact hspares hopen r (List.mem_of_getElem? hr)

theorem Watcher.Within.grow (hwithin : w.Within broadcast.length broadcast) :
    w.Within (broadcast ++ sent).length (broadcast ++ sent) := by
  have hle : broadcast.length ≤ (broadcast ++ sent).length := by simp
  refine ⟨fun _ _ _ hpc d hd hevent => ?_, fun _ _ _ hpc halive hevent => ?_,
    fun _ _ _ _ _ p r hn _ hr => ?_⟩
  · exact (hwithin.sent _ _ _ hpc d hd hevent).append hle
  · exact (hwithin.sending _ _ _ hpc halive hevent).append hle
  · exact absurd hn (Nat.not_le_of_lt (List.getElem?_eq_some_iff.mp hr).1)

/-! ## Watches that have ended -/

/-- The lease of the watch, once the manager has answered. -/
def Watcher.leaseId (space : SpaceProc) (w : Watcher) : Option String :=
  match space.tasks[w.task]? with
  | some (.returned (.ok (.watch _ leaseId))) => some leaseId
  | _ => none

/-- `on_watch_expired` has run for the lease. -/
def watchExpired (log : List SpaceEvent) (leaseId : String) : Bool :=
  log.any fun
    | .store (.removeWatchByLease l) _ => l = leaseId
    | _ => false

instance (l : Landlord) (leaseId : String) : Decidable (l.Gone leaseId) :=
  inferInstanceAs (Decidable (_ ∧ _))

/-- The lease of the watch has been reclaimed, and `on_watch_expired` has run for
it. -/
def Watcher.ended (space : SpaceProc) (w : Watcher) : Bool :=
  match w.leaseId space with
  | none => false
  | some leaseId =>
      space.shared.landlord.Gone leaseId && watchExpired space.log leaseId

theorem Watcher.leaseId_step {config : SpaceConfig} {act : SpaceAct}
    {leaseId : String} (hstep : (spaceProgram config).step space act = some space')
    (hlease : w.leaseId space = some leaseId) :
    w.leaseId space' = some leaseId := by
  unfold Watcher.leaseId at hlease ⊢
  split at hlease
  · next hreturned => rwa [space_returned_step hstep hreturned]
  · cases hlease

theorem Watcher.ended_step {config : SpaceConfig} {act : SpaceAct}
    (hstep : (spaceProgram config).step space act = some space')
    (hended : w.ended space = true) : w.ended space' = true := by
  unfold Watcher.ended at hended
  split at hended
  · cases hended
  · next leaseId hlease =>
    rw [Bool.and_eq_true, decide_eq_true_eq] at hended
    have hgone := (space_later_step hstep).gone leaseId hended.1
    have hexpired : watchExpired space'.log leaseId = true := by
      obtain ⟨e, he, hremoved⟩ := List.any_eq_true.mp hended.2
      exact List.any_eq_true.mpr
        ⟨e, Program.log_subset_of_step hstep he, hremoved⟩
    simp [Watcher.ended, leaseId_step hstep hlease, hgone, hexpired]

/-- Nothing is broadcast that the open stream of a watch that has ended wants. -/
def sparesEnded (s : SpaceService) : ServiceAct → Bool
  | .space (.step j _) =>
      s.watchers.all fun w =>
        match s.space.tasks[j]?.bind (SpacePc.sends w.on) with
        | none => true
        | some r => !(w.ended s.space && w.isOpen && w.wants r)
  | _ => true

theorem not_wants_of_sparesEnded {s : SpaceService} {j : Nat}
    {choice : SpaceChoice} {pc : SpacePc} {r : TupleRecord}
    (hspares : sparesEnded s (.space (.step j choice)) = true)
    (hw : w ∈ s.watchers) (hended : w.ended s.space = true)
    (hpc : s.space.tasks[j]? = some pc) (hr : pc.sends w.on = some r)
    (hopen : w.isOpen = true) : w.wants r = false := by
  have hall := List.all_eq_true.mp hspares w hw
  simpa [hpc, hr, hended, hopen] using hall

end Watcher

/-! ## Runs of the service -/

namespace SpaceService

variable {config : WatchConfig} {s s' : SpaceService} {act : ServiceAct}

/-- A step of the service leaves a call of `Notify` as it is, or is a move of
it; the process of the Space goes on, or stands still. -/
theorem step_watcher {i : Nat} {w : Watcher}
    (hstep : step config s act = some s') (hw : s.watchers[i]? = some w) :
    (s'.space = s.space ∧ ∃ w', s'.watchers[i]? = some w' ∧
        (w' = w ∨ Watcher.Moves s.space w w')) ∨
      s'.watchers[i]? = some w ∧ ∃ spaceAct,
        (spaceProgram config.space).step s.space spaceAct = some s'.space ∧
        (act = .space spaceAct ∨ ∃ pc, spaceAct = .call pc) := by
  have hlt : i < s.watchers.length := (List.getElem?_eq_some_iff.mp hw).1
  cases act with
  | space spaceAct =>
      simp only [step] at hstep
      obtain ⟨space, hspace, rfl⟩ := Option.map_eq_some_iff.mp hstep
      exact Or.inr ⟨hw, spaceAct, hspace, Or.inl rfl⟩
  | notify req =>
      simp only [step] at hstep
      obtain ⟨space, hspace, rfl⟩ := Option.map_eq_some_iff.mp hstep
      exact Or.inr ⟨(List.getElem?_append_left hlt).trans hw, _, hspace,
        Or.inr ⟨_, rfl⟩⟩
  | watcher j move =>
      simp only [step] at hstep
      split at hstep
      · cases hstep
      · next wj hj =>
        obtain ⟨wj', hadv, rfl⟩ := Option.map_eq_some_iff.mp hstep
        refine Or.inl ⟨rfl, ?_⟩
        by_cases hij : j = i
        · subst hij
          obtain rfl := Option.some.inj (hw.symm.trans hj)
          exact ⟨wj', List.getElem?_set_self hlt, Or.inr (.of_advance hadv)⟩
        · exact ⟨w, (List.getElem?_set_ne hij).trans hw, Or.inl rfl⟩

theorem step_new_watcher {i : Nat} {w : Watcher}
    (hstep : step config s act = some s') (hw : s'.watchers[i]? = some w)
    (hnone : s.watchers[i]? = none) : w.pc = .notifying := by
  cases act with
  | space spaceAct =>
      simp only [step] at hstep
      obtain ⟨space, -, rfl⟩ := Option.map_eq_some_iff.mp hstep
      rw [hnone] at hw
      cases hw
  | notify req =>
      simp only [step] at hstep
      obtain ⟨space, -, rfl⟩ := Option.map_eq_some_iff.mp hstep
      have hge := List.getElem?_eq_none_iff.mp hnone
      rw [List.getElem?_append_right hge] at hw
      obtain rfl := List.mem_singleton.mp (List.mem_of_getElem? hw)
      rfl
  | watcher j move =>
      simp only [step] at hstep
      split at hstep
      · cases hstep
      · obtain ⟨wj, -, rfl⟩ := Option.map_eq_some_iff.mp hstep
        have hge := List.getElem?_eq_none_iff.mp hnone
        rw [List.getElem?_eq_none (by simpa using hge)] at hw
        cases hw

/-- What the streams have delivered stands on the broadcasts. -/
def Forwarding (s : SpaceService) : Prop :=
  ∀ (i : Nat) (w : Watcher), s.watchers[i]? = some w →
    w.Within (s.space.shared.broadcast w.on).length
      (s.space.shared.broadcast w.on)

theorem Forwarding.step (hforward : s.Forwarding)
    (hstep : step config s act = some s') : s'.Forwarding := by
  intro i w' hw'
  cases hw : s.watchers[i]? with
  | none =>
      have hpc := step_new_watcher hstep hw' hw
      exact .of_not_streaming fun _ _ _ h => by rw [hpc] at h; cases h
  | some w =>
      have hwithin := hforward i w hw
      rcases step_watcher hstep hw with
        ⟨hspace, w₁, hw₁, hmoved⟩ | ⟨hsame, spaceAct, hspace, -⟩
      · obtain rfl := Option.some.inj (hw₁.symm.trans hw')
        rw [hspace]
        rcases hmoved with rfl | hmove
        · exact hwithin
        · obtain ⟨pc, rfl⟩ := hmove.goTo
          exact hwithin.move hmove
      · obtain rfl := Option.some.inj (hsame.symm.trans hw')
        obtain ⟨sent, hsent, -⟩ := space_broadcast_step hspace w.on
        rw [hsent]
        exact hwithin.grow

theorem forwarding_of_reachable (hreach : Reachable (step config) new s) :
    s.Forwarding := by
  refine Reachable.invariant (P := Forwarding) ?_ ?_ hreach
  · intro i w hw
    cases hw
  · intro s act s' _ hforward hstep
    exact hforward.step hstep

/-- The watch of the call `i` has ended, and its stream stays before the position
`n`. -/
def Silent (i : Nat) (on : SpaceEventKind) (n : Nat) (s : SpaceService) : Prop :=
  ∃ w, s.watchers[i]? = some w ∧ w.on = on ∧ w.ended s.space = true ∧
    w.Within n (s.space.shared.broadcast on)

theorem Silent.step {i n : Nat} {on : SpaceEventKind} (hsilent : Silent i on n s)
    (hspares : sparesEnded s act = true)
    (hstep : SpaceService.step config s act = some s') : Silent i on n s' := by
  obtain ⟨w, hw, rfl, hended, hwithin⟩ := hsilent
  rcases step_watcher hstep hw with
    ⟨hspace, w', hw', hmoved⟩ | ⟨hsame, spaceAct, hspace, hact⟩
  · refine ⟨w', hw', ?_⟩
    rw [hspace]
    rcases hmoved with rfl | hmove
    · exact ⟨rfl, hended, hwithin⟩
    · have hmoved := hwithin.move hmove
      obtain ⟨pc, rfl⟩ := hmove.goTo
      exact ⟨rfl, hended, hmoved⟩
  · refine ⟨w, hsame, rfl, Watcher.ended_step hspace hended, ?_⟩
    obtain ⟨sent, hsent, hsender⟩ := space_broadcast_step hspace w.on
    rw [hsent]
    refine hwithin.append fun hopen r hr => ?_
    obtain ⟨j, choice, pc, rfl, hpc, hsends⟩ := hsender r hr
    rcases hact with rfl | ⟨pc', hcall⟩
    · exact not_wants_of_sparesEnded hspares (List.mem_of_getElem? hw) hended
        hpc hsends hopen
    · cases hcall

end SpaceService

/-- What the client has got. -/
def Watcher.delivered (w : Watcher) : List Delivery :=
  match w.pc with
  | .streaming _ channel _ => channel.pulled
  | _ => []

/-- Take any run in which nothing is broadcast that the open stream of a watch
that has ended wants.  Once a watch has ended, every event on its stream is about
a tuple that was broadcast before. -/
theorem watch_ends_with_lease {config : WatchConfig}
    {before after : List ServiceAct} {s₁ s₂ : SpaceService} {i : Nat}
    {w₁ w₂ : Watcher}
    (hbefore : run (SpaceService.step config) .new before = some s₁)
    (hafter : run (SpaceService.step config) s₁ after = some s₂)
    (hmeet : StepsMeet (SpaceService.step config)
      (fun s act => sparesEnded s act = true) s₁ after)
    (hw₁ : s₁.watchers[i]? = some w₁) (hended : w₁.ended s₁.space = true)
    (hw₂ : s₂.watchers[i]? = some w₂) :
    ∀ d ∈ w₂.delivered, d.IsEvent →
      w₂.Reports (s₂.space.shared.broadcast w₂.on)
        (s₁.space.shared.broadcast w₁.on).length d := by
  have hforward := SpaceService.forwarding_of_reachable ⟨before, hbefore⟩
  have hsilent : SpaceService.Silent i w₁.on
      (s₁.space.shared.broadcast w₁.on).length s₂ := by
    refine run_invariant_of_stepsMeet
      (P := SpaceService.Silent i w₁.on
        (s₁.space.shared.broadcast w₁.on).length) ?_ ?_ hafter hmeet
    · exact ⟨w₁, hw₁, rfl, hended, hforward i w₁ hw₁⟩
    · intro s act s' _ hsilent hspares hstep
      exact hsilent.step hspares hstep
  obtain ⟨w, hw, hon, -, hwithin⟩ := hsilent
  obtain rfl := Option.some.inj (hw.symm.trans hw₂)
  rw [hon]
  intro d hd hevent
  unfold Watcher.delivered at hd
  split at hd
  · next hpc =>
    exact hwithin.sent _ _ _ hpc d (List.mem_of_mem_take hd) hevent
  · cases hd

/-! ## A watch for soup -/

def kitchenBell : WatchConfig where
  space := quietSpace
  expiryCapacity := 256

def soupWatch : NotifyRequest where
  template := (∅ : Attrs).insert "dish" "soup"
  on := 0
  ttlSeconds := 60
  handback := []

def course (name : String) : WriteRequest where
  attrs := (∅ : Attrs).insert "dish" name
  payload := []
  ttlSecs := 300
  writtenBy := "cook"
  inputTupleId := none
  txnId := none

def openWatch : List ServiceAct :=
  [.notify soupWatch, .space (.step 0 (.uuids "w" "lw")), .space (.step 0 .go),
    .watcher 0 .subscribe]

def serveCourse (task : Nat) (name id leaseId : String) : List ServiceAct :=
  [.space (.call (.write (course name))),
    .space (.step task (.uuids id leaseId)), .space (.step task .go),
    .space (.step task .go)]

/-- A minute passes; the reaper removes the lease, and the handler the watch. -/
def endWatch (sweep handler : Nat) : List ServiceAct :=
  [.space (.ambient (.tick (60 * 10 ^ 9))),
    .space (.call (.lease .drainExpired)),
    .space (.step sweep (.lease (.order .sorted))),
    .space (.step sweep (.lease .go)), .space (.step sweep (.lease .go)),
    .space (.step sweep (.lease .go)), .space (.step sweep (.lease .go)),
    .space (.ambient .cascade), .space (.step handler .go)]

def soupOver : SpaceService :=
  (run (SpaceService.step kitchenBell) .new
    (openWatch ++ serveCourse 1 "soup" "1" "l" ++ endWatch 2 3)).get
    (by decide +kernel)

/-- The client takes what was broadcast before; bread, it does not want. -/
def lastSoup : List ServiceAct :=
  serveCourse 4 "bread" "2" "m" ++
    [.watcher 0 .receive, .watcher 0 .forward, .watcher 0 .pull,
      .watcher 0 .receive]

def soupFetched : SpaceService :=
  (run (SpaceService.step kitchenBell) soupOver lastSoup).get (by decide +kernel)

def soupClient : Watcher :=
  soupFetched.watchers[0]?.get (by decide +kernel)

theorem watch_ends_with_lease_soup :
    soupClient.delivered.map Delivery.position = [0] ∧
      ∀ d ∈ soupClient.delivered, d.IsEvent →
        soupClient.Reports soupFetched.space.shared.tupleTx 1 d := by
  have hbefore : run (SpaceService.step kitchenBell) .new
      (openWatch ++ serveCourse 1 "soup" "1" "l" ++ endWatch 2 3) =
      some soupOver := (Option.some_get _).symm
  have hafter : run (SpaceService.step kitchenBell) soupOver lastSoup =
      some soupFetched := (Option.some_get _).symm
  have hmeet : StepsMeet (SpaceService.step kitchenBell)
      (fun s act => sparesEnded s act = true) soupOver lastSoup := by
    decide +kernel
  have hfirst : soupOver.watchers[0]? =
      some (soupOver.watchers[0]?.get (by decide +kernel)) :=
    (Option.some_get _).symm
  have hlast : soupFetched.watchers[0]? = some soupClient :=
    (Option.some_get _).symm
  exact ⟨by decide +kernel, watch_ends_with_lease hbefore hafter hmeet hfirst
    (by decide +kernel) hlast⟩

def watchOver : SpaceService :=
  (run (SpaceService.step kitchenBell) .new (openWatch ++ endWatch 1 2)).get
    (by decide +kernel)

/-- Soup is served when the watch has ended. -/
def soupAfterwards : List ServiceAct :=
  serveCourse 3 "soup" "1" "l" ++
    [.watcher 0 .receive, .watcher 0 .forward, .watcher 0 .pull]

def soupDelivered : SpaceService :=
  (run (SpaceService.step kitchenBell) watchOver soupAfterwards).get
    (by decide +kernel)

/-- The watch has ended and is no longer in the store; a tuple written later is
delivered all the same. -/
theorem stream_outlives_watch :
    run (SpaceService.step kitchenBell) .new (openWatch ++ endWatch 1 2) =
        some watchOver ∧
      watchOver.watchers.map (Watcher.ended watchOver.space) = [true] ∧
      watchOver.space.shared.store.watches.isEmpty = true ∧
      watchOver.space.shared.tupleTx = [] ∧
      run (SpaceService.step kitchenBell) watchOver soupAfterwards =
        some soupDelivered ∧
      soupDelivered.watchers.map (fun w => w.delivered.map fun d =>
          (d.position, d.item.map fun notice => notice.tuple.tupleId)) =
        [[(0, .ok "1")]] :=
  ⟨(Option.some_get _).symm, by decide +kernel, by decide +kernel,
    by decide +kernel, (Option.some_get _).symm, by decide +kernel⟩

end Coordin8
