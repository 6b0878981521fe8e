import Coordin8.Event.Wakeup

/-!
# Subscriptions that have ended

A subscription that is cancelled, or whose lease is reclaimed, leaves the store
together with its mailbox, and neither comes back.  A durable stream reads the
mailbox, so it has nothing more to send than what it holds already.  A
best-effort stream reads the broadcast of events, where nothing is known of
subscriptions, and goes on.  What it delivers afterwards was emitted before, as
long as no event that it wants is broadcast while its client is connected.
-/

namespace Coordin8

open Support Support.DashMap EventPc

namespace EventPc

/-- The events that a call holds. -/
def carried : EventPc → List EventRecord
  | .emitList event | .emitEnqueue event _ _ _ | .emitSend event _
  | .bestEffortSend _ event => [event]
  | .durableSend _ event batch | .durableReserve _ event batch
  | .durableAck _ event batch => event :: batch
  | _ => []

/-- The stream of a call that forwards the broadcast. -/
def listening : EventPc → Option EventStream
  | .bestEffort st | .bestEffortSend st _ => some st
  | _ => none

end EventPc

/-- The client of a channel is connected. -/
def EventHost.aliveOn (h : EventHost) (c : Nat) : Bool :=
  h.channels[c]?.any fun ch => ch.queue.alive

/-! ## What a call holds after a move -/

section Carried

variable {config : EventConfig} {i : Nat} {h h' : EventHost}
  {pc pc' : EventPc} {events : List EventLog} {e : EventRecord}
  {op : EventOp} {result : op.Result} {next : op.Result → EventPc}

theorem carried_of_emitting {event : EventRecord}
    (hpc : pc.emitting = some event) : pc.carried = [event] := by
  cases pc with
  | emitEnqueue | emitSend =>
      cases hpc
      rfl
  | _ => cases hpc

theorem carried_of_entry (hentry : pc.entry = true) : pc.carried = [] := by
  cases pc <;> first | rfl | cases hentry

theorem EventResume.carried (hres : EventResume pc op result pc')
    (he : e ∈ pc'.carried) :
    e ∈ pc.carried ∨ ∃ st n k batch, pc.stream? = some st ∧
      (⟨op, result⟩ : (op : EventOp) × op.Result) =
        ⟨.peek st.sub.registrationId n k, .ok batch⟩ ∧ e ∈ batch := by
  cases hres with
  | @backlog st batch | @read st batch =>
      cases batch with
      | nil => cases he
      | cons first batch => exact Or.inr ⟨st, _, _, _, rfl, rfl, he⟩
  | @acked st event batch =>
      cases batch with
      | nil => cases he
      | cons first batch => exact Or.inl (List.mem_cons_of_mem _ he)
  | @listed event subs =>
      rw [carried_of_emitting (enqueueNext_emitting [] subs)] at he
      exact Or.inl he
  | enqueued =>
      rw [carried_of_emitting afterEnqueue_emitting] at he
      exact Or.inl he
  | ended | streamFailed | found | cancelling | removed | renewing => cases he

theorem EventMove.carried (hmove : EventMove config i h pc h' pc' events)
    (he : e ∈ pc'.carried) :
    e ∈ pc.carried ∨ e ∈ h.eventTx ∨ pc' = .emitList e := by
  cases hmove with
  | opened =>
      unfold opening at he
      split at he <;> cases he
  | @bestEffort st received position hrecv =>
      unfold afterBroadcast at he
      split at he
      · split at he
        · obtain rfl := List.mem_singleton.mp he
          exact Or.inr (Or.inl (mem_of_recv hrecv))
        · cases he
      · cases he
  | @wakeup st received position hrecv =>
      unfold afterWakeup at he
      split at he
      · split at he <;> cases he
      · cases he
  | @sent pc next c item ch hsending hch hroom =>
      cases pc with
      | bestEffortSend | sendError =>
          cases hsending
          cases he
      | durableSend =>
          cases hsending
          exact Or.inl he
      | _ => cases hsending
  | reserved => exact Or.inl he
  | drawEvent =>
      obtain rfl := List.mem_singleton.mp he
      exact Or.inr (Or.inr rfl)
  | _ => cases he

/-- What is sent on a channel, the stream of the channel held, and its client is
connected. -/
theorem EventMove.sent_cases (hmove : EventMove config i h pc h' pc' events)
    {c : Nat} {m : EventMessage} (hm : .ok m ∈ h'.sentOn c) :
    .ok m ∈ h.sentOn c ∨ ∃ st, pc.stream? = some st ∧ st.channel = c ∧
      h.aliveOn c = true ∧ ∃ e ∈ pc.carried, m.eventId = e.eventId := by
  by_cases hc : pc.channel = some c
  · cases hmove with
    | @sent pc next d item ch hsending hch hroom =>
        have halive : h.aliveOn d = true := by
          unfold Mpsc.slot at hroom
          split at hroom
          · next halive => simpa [EventHost.aliveOn, hch] using halive
          · cases hroom
        rw [EventHost.sentOn_setQueue hch] at hm
        split at hm
        · next heq =>
          subst heq
          rcases List.mem_append.mp hm with hm | hm
          · exact Or.inl (EventHost.sentOn_eq hch ▸ hm)
          · have hitem := List.mem_singleton.mp hm
            cases pc with
            | bestEffortSend st event | durableSend st event batch =>
                cases hsending
                cases hitem
                exact Or.inr ⟨st, rfl, rfl, halive, event, List.mem_cons_self,
                  rfl⟩
            | sendError =>
                cases hsending
                cases hitem
            | _ => cases hsending
        · exact Or.inl hm
    | opened => cases hc
    | _ => exact Or.inl hm
  · rw [hmove.sentOn_eq hc] at hm
    exact Or.inl hm

theorem EventResume.ne_emitList (hres : EventResume pc op result pc') :
    pc' ≠ .emitList e := by
  have hemitting : ∀ {pc' : EventPc} {event : EventRecord},
      pc'.emitting = some event → pc' ≠ .emitList e := by
    rintro pc' event hpc' rfl
    cases hpc'
  cases hres with
  | @backlog st batch | @read st batch | @acked st event batch =>
      cases batch <;> exact fun heq => by cases heq
  | @listed event subs => exact hemitting (enqueueNext_emitting [] subs)
  | enqueued => exact hemitting afterEnqueue_emitting
  | ended | streamFailed | found | cancelling | removed | renewing =>
      exact fun heq => by cases heq

theorem EventMove.of_emitList
    (hmove : EventMove config i h pc h' (.emitList e) events) :
    ∃ req, pc = .emit req := by
  rcases hmove.target_cases with hc | ⟨_, heq⟩ | ⟨req, _, hpc, -⟩ |
    ⟨_, _, heq, -⟩ | ⟨_, heq | heq⟩
  · cases hc
  · cases heq
  · exact ⟨req, hpc⟩
  all_goals cases heq

theorem drawn_of_emitList {h h' : LocalEventHost} {choice : LocalEventChoice}
    (hadv : localEventAdvance config i h pc choice =
      some (h', .emitList e, events)) :
    e.eventId ∈ h'.host.landlord.uuids := by
  have hemit : ∃ req, pc = .emit req := by
    rcases localEventAdvance_cases hadv with
      ⟨it, op, next, result, store, hreq, -, -, hpc', -⟩ | ⟨host, hmove, -⟩
    · exact absurd hpc'.symm (EventResume.of_request hreq result).ne_emitList
    · exact hmove.of_emitList
  obtain ⟨req, rfl⟩ := hemit
  cases choice with
  | store it => cases hadv
  | manager choice =>
      cases choice with
      | uuid id =>
          simp only [localEventAdvance, EventPc.advance] at hadv
          by_cases hid : id ∈ h.host.landlord.uuids
          · rw [if_pos hid] at hadv
            cases hadv
          · rw [if_neg hid] at hadv
            cases hadv
            exact List.mem_cons_self
      | _ => cases hadv

end Carried

/-! ## Every event has an identifier that was drawn -/

/-- The events on the broadcast, on the channels and in the mailboxes. -/
structure EventsDrawn (h : LocalEventHost) (log : List EventLog) (_ : Nat) :
    Prop where
  broadcast : ∀ e ∈ h.host.eventTx, e.eventId ∈ h.host.landlord.uuids
  sent : ∀ c m, .ok m ∈ h.host.sentOn c → m.eventId ∈ h.host.landlord.uuids
  enqueued : ∀ reg e n, Enqueued log reg e n → e.eventId ∈ h.host.landlord.uuids

def CarriesDrawn (h : LocalEventHost) (_ : List EventLog) (_ : Nat)
    (pc : EventPc) : Prop :=
  ∀ e ∈ pc.carried, e.eventId ∈ h.host.landlord.uuids

section Drawn

variable {config : EventConfig} {i n : Nat} {h : LocalEventHost}
  {pc pc' : EventPc} {log events : List EventLog} {op : EventOp}
  {result : op.Result} {next : op.Result → EventPc}
  {it : SubscriptionIteration} {store : InMemoryEventStore} {host : EventHost}

theorem EventsDrawn.peek (hdrawn : EventsDrawn h log n)
    (hposted : Posted h.store log) {reg : String} {m k : Nat} {e : EventRecord}
    (he : e ∈ h.store.peek reg m k) : e.eventId ∈ h.host.landlord.uuids := by
  obtain ⟨event, henq, heq⟩ := hposted.filed_of_mem_peek he
  have hid := hdrawn.enqueued reg event _ henq
  rw [heq]
  exact hid

theorem EventsDrawn.exec (hdrawn : EventsDrawn h log n)
    (hcarries : CarriesDrawn h log i pc)
    (hreq : pc.request = some ⟨op, next⟩) :
    EventsDrawn { h with store := store } (log ++ [.store i op result]) n := by
  refine ⟨hdrawn.broadcast, hdrawn.sent, fun reg e m henq => ?_⟩
  rcases enqueued_append_store.mp henq with henq | heq
  · exact hdrawn.enqueued reg e m henq
  · cases heq
    cases pc with
    | emitEnqueue event sub todo failures =>
        cases hreq
        exact hcarries _ List.mem_cons_self
    | _ => cases hreq

theorem CarriesDrawn.exec (hcarries : CarriesDrawn h log i pc)
    (hdrawn : EventsDrawn h log n) (hposted : Posted h.store log)
    (hreq : pc.request = some ⟨op, next⟩)
    (hexec : h.store.exec it op = (result, store)) :
    CarriesDrawn { h with store := store } (log ++ [.store i op result]) i
      (next result) := by
  intro e he
  rcases (EventResume.of_request hreq result).carried he with
    hold | ⟨st, m, k, batch, -, heq, hread⟩
  · exact hcarries e hold
  · cases heq
    obtain ⟨hbatch, -⟩ := Prod.mk.inj hexec
    obtain rfl := Except.ok.inj hbatch
    exact hdrawn.peek hposted hread

theorem EventsDrawn.move (hdrawn : EventsDrawn h log n)
    (hcarries : CarriesDrawn h log i pc)
    (hmove : EventMove config i h.host pc host pc' events) :
    EventsDrawn { h with host := host } (log ++ events) n := by
  have huuids := hmove.grows.uuids
  refine ⟨fun e he => ?_, fun c m hm => ?_, fun reg e m henq => ?_⟩
  · rcases hmove.eventTx_cases with heq | ⟨event, failures, rfl, -, heq⟩
    · rw [heq] at he
      exact huuids (hdrawn.broadcast e he)
    · rw [heq] at he
      rcases List.mem_append.mp he with he | he
      · exact huuids (hdrawn.broadcast e he)
      · obtain rfl := List.mem_singleton.mp he
        exact huuids (hcarries e List.mem_cons_self)
  · rcases hmove.sent_cases hm with hm | ⟨st, -, -, -, e, he, hid⟩
    · exact huuids (hdrawn.sent c m hm)
    · rw [hid]
      exact huuids (hcarries e he)
  · obtain ⟨j, hj⟩ := henq
    rcases List.mem_append.mp hj with hj | hj
    · exact huuids (hdrawn.enqueued reg e m ⟨j, hj⟩)
    · cases hmove <;> simp at hj

end Drawn

theorem eventsDrawn_keeps (config : EventConfig) :
    (localEventProgram config).Keeps LocalEventProc.new EventsDrawn
      CarriesDrawn where
  init := by
    refine ⟨⟨?_, ?_, ?_⟩, ?_⟩ <;>
      simp [LocalEventProc.new, EventHost.new, EventHost.sentOn, Enqueued]
  call := by
    intro s pc _ _ hentry hdrawn
    refine ⟨⟨hdrawn.broadcast, hdrawn.sent, hdrawn.enqueued⟩, fun e he => ?_⟩
    rw [carried_of_entry hentry] at he
    cases he
  step := by
    intro s i pc choice h' pc' events hreach _ hi hadv hdrawn hcarries
    have hreach : LocalEventReachable config s := hreach
    rcases localEventAdvance_cases hadv with
      ⟨it, op, next, result, store, hreq, hexec, rfl, rfl, rfl⟩ |
      ⟨host, hmove, rfl⟩
    · exact ⟨hdrawn.exec (hcarries i pc hi) hreq,
        (hcarries i pc hi).exec hdrawn hreach.tally.posted hreq hexec,
        fun j pcj _ hj => hcarries j pcj hj⟩
    · have huuids := hmove.grows.uuids
      refine ⟨hdrawn.move (hcarries i pc hi) hmove, fun e he => ?_,
        fun j pcj _ hj e he => huuids (hcarries j pcj hj e he)⟩
      rcases hmove.carried he with he | he | rfl
      · exact huuids (hcarries i pc hi e he)
      · exact huuids (hdrawn.broadcast e he)
      · exact drawn_of_emitList hadv
  ambient := by
    intro s event h' spawned _ _ hamb hdrawn hcarries
    obtain ⟨⟨host, spawned'⟩, hhost, heq⟩ := Option.map_eq_some_iff.mp hamb
    cases heq
    obtain ⟨hgrows, hsent, heventTx, hspawned⟩ := EventHost.ambient_cases hhost
    have huuids := hgrows.uuids
    refine ⟨⟨fun e he => ?_, fun c m hm => ?_, fun reg e n henq => ?_⟩,
      fun k pc hk e he => ?_, fun j pc hj e he => ?_⟩
    · exact huuids (hdrawn.broadcast e (heventTx ▸ he))
    · exact huuids (hdrawn.sent c m (hsent c ▸ hm))
    · exact huuids (hdrawn.enqueued reg e n henq)
    · obtain ⟨leaseId, rfl⟩ := hspawned pc (List.mem_of_getElem? hk)
      cases he
    · exact huuids (hcarries j pc hj e he)

/-! ## Clients that disconnect do not come back -/

section Alive

variable {config : EventConfig} {i c : Nat} {h h' : EventHost}
  {pc pc' : EventPc} {events : List EventLog}

theorem EventHost.aliveOn_setQueue {ch : EventChannel} {d : Nat}
    {queue : Mpsc (Except Status EventMessage)}
    (hch : h.channels[c]? = some ch)
    (hqueue : queue.alive = true → ch.queue.alive = true)
    (halive : (h.setQueue c ch queue).aliveOn d = true) :
    h.aliveOn d = true := by
  unfold EventHost.aliveOn at halive ⊢
  rw [getElem?_setQueue hch] at halive
  split at halive
  · next hd =>
    subst hd
    rw [hch]
    exact hqueue halive
  · exact halive

theorem EventMove.aliveOn (hmove : EventMove config i h pc h' pc' events)
    (hc : c < h.channels.length) (halive : h'.aliveOn c = true) :
    h.aliveOn c = true := by
  cases hmove with
  | opened =>
      unfold EventHost.aliveOn at halive ⊢
      rwa [EventHost.getElem?_openChannel_of_lt hc] at halive
  | sent _ hch _ =>
      refine EventHost.aliveOn_setQueue hch ?_ halive
      exact id
  | _ => exact halive

theorem EventHost.aliveOn_ambient {event : EventAmbient}
    {spawned : List EventPc}
    (hamb : h.ambient config event = some (h', spawned))
    (halive : h'.aliveOn c = true) : h.aliveOn c = true := by
  cases event with
  | tick d =>
      cases hamb
      exact halive
  | cascade =>
      simp only [EventHost.ambient] at hamb
      split at hamb <;> cases hamb <;> exact halive
  | pull d =>
      simp only [EventHost.ambient] at hamb
      split at hamb
      · cases hamb
      · next ch hch =>
        obtain ⟨queue, hpull, heq⟩ := Option.map_eq_some_iff.mp hamb
        cases heq
        refine aliveOn_setQueue hch (fun _ => ?_) halive
        unfold Mpsc.pull at hpull
        split at hpull
        · next hready => exact hready.1
        · cases hpull
  | disconnect d =>
      simp only [EventHost.ambient] at hamb
      split at hamb
      · cases hamb
      · next ch hch =>
        cases hamb
        exact aliveOn_setQueue hch (fun hdead => by cases hdead) halive

end Alive

/-! ## The streams of a registration that is gone -/

/-- The registration is gone, and what was sent on its channels is old. -/
structure RanDry (reg : String) (old : List String) (h : LocalEventHost)
    (log : List EventLog) (_ : Nat) : Prop where
  created : ∃ sub, Created log sub ∧ sub.registrationId = reg
  gone : h.store.mailboxes[reg]? = none
  sent : ∀ c, h.host.registrationOf c = some reg →
    ∀ m, .ok m ∈ h.host.sentOn c → m.eventId ∈ old

/-- A stream of the registration with a client holds old events, and what it has
not received yet from the broadcast is old or not wanted. -/
structure RunsDry (reg : String) (old : List String) (h : LocalEventHost)
    (_ : List EventLog) (_ : Nat) (pc : EventPc) : Prop where
  carries : ∀ st, pc.stream? = some st → st.sub.registrationId = reg →
    h.host.aliveOn st.channel = true → ∀ e ∈ pc.carried, e.eventId ∈ old
  ahead : ∀ st, pc.listening = some st → st.sub.registrationId = reg →
    h.host.aliveOn st.channel = true → ∀ (p : Nat) e, st.position ≤ p →
      h.host.eventTx[p]? = some e → e.eventId ∈ old ∨ st.sub.Wants e = false

section Dry

variable {config : EventConfig} {reg : String} {old : List String} {i j n : Nat}
  {h : LocalEventHost} {pc pc' pcj : EventPc} {log events : List EventLog}
  {op : EventOp} {result : op.Result} {next : op.Result → EventPc}
  {it : SubscriptionIteration} {store : InMemoryEventStore} {host : EventHost}
  {st : EventStream}

theorem RunsDry.of_idle (hpc : pc.stream? = none) :
    RunsDry reg old h log i pc := by
  refine ⟨fun st hst => ?_, fun st hst => ?_⟩
  · rw [hpc] at hst
    cases hst
  · cases pc with
    | bestEffort | bestEffortSend => cases hpc
    | _ => cases hst

theorem RunsDry.of_empty (hcarried : pc.carried = [])
    (hlistening : pc.listening = none) : RunsDry reg old h log i pc := by
  refine ⟨fun st _ _ _ e he => ?_, fun st hst => ?_⟩
  · rw [hcarried] at he
    cases he
  · rw [hlistening] at hst
    cases hst

theorem EventDebt.streaming (hdebt : EventDebt h log i pc)
    (hst : pc.stream? = some st) : Streaming h.host log i st := by
  cases pc with
  | receivePeek | bestEffort | bestEffortSend | durablePeek | durableWait =>
      cases hst
      exact hdebt
  | durableSend | durableReserve | durableAck =>
      cases hst
      exact hdebt.1
  | _ => cases hst

/-- A call of the store leaves the stream as it is, up to its cursor, and is not
one of a stream on the broadcast. -/
theorem EventResume.stream (hres : EventResume pc op result pc') :
    pc'.listening = none ∧
      ∀ st', pc'.stream? = some st' → ∃ st, pc.stream? = some st ∧
        st'.sub = st.sub ∧ st'.channel = st.channel := by
  have hnone : ∀ {pc' : EventPc}, pc'.listening = none → pc'.stream? = none →
      pc'.listening = none ∧ ∀ st', pc'.stream? = some st' →
        ∃ st, pc.stream? = some st ∧ st'.sub = st.sub ∧
          st'.channel = st.channel := by
    intro pc' hlistening hstream
    refine ⟨hlistening, fun st' hst' => ?_⟩
    rw [hstream] at hst'
    cases hst'
  have hemitting : ∀ {pc' : EventPc} {event : EventRecord},
      pc'.emitting = some event →
      pc'.listening = none ∧ ∀ st', pc'.stream? = some st' →
        ∃ st, pc.stream? = some st ∧ st'.sub = st.sub ∧
          st'.channel = st.channel := by
    intro pc' event hpc'
    cases pc' with
    | emitEnqueue | emitSend => exact hnone rfl rfl
    | _ => cases hpc'
  cases hres with
  | @backlog st batch | @read st batch | @acked st event batch =>
      cases batch <;>
        exact ⟨rfl, fun st' hst' => ⟨st, rfl, by cases hst'; exact ⟨rfl, rfl⟩⟩⟩
  | @listed event subs => exact hemitting (enqueueNext_emitting [] subs)
  | enqueued => exact hemitting afterEnqueue_emitting
  | ended | streamFailed | found | cancelling | removed | renewing =>
      exact hnone rfl rfl

theorem RanDry.exec (hdry : RanDry reg old h log n)
    (htally : EventTally h log n) (hdebt : EventDebt h log i pc)
    (hreq : pc.request = some ⟨op, next⟩)
    (hexec : h.store.exec it op = (result, store)) :
    RanDry reg old { h with store := store } (log ++ [.store i op result]) n := by
  obtain ⟨sub, hcreated, rfl⟩ := hdry.created
  refine ⟨⟨sub, hcreated.append, rfl⟩, ?_, hdry.sent⟩
  exact goneStays_exec (hdebt.lawful htally hreq) hexec sub hcreated hdry.gone

theorem RunsDry.exec (hruns : RunsDry reg old h log i pc)
    (hdry : RanDry reg old h log n) (hreq : pc.request = some ⟨op, next⟩)
    (hexec : h.store.exec it op = (result, store)) :
    RunsDry reg old { h with store := store } (log ++ [.store i op result]) i
      (next result) := by
  have hres := EventResume.of_request hreq result
  obtain ⟨hlistening, hstream⟩ := hres.stream
  refine ⟨fun st' hst' hreg halive e he => ?_, fun st' hst' => ?_⟩
  · obtain ⟨st, hst, hsub, hchannel⟩ := hstream st' hst'
    rw [hsub] at hreg
    rw [hchannel] at halive
    rcases hres.carried he with
      hold | ⟨st₀, m, k, batch, hst₀, heq, hread⟩
    · exact hruns.carries st hst hreg halive e hold
    · obtain rfl := Option.some.inj (hst.symm.trans hst₀)
      cases heq
      obtain ⟨hbatch, -⟩ := Prod.mk.inj hexec
      obtain rfl := Except.ok.inj hbatch
      rw [InMemoryEventStore.peek, hreg, hdry.gone] at hread
      cases hread
  · rw [hlistening] at hst'
    cases hst'

theorem EventHost.registrationOf_of_sent {h : EventHost} {c : Nat}
    {item : Except Status EventMessage} (hitem : item ∈ h.sentOn c) :
    ∃ r, h.registrationOf c = some r := by
  unfold EventHost.sentOn at hitem
  unfold EventHost.registrationOf
  cases hch : h.channels[c]? with
  | none =>
      rw [hch] at hitem
      cases hitem
  | some ch => exact ⟨_, rfl⟩

theorem RanDry.move (hdry : RanDry reg old h log n)
    (hruns : RunsDry reg old h log i pc) (hdebt : EventDebt h log i pc)
    (hmove : EventMove config i h.host pc host pc' events) :
    RanDry reg old { h with host := host } (log ++ events) n := by
  have hgrows := hmove.grows
  obtain ⟨sub, hcreated, hsub⟩ := hdry.created
  refine ⟨⟨sub, hcreated.append, hsub⟩, hdry.gone, fun c hc m hm => ?_⟩
  rcases hmove.sent_cases hm with hm | ⟨st, hst, rfl, halive, e, he, hid⟩
  · obtain ⟨r, hr⟩ := EventHost.registrationOf_of_sent hm
    obtain rfl := Option.some.inj ((hgrows.registrationOf c r hr).symm.trans hc)
    exact hdry.sent c hr m hm
  · have hregistered := (hdebt.streaming hst).registered
    have hreg := Option.some.inj
      ((hgrows.registrationOf _ _ hregistered).symm.trans hc)
    rw [hid]
    exact hruns.carries st hst hreg halive e he

theorem RunsDry.receive {received : Recv EventRecord} {position : Nat}
    (hruns : RunsDry reg old h log i (.bestEffort st))
    (hrecv : recv config.eventCapacity h.host.eventTx st.position =
      some (received, position)) :
    RunsDry reg old h (log ++ []) i
      (afterBroadcast { st with position := position } received) := by
  have hle := (recv_bounds hrecv).1
  have hahead : st.sub.registrationId = reg →
      h.host.aliveOn st.channel = true → ∀ (p : Nat) e, position ≤ p →
        h.host.eventTx[p]? = some e →
        e.eventId ∈ old ∨ st.sub.Wants e = false := by
    intro hreg halive p e hp he
    exact hruns.ahead st rfl hreg halive p e (hle.trans hp) he
  cases received with
  | lagged missed => exact .of_idle rfl
  | message e =>
      obtain ⟨he, rfl⟩ := recv_eq_message hrecv
      unfold afterBroadcast
      dsimp only
      split
      · next hwants =>
        refine ⟨?_, ?_⟩
        · rintro _ ⟨⟩ hreg halive e' he'
          obtain rfl := List.mem_singleton.mp he'
          rcases hruns.ahead st rfl hreg halive st.position e' le_rfl he with
            hold | hunwanted
          · exact hold
          · have hwanted : st.sub.Wants e' = true := hwants
            rw [hunwanted] at hwanted
            cases hwanted
        · rintro _ ⟨⟩
          exact hahead
      · refine ⟨?_, ?_⟩
        · rintro _ ⟨⟩ _ _ e' he'
          cases he'
        · rintro _ ⟨⟩
          exact hahead

theorem RunsDry.move (hruns : RunsDry reg old h log i pc)
    (hdebt : EventDebt h log i pc)
    (hmove : EventMove config i h.host pc host pc' events) :
    RunsDry reg old { h with host := host } (log ++ events) i pc' := by
  have hback : ∀ st, pc.stream? = some st →
      host.aliveOn st.channel = true → h.host.aliveOn st.channel = true := by
    intro st hst halive
    have hregistered := (hdebt.streaming hst).registered
    exact hmove.aliveOn (EventHost.registrationOf_lt hregistered) halive
  cases hmove with
  | @opened sub =>
      unfold opening
      split
      · exact .of_empty rfl rfl
      · refine ⟨?_, ?_⟩
        · rintro _ ⟨⟩ _ _ e he
          cases he
        · rintro _ ⟨⟩ _ _ p e hp he
          -- The stream begins at the end of the broadcast.
          have hlt := (List.getElem?_eq_some_iff.mp he).1
          exact absurd hp (Nat.not_le_of_lt hlt)
  | bestEffort hrecv => exact hruns.receive hrecv
  | @wakeup st received position hrecv =>
      unfold afterWakeup
      split
      · split <;> exact .of_empty rfl rfl
      · exact .of_empty rfl rfl
  | @sent pc next c item ch hsending hch hroom =>
      cases pc with
      | bestEffortSend st event =>
          cases hsending
          refine ⟨?_, ?_⟩
          · rintro _ ⟨⟩ _ _ e he
            cases he
          · rintro _ ⟨⟩ hreg halive
            exact hruns.ahead st rfl hreg (hback st rfl halive)
      | durableSend st event batch =>
          cases hsending
          refine ⟨?_, ?_⟩
          · rintro _ ⟨⟩ hreg halive
            exact hruns.carries st rfl hreg (hback st rfl halive)
          · rintro _ ⟨⟩
      | sendError =>
          cases hsending
          exact .of_idle rfl
      | _ => cases hsending
  | @reserved st event batch ch hch hroom =>
      refine ⟨?_, ?_⟩
      · rintro _ ⟨⟩ hreg halive
        exact hruns.carries st rfl hreg (hback st rfl halive)
      · rintro _ ⟨⟩
  | _ => exact .of_idle rfl

/-- The moves of other calls, when what they broadcast is old or not wanted. -/
theorem RunsDry.other (hruns : RunsDry reg old h log j pcj)
    (hback : ∀ st, pcj.stream? = some st →
      host.aliveOn st.channel = true → h.host.aliveOn st.channel = true)
    (hbroadcast : ∀ st, pcj.listening = some st →
      st.sub.registrationId = reg → h.host.aliveOn st.channel = true →
      ∀ (p : Nat) e, host.eventTx[p]? = some e → h.host.eventTx[p]? = some e ∨
        e.eventId ∈ old ∨ st.sub.Wants e = false) :
    RunsDry reg old { h with host := host } (log ++ events) j pcj := by
  refine ⟨fun st hst hreg halive => ?_, fun st hst hreg halive p e hp he => ?_⟩
  · exact hruns.carries st hst hreg (hback st hst halive)
  · have hstream : pcj.stream? = some st := by
      cases pcj with
      | bestEffort | bestEffortSend => exact hst
      | _ => cases hst
    have halive' := hback st hstream halive
    rcases hbroadcast st hst hreg halive' p e he with hold | hnew
    · exact hruns.ahead st hst hreg halive' p e hp hold
    · exact hnew

end Dry

/-- The subscription was created, and is no longer there. -/
def Removed (s : LocalEventProc) (reg : String) : Prop :=
  (∃ sub, Created s.log sub ∧ sub.registrationId = reg) ∧
    s.shared.store.subscriptions[reg]? = none

/-- No event is broadcast, other than `old` ones, that a best-effort stream of
the registration wants while its client is connected. -/
def sparesRemoved (reg : String) (old : List String) (s : LocalEventProc) :
    LocalEventAct → Bool
  | .step i _ =>
      match s.tasks[i]? with
      | some (.emitSend event _) =>
          old.contains event.eventId || s.tasks.all fun pc =>
            match pc.listening with
            | none => true
            | some st =>
                !(st.sub.registrationId == reg &&
                  s.shared.host.aliveOn st.channel && st.sub.Wants event)
      | _ => true
  | _ => true

theorem not_wants_of_sparesRemoved {reg : String} {old : List String}
    {s : LocalEventProc} {i : Nat} {choice : LocalEventChoice}
    {event : EventRecord} {failures : List String} {pc : EventPc}
    {st : EventStream}
    (hspares : sparesRemoved reg old s (.step i choice) = true)
    (hi : s.tasks[i]? = some (.emitSend event failures)) (hpc : pc ∈ s.tasks)
    (hst : pc.listening = some st) (hreg : st.sub.registrationId = reg)
    (halive : s.shared.host.aliveOn st.channel = true) :
    event.eventId ∈ old ∨ st.sub.Wants event = false := by
  simp only [sparesRemoved, hi, Bool.or_eq_true, List.contains_iff_mem]
    at hspares
  refine hspares.imp_right fun hall => ?_
  have hspared := List.all_eq_true.mp hall pc hpc
  simpa [hst, hreg, halive] using hspared

section Process

variable {config : EventConfig} {s₁ s : LocalEventProc} {reg : String}

theorem ranDry_of_removed (hreach : LocalEventReachable config s₁)
    (hremoved : Removed s₁ reg) :
    RanDry reg s₁.shared.host.landlord.uuids s₁.shared s₁.log s₁.tasks.length ∧
      ∀ (i : Nat) pc, s₁.tasks[i]? = some pc →
        RunsDry reg s₁.shared.host.landlord.uuids s₁.shared s₁.log i pc := by
  obtain ⟨hdrawn, hcarries⟩ := (eventsDrawn_keeps config).holds hreach
  refine ⟨⟨hremoved.1, ?_, fun c _ m hm => hdrawn.sent c m hm⟩,
    fun i pc hi => ⟨fun st _ _ _ e he => hcarries i pc hi e he, ?_⟩⟩
  · exact (hreach.tally.posted.paired reg).mp hremoved.2
  · intro st _ _ _ p e _ he
    exact Or.inl (hdrawn.broadcast e (List.mem_of_getElem? he))

theorem ranDry_keeps (hreach : LocalEventReachable config s₁)
    (hremoved : Removed s₁ reg) :
    Program.KeepsUnder (localEventProgram config)
      (fun s act =>
        sparesRemoved reg s₁.shared.host.landlord.uuids s act = true) s₁
      (RanDry reg s₁.shared.host.landlord.uuids)
      (RunsDry reg s₁.shared.host.landlord.uuids) where
  init := ranDry_of_removed hreach hremoved
  call := by
    intro s pc _ _ hentry hdry
    refine ⟨⟨hdry.created, hdry.gone, hdry.sent⟩, .of_idle ?_⟩
    cases pc <;> first | rfl | cases hentry
  step := by
    intro s i pc choice h' pc' events hlater hspares hi hadv hdry hruns
    obtain ⟨acts, hacts⟩ := hlater
    have hthere : LocalEventReachable config s := Reachable.append hreach hacts
    have hdebt := hthere.debt hi
    rcases localEventAdvance_cases hadv with
      ⟨it, op, next, result, store, hreq, hexec, rfl, rfl, rfl⟩ |
      ⟨host, hmove, rfl⟩
    · refine ⟨hdry.exec hthere.tally hdebt hreq hexec,
        (hruns i pc hi).exec hdry hreq hexec, fun j pcj _ hj => ?_⟩
      exact ⟨(hruns j pcj hj).carries, (hruns j pcj hj).ahead⟩
    · refine ⟨hdry.move (hruns i pc hi) hdebt hmove,
        (hruns i pc hi).move hdebt hmove, fun j pcj _ hj => ?_⟩
      refine (hruns j pcj hj).other (fun st hst halive => ?_)
        fun st hst hreg halive p e he => ?_
      · have hregistered := ((hthere.debt hj).streaming hst).registered
        exact hmove.aliveOn (EventHost.registrationOf_lt hregistered) halive
      · rcases hmove.eventTx_cases with heq | ⟨event, failures, rfl, -, heq⟩
        · exact Or.inl (heq ▸ he)
        · rw [heq, List.getElem?_append] at he
          split at he
          · exact Or.inl he
          · obtain rfl := List.mem_singleton.mp (List.mem_of_getElem? he)
            exact Or.inr (not_wants_of_sparesRemoved hspares hi
              (List.mem_of_getElem? hj) hst hreg halive)
  ambient := by
    intro s event h' spawned _ _ hamb hdry hruns
    obtain ⟨⟨host, spawned'⟩, hhost, heq⟩ := Option.map_eq_some_iff.mp hamb
    cases heq
    obtain ⟨hgrows, hsent, heventTx, hspawned⟩ := EventHost.ambient_cases hhost
    refine ⟨⟨hdry.created, hdry.gone, fun c hc m hm => ?_⟩, fun k pc hk => ?_,
      fun j pc hj => ?_⟩
    · have hold : .ok m ∈ s.shared.host.sentOn c := hsent c ▸ hm
      obtain ⟨r, hr⟩ := EventHost.registrationOf_of_sent hold
      obtain rfl :=
        Option.some.inj ((hgrows.registrationOf c r hr).symm.trans hc)
      exact hdry.sent c hr m hold
    · obtain ⟨leaseId, rfl⟩ := hspawned pc (List.mem_of_getElem? hk)
      exact .of_idle rfl
    · have hother : RunsDry reg s₁.shared.host.landlord.uuids
          { s.shared with host := host } (s.log ++ []) j pc :=
        (hruns j pc hj).other
          (fun st _ halive => EventHost.aliveOn_ambient hhost halive)
          fun st _ _ _ p e he => Or.inl (heventTx ▸ he)
      rwa [List.append_nil] at hother

/-- Take any run in which, once the subscription has been removed, no event
emitted since then is broadcast that a best-effort stream of the registration
wants while its client is connected.  Then every event delivered on a stream of
the registration was emitted before the removal. -/
theorem subscription_ends_with_lease {before after : List LocalEventAct}
    {s₂ : LocalEventProc}
    (hbefore : run (localEventProgram config).step LocalEventProc.new before =
      some s₁)
    (hremoved : Removed s₁ reg)
    (hafter : run (localEventProgram config).step s₁ after = some s₂)
    (hmeet : StepsMeet (localEventProgram config).step
      (fun s act =>
        sparesRemoved reg s₁.shared.host.landlord.uuids s act = true) s₁ after)
    {c : Nat} (hc : s₂.shared.host.registrationOf c = some reg)
    {m : EventMessage} (hm : .ok m ∈ s₂.shared.host.pulledOn c) :
    m.eventId ∈ s₁.shared.host.landlord.uuids := by
  have hreach : LocalEventReachable config s₁ := ⟨before, hbefore⟩
  have hdry := ((ranDry_keeps hreach hremoved).holds hafter hmeet).1
  refine hdry.sent c hc m ?_
  unfold EventHost.pulledOn at hm
  unfold EventHost.sentOn
  cases hch : s₂.shared.host.channels[c]? with
  | none =>
      rw [hch] at hm
      cases hm
  | some ch =>
      rw [hch] at hm
      exact List.mem_of_mem_take hm

end Process

/-! ## A best-effort stream -/

/-- A best-effort subscription to rain. -/
def rainWatch : SubscribeRequest where
  source := "weather"
  template := (∅ : Attrs).insert "event_type" "rain"
  delivery := .bestEffort
  ttlSecs := 60
  handback := [7]

def streamOpened : List LocalEventAct :=
  [.call (.subscribe rainWatch), .step 0 (.manager (.uuids "r" "l")),
    .step 0 (.store .sorted), .call (.receive "r"), .step 1 (.store .sorted),
    .step 1 (.manager .go)]

def eventEmitted (task : Nat) (eventType id : String) : List LocalEventAct :=
  [.call (.emit (shower eventType)), .step task (.manager (.uuid id)),
    .step task (.store .sorted), .step task (.manager .go)]

def eventForwarded : List LocalEventAct :=
  [.step 1 (.manager .go), .step 1 (.manager .go), .ambient (.pull 0)]

/-- The lease expires, and the cascade removes the subscription. -/
def leaseExpired (sweep handler : Nat) : List LocalEventAct :=
  [.ambient (.tick (60 * 10 ^ 9)), .call (.lease .drainExpired),
    .step sweep (.manager (.lease (.order .sorted))),
    .step sweep (.manager (.lease .go)), .step sweep (.manager (.lease .go)),
    .step sweep (.manager (.lease .go)), .step sweep (.manager (.lease .go)),
    .ambient .cascade, .step handler (.store .sorted)]

def rainOver : LocalEventProc :=
  (run (localEventProgram newsroom).step LocalEventProc.new
    (streamOpened ++ eventEmitted 2 "rain" "e" ++ leaseExpired 3 4)).get
    (by decide +kernel)

/-- The client still gets the rain emitted before; wind it does not want. -/
def lastRain : List LocalEventAct :=
  eventForwarded ++ eventEmitted 5 "wind" "f" ++ [.step 1 (.manager .go)]

def rainDelivered : LocalEventProc :=
  (run (localEventProgram newsroom).step rainOver lastRain).get
    (by decide +kernel)

theorem subscription_ends_with_lease_rain :
    (rainDelivered.shared.host.pulledOn 0).map
        (fun item => item.map fun m => m.eventId) = [.ok "e"] ∧
      ∀ m, .ok m ∈ rainDelivered.shared.host.pulledOn 0 →
        m.eventId ∈ rainOver.shared.host.landlord.uuids := by
  have hbefore : run (localEventProgram newsroom).step LocalEventProc.new
      (streamOpened ++ eventEmitted 2 "rain" "e" ++ leaseExpired 3 4) =
      some rainOver := (Option.some_get _).symm
  have hafter : run (localEventProgram newsroom).step rainOver lastRain =
      some rainDelivered := (Option.some_get _).symm
  have hremoved : Removed rainOver "r" := by
    have hlog : rainOver.log[1]? =
        some (.store 0 (.createSubscription _) (.ok ())) := rfl
    exact ⟨⟨_, ⟨0, List.mem_of_getElem? hlog⟩, rfl⟩, by decide +kernel⟩
  have hmeet : StepsMeet (localEventProgram newsroom).step
      (fun s act => sparesRemoved "r" rainOver.shared.host.landlord.uuids s act =
        true) rainOver lastRain := by
    decide +kernel
  refine ⟨by decide +kernel, fun m hm => ?_⟩
  exact subscription_ends_with_lease hbefore hremoved hafter hmeet rfl hm

def streamOver : LocalEventProc :=
  (run (localEventProgram newsroom).step LocalEventProc.new
    (streamOpened ++ leaseExpired 2 3)).get (by decide +kernel)

def rainAfterwards : LocalEventProc :=
  (run (localEventProgram newsroom).step streamOver
    (eventEmitted 4 "rain" "e" ++ eventForwarded)).get (by decide +kernel)

/-- The lease has expired and the subscription is gone; an event emitted later
is delivered all the same. -/
theorem stream_outlives_subscription :
    run (localEventProgram newsroom).step LocalEventProc.new
        (streamOpened ++ leaseExpired 2 3) = some streamOver ∧
      streamOver.shared.store.subscriptions.isEmpty = true ∧
      streamOver.shared.host.landlord.leases.leases.isEmpty = true ∧
      "e" ∉ streamOver.shared.host.landlord.uuids ∧
      run (localEventProgram newsroom).step streamOver
        (eventEmitted 4 "rain" "e" ++ eventForwarded) = some rainAfterwards ∧
      rainAfterwards.shared.host.registrationOf 0 = some "r" ∧
      (rainAfterwards.shared.host.pulledOn 0).map
        (fun item => item.map fun m => m.eventId) = [.ok "e"] :=
  ⟨(Option.some_get _).symm, by decide +kernel, by decide +kernel,
    by decide +kernel, (Option.some_get _).symm, by decide +kernel,
    by decide +kernel⟩

end Coordin8
