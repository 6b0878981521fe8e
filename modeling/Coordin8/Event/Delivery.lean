import Coordin8.Event.Mailbox

/-!
# At-least-once delivery

The process over the in-memory store, in every interleaving.  `EventTally` is
what holds of the shared state and the log, `EventDebt` what each call owes
where it stands: an `emit` has dealt with every subscription it listed and no
longer has to do, a durable stream holds entries of its mailbox as they were
enqueued, and acknowledges one only when it has been pulled off its channel.

The main result says that an event that was emitted is in the mailbox of every
subscription that wanted it, or has been pulled by a transport, for as long as
the subscription is there.
-/

namespace Coordin8

open Support Support.DashMap EventPc

/-! ## The invariant -/

/-- The event, as it is filed under its number, went into the mailbox. -/
def Filed (log : List EventLog) (reg : String) (e : EventRecord) : Prop :=
  ∃ event, Enqueued log reg event e.seqNum ∧
    e = { event with seqNum := e.seqNum }

/-- A stream of the task `i`. -/
structure Streaming (h : EventHost) (log : List EventLog) (i : Nat)
    (st : EventStream) : Prop where
  opened : .opened i st.channel ∈ log
  registered : h.registrationOf st.channel = some st.sub.registrationId
  created : Created log st.sub

/-- The task has made no call of the store yet. -/
def Untouched (log : List EventLog) (i : Nat) : Prop :=
  ∀ op result, .store i op result ∉ log

/-- A listed subscription needs nothing more: it got the event, or it is gone
for good. -/
def DealtWith (store : InMemoryEventStore) (log : List EventLog)
    (event : EventRecord) (sub : SubscriptionRecord) : Prop :=
  (∃ n, Enqueued log sub.registrationId event n) ∨
    Created log sub ∧ store.mailboxes[sub.registrationId]? = none

/-- Of the subscriptions the task has listed, those that want the event are in
`todo` or settled. -/
def Covered (store : InMemoryEventStore) (log : List EventLog) (i : Nat)
    (event : EventRecord) (todo : List SubscriptionRecord) : Prop :=
  ∀ subs, .store i .listSubscriptions (.ok subs) ∈ log → ∀ sub ∈ subs,
    sub.delivery = .durable → sub.Wants event = true →
    sub ∈ todo ∨ DealtWith store log event sub

/-- The item a durable stream sends for an entry. -/
def EventStream.item (st : EventStream) (e : EventRecord) :
    Except Status EventMessage :=
  .ok (eventRecordToProto e st.sub.handback)

/-- What a call owes where it stands. -/
def EventDebt (h : LocalEventHost) (log : List EventLog) (i : Nat) :
    EventPc → Prop
  | .subscribe _ | .emit _ | .emitList _ => Untouched log i
  | .createSubscription sub _ =>
      Untouched log i ∧ .drawn i sub.registrationId ∈ log
  | .emitEnqueue event sub todo _ =>
      Covered h.store log i event (sub :: todo) ∧
        (∀ t ∈ sub :: todo, Created log t) ∧ sub.Wants event = true
  | .emitSend event _ => Covered h.store log i event []
  | .returned (.ok (.emitted event)) => Covered h.store log i event []
  | .receiveSubscribe sub => Created log sub
  | .receivePeek st | .bestEffort st | .bestEffortSend st _ | .durablePeek st
  | .durableWait st => Streaming h.host log i st
  | .durableSend st e batch =>
      Streaming h.host log i st ∧
        ∀ x ∈ e :: batch, Filed log st.sub.registrationId x
  | .durableReserve st e batch =>
      Streaming h.host log i st ∧
        (∀ x ∈ e :: batch, Filed log st.sub.registrationId x) ∧
        st.item e ∈ h.host.sentOn st.channel
  | .durableAck st e batch =>
      Streaming h.host log i st ∧
        (∀ x ∈ e :: batch, Filed log st.sub.registrationId x) ∧
        st.item e ∈ h.host.pulledOn st.channel
  | .sendError c _ => .opened i c ∈ log
  | _ => True

/-- What holds of the shared state and the log of `n` tasks. -/
structure EventTally (h : LocalEventHost) (log : List EventLog) (n : Nat) :
    Prop where
  posted : Posted h.store log
  task_lt : ∀ {j op result}, .store j op result ∈ log → j < n
  drawn_uuids : ∀ {j reg}, .drawn j reg ∈ log → reg ∈ h.host.landlord.uuids
  drawn_unique : ∀ {j j' reg}, .drawn j reg ∈ log → .drawn j' reg ∈ log → j = j'
  created_drawn : ∀ {j sub result},
    .store j (.createSubscription sub) result ∈ log →
    .drawn j sub.registrationId ∈ log
  opened_lt : ∀ {j c}, .opened j c ∈ log → c < h.host.channels.length
  opened_unique : ∀ {j j' c}, .opened j c ∈ log → .opened j' c ∈ log → j = j'
  /-- What was acknowledged had been pulled. -/
  delivered : ∀ {j reg e n}, AckedBy log j reg n → Enqueued log reg e n →
    ∃ c handback, h.host.registrationOf c = some reg ∧
      .ok (eventRecordToProto { e with seqNum := n } handback) ∈
        h.host.pulledOn c

/-! ## What other calls leave alone -/

variable {reg : String} {e event : EventRecord} {st : EventStream}
  {sub : SubscriptionRecord} {todo : List SubscriptionRecord} {m : Nat}
  {pc : EventPc}

section Mono

variable {h h' : LocalEventHost} {log more : List EventLog} {i j : Nat}
  {pc : EventPc}

theorem Filed.append (hfiled : Filed log reg e) :
    Filed (log ++ more) reg e := by
  obtain ⟨event, henq, heq⟩ := hfiled
  exact ⟨event, henq.append, heq⟩

theorem Streaming.mono (hst : Streaming h.host log i st)
    (hgrows : h.host.Grows h'.host) :
    Streaming h'.host (log ++ more) i st where
  opened := List.mem_append_left _ hst.opened
  registered := hgrows.registrationOf _ _ hst.registered
  created := hst.created.append

theorem Untouched.append (hnone : Untouched log i)
    (hmore : Untouched more i) : Untouched (log ++ more) i := by
  intro op result hmem
  rcases List.mem_append.mp hmem with hmem | hmem
  · exact hnone op result hmem
  · exact hmore op result hmem

/-- A registration that is gone stays gone. -/
def GoneStays (h h' : LocalEventHost) (log : List EventLog) : Prop :=
  ∀ sub, Created log sub → h.store.mailboxes[sub.registrationId]? = none →
    h'.store.mailboxes[sub.registrationId]? = none

theorem DealtWith.mono
    (hdealt : DealtWith h.store log event sub) (hgone : GoneStays h h' log) :
    DealtWith h'.store (log ++ more) event sub := by
  rcases hdealt with ⟨n, hn⟩ | ⟨hcreated, hnone⟩
  · exact Or.inl ⟨n, hn.append⟩
  · exact Or.inr ⟨hcreated.append, hgone sub hcreated hnone⟩

theorem Covered.mono
    (hcov : Covered h.store log i event todo) (hgone : GoneStays h h' log)
    (hmore : ∀ result, .store i .listSubscriptions result ∉ more) :
    Covered h'.store (log ++ more) i event todo := by
  intro subs hsubs sub hsub hdurable hwants
  rcases List.mem_append.mp hsubs with hsubs | hsubs
  · exact (hcov subs hsubs sub hsub hdurable hwants).imp id
      fun hdealt => hdealt.mono hgone
  · exact absurd hsubs (hmore _)

theorem EventDebt.mono (hdebt : EventDebt h log i pc)
    (hgrows : h.host.Grows h'.host) (hgone : GoneStays h h' log)
    (hmore : Untouched more i) : EventDebt h' (log ++ more) i pc := by
  have hcov : ∀ {event todo}, Covered h.store log i event todo →
      Covered h'.store (log ++ more) i event todo := fun hcov =>
    hcov.mono hgone fun _ => hmore _ _
  cases pc with
  | subscribe | emit | emitList => exact Untouched.append hdebt hmore
  | createSubscription =>
      exact ⟨hdebt.1.append hmore, List.mem_append_left _ hdebt.2⟩
  | emitEnqueue =>
      exact ⟨hcov hdebt.1, fun t ht => (hdebt.2.1 t ht).append, hdebt.2.2⟩
  | emitSend => exact hcov hdebt
  | receiveSubscribe => exact Created.append hdebt
  | receivePeek | bestEffort | bestEffortSend | durablePeek | durableWait =>
      exact Streaming.mono hdebt hgrows
  | durableSend =>
      exact ⟨hdebt.1.mono hgrows, fun x hx => (hdebt.2 x hx).append⟩
  | durableReserve =>
      exact ⟨hdebt.1.mono hgrows, fun x hx => (hdebt.2.1 x hx).append,
        (hgrows.sentOn _).subset hdebt.2.2⟩
  | durableAck =>
      exact ⟨hdebt.1.mono hgrows, fun x hx => (hdebt.2.1 x hx).append,
        hgrows.pulledOn _ hdebt.2.2⟩
  | sendError => exact List.mem_append_left _ hdebt
  | returned answer =>
      cases answer with
      | error => trivial
      | ok reply =>
          cases reply with
          | emitted event => exact hcov hdebt
          | _ => trivial
  | _ => trivial

end Mono

/-! ## Calls of the store -/

section Store

variable {h : LocalEventHost} {store : InMemoryEventStore}
  {log : List EventLog} {i n : Nat} {pc : EventPc} {it : SubscriptionIteration}
  {op : EventOp} {result : op.Result} {next : op.Result → EventPc}

/-- The calls of the manager keep the mailboxes in order. -/
theorem EventDebt.lawful (htally : EventTally h log n)
    (hdebt : EventDebt h log i pc) (hreq : pc.request = some ⟨op, next⟩) :
    op.Lawful log := by
  cases pc with
  | createSubscription sub granted =>
      cases hreq
      rintro sub' ⟨j, hj⟩ heq
      -- The registration was drawn by this very call, which has made no call
      -- of the store yet.
      have hdrawn := htally.created_drawn hj
      rw [heq] at hdrawn
      obtain rfl := htally.drawn_unique hdrawn hdebt.2
      exact hdebt.1 _ _ hj
  | durableAck st e batch =>
      cases hreq
      intro m hm
      obtain rfl := List.mem_singleton.mp hm
      obtain ⟨event, henq, -⟩ := hdebt.2.1 e List.mem_cons_self
      exact ⟨event, henq⟩
  | emitList | emitEnqueue | receive | receivePeek | durablePeek
  | cancelSubscription | cancelRemove | renewSubscription
  | unsubscribeByLease =>
      cases hreq
      trivial
  | _ => cases hreq

theorem goneStays_exec (hop : op.Lawful log)
    (hexec : h.store.exec it op = (result, store)) :
    GoneStays h { h with store := store } log := by
  intro sub hcreated hnone
  have hremove : ∀ reg,
      (h.store.removeSubscription reg).mailboxes[sub.registrationId]? =
        none := by
    intro reg
    simp [InMemoryEventStore.removeSubscription, get_erase, hnone]
  cases op with
  | createSubscription sub' =>
      cases hexec
      have hne := hop sub hcreated
      simp [InMemoryEventStore.createSubscription, get_insert, hne.symm, hnone]
  | getSubscription | listSubscriptions | peek =>
      cases hexec
      exact hnone
  | removeSubscription reg =>
      cases hexec
      exact hremove reg
  | removeByLease leaseId =>
      obtain ⟨-, rfl⟩ := Prod.mk.inj hexec
      dsimp only
      split
      · exact hnone
      · exact hremove _
  | enqueue reg event =>
      simp only [InMemoryEventStore.exec, InMemoryEventStore.enqueue] at hexec
      split at hexec
      · next box hbox =>
        cases hexec
        have hne : reg ≠ sub.registrationId := by
          rintro rfl
          rw [hnone] at hbox
          cases hbox
        simp [get_insert, hne, hnone]
      · cases hexec
        exact hnone
  | ack reg ns =>
      cases hexec
      rw [Option.eq_none_iff_forall_ne_some]
      intro box hbox
      obtain ⟨box', hbox', -⟩ := Posted.mailboxes_ack hbox
      rw [hnone] at hbox'
      cases hbox'

theorem EventTally.exec (htally : EventTally h log n)
    (hdebt : EventDebt h log i pc) (hi : i < n)
    (hreq : pc.request = some ⟨op, next⟩)
    (hexec : h.store.exec it op = (result, store)) :
    EventTally { h with store := store } (log ++ [.store i op result]) n := by
  have hposted := htally.posted.exec (i := i) (hdebt.lawful htally hreq) hexec
  refine ⟨hposted, ?_, ?_, ?_, ?_, ?_, ?_, ?_⟩
  · intro j op' result' hmem
    rcases List.mem_append.mp hmem with hmem | hmem
    · exact htally.task_lt hmem
    · cases List.mem_singleton.mp hmem
      exact hi
  · simpa using @htally.drawn_uuids
  · simpa using @htally.drawn_unique
  · intro j sub result' hmem
    rcases List.mem_append.mp hmem with hmem | hmem
    · exact List.mem_append_left _ (htally.created_drawn hmem)
    · cases List.mem_singleton.mp hmem
      cases pc with
      | createSubscription sub' granted =>
          cases hreq
          exact List.mem_append_left _ hdebt.2
      | _ => cases hreq
  · simpa using @htally.opened_lt
  · simpa using @htally.opened_unique
  · intro j reg e m hacked henq
    rcases ackedBy_append_store.mp hacked with hold | ⟨rfl, ns, hm, heq⟩
    · obtain ⟨e', he'⟩ := htally.posted.acked_enqueued hold
      obtain rfl := hposted.enqueued_unique henq he'.append
      exact htally.delivered hold he'
    · cases heq
      cases pc with
      | durableAck st e' batch =>
          cases hreq
          obtain rfl := List.mem_singleton.mp hm
          obtain ⟨hst, hfiled, hpulled⟩ := hdebt
          obtain ⟨event, hevent, heq⟩ := hfiled e' List.mem_cons_self
          obtain rfl := hposted.enqueued_unique henq hevent.append
          refine ⟨st.channel, st.sub.handback, hst.registered, ?_⟩
          rw [← heq]
          exact hpulled
      | _ => cases hreq

end Store

/-! ## The caller's own debt -/

section Own

variable {h : LocalEventHost} {store : InMemoryEventStore}
  {log : List EventLog} {i n : Nat} {pc : EventPc} {it : SubscriptionIteration}
  {op : EventOp} {result : op.Result} {next : op.Result → EventPc}

theorem mem_peek {k : Nat} (he : e ∈ store.peek reg m k) :
    ∃ box, ∃ l : Nat, store.mailboxes[reg]? = some box ∧
      box.entries[l]? = some e := by
  unfold InMemoryEventStore.peek at he
  split at he
  · next box hbox =>
    obtain ⟨⟨l, e'⟩, hmem, rfl⟩ := List.mem_map.mp he
    have hmem := (List.mem_filter.mp (List.mem_of_mem_take hmem)).1
    exact ⟨box, l, hbox, Std.ExtTreeMap.mem_toList_iff_getElem?_eq_some.mp hmem⟩
  · cases he

theorem Posted.filed_of_mem_peek (hposted : Posted store log)
    {k : Nat} (he : e ∈ store.peek reg m k) :
    Filed log reg e := by
  obtain ⟨box, l, hbox, hl⟩ := mem_peek he
  obtain ⟨event, henq, rfl⟩ := hposted.entry hbox hl
  exact ⟨event, henq, rfl⟩

theorem EventDebt.of_enqueueNext {failures : List String}
    (hcov : Covered h.store log i event todo)
    (hcreated : ∀ t ∈ todo, Created log t) :
    EventDebt h log i (enqueueNext event failures todo) := by
  induction todo with
  | nil => exact hcov
  | cons sub todo ih =>
      unfold EventPc.enqueueNext
      split
      · next hsub => exact ⟨hcov, hcreated, hsub.2⟩
      · next hsub =>
        refine ih ?_ fun t ht => hcreated t (List.mem_cons_of_mem _ ht)
        intro subs hsubs t ht hdurable hwants
        rcases hcov subs hsubs t ht hdurable hwants with hmem | hdealt
        · rcases List.mem_cons.mp hmem with rfl | hmem
          · exact absurd ⟨hdurable, hwants⟩ hsub
          · exact Or.inl hmem
        · exact Or.inr hdealt

theorem EventDebt.of_flush {batch : List EventRecord}
    (hst : Streaming h.host log i st)
    (hbatch : ∀ x ∈ batch, Filed log st.sub.registrationId x) :
    EventDebt h log i (flush st batch) := by
  cases batch with
  | nil => exact hst
  | cons e batch => exact ⟨hst, hbatch⟩

theorem EventDebt.of_advanceCursor
    {batch : List EventRecord} (hst : Streaming h.host log i st)
    (hbatch : ∀ x ∈ batch, Filed log st.sub.registrationId x) :
    EventDebt h log i (advanceCursor st m batch) := by
  have hst' : Streaming h.host log i { st with cursor := m } :=
    ⟨hst.opened, hst.registered, hst.created⟩
  cases batch with
  | nil => exact hst'
  | cons e batch => exact ⟨hst', hbatch⟩

theorem Covered.tail {event : EventRecord} {sub : SubscriptionRecord}
    {todo : List SubscriptionRecord}
    (hcov : Covered store log i event (sub :: todo))
    (hsub : DealtWith store log event sub) : Covered store log i event todo := by
  intro subs hsubs t ht hdurable hwants
  rcases hcov subs hsubs t ht hdurable hwants with hmem | hdealt
  · rcases List.mem_cons.mp hmem with rfl | hmem
    · exact Or.inr hsub
    · exact Or.inl hmem
  · exact Or.inr hdealt

theorem EventDebt.of_afterEnqueue
    {failures : List String} {result : Except Error Nat}
    (hcov : Covered h.store log i event todo)
    (hcreated : ∀ t ∈ todo, Created log t) :
    EventDebt h log i (afterEnqueue event sub todo failures result) := by
  unfold afterEnqueue
  split <;> exact of_enqueueNext hcov hcreated

theorem dealtWith_enqueue
    {result : Except Error Nat} (hcreated : Created log sub)
    (hexec : h.store.enqueue sub.registrationId event = (result, store)) :
    DealtWith store (log ++
      [.store i (.enqueue sub.registrationId event) result]) event sub := by
  unfold InMemoryEventStore.enqueue at hexec
  split at hexec
  · cases hexec
    exact Or.inl ⟨_, enqueued_append_store.mpr (Or.inr rfl)⟩
  · next hnone =>
    cases hexec
    exact Or.inr ⟨hcreated.append, hnone⟩

theorem EventDebt.exec (htally : EventTally h log n)
    (hdebt : EventDebt h log i pc) (hreq : pc.request = some ⟨op, next⟩)
    (hexec : h.store.exec it op = (result, store)) :
    EventDebt { h with store := store } (log ++ [.store i op result]) i
      (next result) := by
  have hgone := goneStays_exec (hdebt.lawful htally hreq) hexec
  have hgrows := EventHost.Grows.refl h.host
  cases pc with
  | createSubscription sub granted =>
      cases hreq
      cases hexec
      trivial
  | emitList event =>
      cases hreq
      cases hexec
      have hlisted : ∀ sub ∈ h.store.listSubscriptions it, Created log sub := by
        intro sub hsub
        obtain ⟨⟨reg, sub'⟩, hmem, rfl⟩ := List.mem_map.mp hsub
        exact (htally.posted.created (it.mem_entries.mp hmem)).2
      refine of_enqueueNext ?_ fun sub hsub => (hlisted sub hsub).append
      -- The task has made no other call of the store.
      intro subs hsubs sub hsub _ _
      rcases List.mem_append.mp hsubs with hsubs | hsubs
      · exact absurd hsubs (hdebt _ _)
      · cases List.mem_singleton.mp hsubs
        exact Or.inl hsub
  | emitEnqueue event sub todo failures =>
      cases hreq
      obtain ⟨hcov, hcreated, -⟩ := hdebt
      have hdealt : DealtWith store (log ++
          [.store i (.enqueue sub.registrationId event) result]) event sub :=
        dealtWith_enqueue (hcreated sub List.mem_cons_self) hexec
      exact of_afterEnqueue ((Covered.mono hcov hgone (by simp)).tail hdealt)
        fun t ht => (hcreated t (List.mem_cons_of_mem _ ht)).append
  | receive reg =>
      cases hreq
      cases hexec
      cases hsub : h.store.subscriptions[reg]? with
      | none => trivial
      | some sub => exact (htally.posted.created hsub).2.append
  | receivePeek st | durablePeek st =>
      cases hreq
      cases hexec
      exact of_flush (Streaming.mono hdebt hgrows) fun x hx =>
        (htally.posted.filed_of_mem_peek hx).append
  | durableAck st e batch =>
      cases hreq
      cases hexec
      exact of_advanceCursor (hdebt.1.mono hgrows) fun x hx =>
        (hdebt.2.1 x (List.mem_cons_of_mem _ hx)).append
  | cancelSubscription reg | renewSubscription reg =>
      cases hreq
      cases hexec
      cases h.store.subscriptions[reg]? <;> trivial
  | cancelRemove sub | unsubscribeByLease leaseId =>
      cases hreq
      cases hexec
      trivial
  | _ => cases hreq

end Own

/-! ## The other moves -/

section Moves

variable {config : EventConfig} {h : LocalEventHost} {host : EventHost}
  {log events : List EventLog} {i n : Nat} {pc pc' : EventPc}

theorem Posted.append_note {store : InMemoryEventStore}
    (hposted : Posted store log)
    (hnote : ∀ j op result, EventLog.store j op result ∉ events) :
    Posted store (log ++ events) := by
  refine hposted.of_log ?_ ?_ ?_
  · intro sub
    simp [Created, hnote]
  · intro reg event m
    simp [Enqueued, hnote]
  · intro j reg m
    simp [AckedBy, hnote]

theorem EventTally.grow (htally : EventTally h log n)
    (hgrows : h.host.Grows host) : EventTally { h with host := host } log n where
  posted := htally.posted
  task_lt := htally.task_lt
  drawn_uuids hmem := hgrows.uuids (htally.drawn_uuids hmem)
  drawn_unique := htally.drawn_unique
  created_drawn := htally.created_drawn
  opened_lt hmem := Nat.lt_of_lt_of_le (htally.opened_lt hmem) hgrows.channels
  opened_unique := htally.opened_unique
  delivered hacked henq := by
    obtain ⟨c, handback, hreg, hpulled⟩ := htally.delivered hacked henq
    exact ⟨c, handback, hgrows.registrationOf _ _ hreg,
      hgrows.pulledOn c hpulled⟩

/-- What only one task notes in the log is noted by one task when a first note
of a subject is appended. -/
theorem unique_append {β : Type*} {note : Nat → β → EventLog} {b : β}
    (hinj : ∀ {j j' c c'}, note j c = note j' c' → j = j' ∧ c = c')
    (hunique : ∀ {j j' c}, note j c ∈ log → note j' c ∈ log → j = j')
    (hfresh : ∀ j, note j b ∉ log) {j j' : Nat} {c : β}
    (hmem : note j c ∈ log ++ [note i b])
    (hmem' : note j' c ∈ log ++ [note i b]) : j = j' := by
  have hcases : ∀ {k}, note k c ∈ log ++ [note i b] →
      note k c ∈ log ∧ c ≠ b ∨ k = i ∧ c = b := by
    intro k hk
    rcases List.mem_append.mp hk with hk | hk
    · exact .inl ⟨hk, fun heq => hfresh k (heq ▸ hk)⟩
    · exact .inr (hinj (List.mem_singleton.mp hk))
  rcases hcases hmem with ⟨hmem, hne⟩ | ⟨rfl, rfl⟩
  · rcases hcases hmem' with ⟨hmem', -⟩ | ⟨-, heq⟩
    · exact hunique hmem hmem'
    · exact absurd heq hne
  · rcases hcases hmem' with ⟨-, hne⟩ | ⟨heq, -⟩
    · exact absurd rfl hne
    · exact heq.symm

theorem EventTally.drawn (htally : EventTally h log n)
    (hfresh : ∀ j, .drawn j reg ∉ log)
    (huuid : reg ∈ h.host.landlord.uuids) :
    EventTally h (log ++ [.drawn i reg]) n := by
  refine ⟨htally.posted.append_note (by simp), ?_, ?_, ?_, ?_, ?_, ?_, ?_⟩
  · simpa using @htally.task_lt
  · intro j reg' hmem
    rcases List.mem_append.mp hmem with hmem | hmem
    · exact htally.drawn_uuids hmem
    · cases List.mem_singleton.mp hmem
      exact huuid
  · exact unique_append EventLog.drawn.inj htally.drawn_unique hfresh
  · intro j sub result hmem
    exact List.mem_append_left _ (htally.created_drawn (by simpa using hmem))
  · simpa using @htally.opened_lt
  · simpa using @htally.opened_unique
  · simpa [AckedBy, Enqueued] using @htally.delivered

theorem EventTally.opened (htally : EventTally h log n) {c : Nat}
    (hfresh : ∀ j, .opened j c ∉ log) (hc : c < h.host.channels.length) :
    EventTally h (log ++ [.opened i c]) n := by
  refine ⟨htally.posted.append_note (by simp), ?_, ?_, ?_, ?_, ?_, ?_, ?_⟩
  · simpa using @htally.task_lt
  · simpa using @htally.drawn_uuids
  · simpa using @htally.drawn_unique
  · intro j sub result hmem
    exact List.mem_append_left _ (htally.created_drawn (by simpa using hmem))
  · intro j c' hmem
    rcases List.mem_append.mp hmem with hmem | hmem
    · exact htally.opened_lt hmem
    · cases List.mem_singleton.mp hmem
      exact hc
  · exact unique_append EventLog.opened.inj htally.opened_unique hfresh
  · simpa [AckedBy, Enqueued] using @htally.delivered

theorem EventTally.move (htally : EventTally h log n)
    (hmove : EventMove config i h.host pc host pc' events) :
    EventTally { h with host := host } (log ++ events) n := by
  have hgrown := htally.grow hmove.grows
  cases hmove with
  | opened =>
      refine hgrown.opened (fun j hmem => ?_) (by simp [EventHost.openChannel])
      exact Nat.lt_irrefl _ (htally.opened_lt hmem)
  | drawSubscription hid huuids =>
      exact hgrown.drawn (fun j hmem => hid (htally.drawn_uuids hmem))
        (huuids List.mem_cons_self)
  | _ => simpa using hgrown

theorem Streaming.wake {position : Nat} (hst : Streaming h.host log i st) :
    Streaming h.host log i { st with position := position } :=
  ⟨hst.opened, hst.registered, hst.created⟩

theorem EventDebt.move (hdebt : EventDebt h log i pc)
    (hmove : EventMove config i h.host pc host pc' events) :
    EventDebt { h with host := host } (log ++ events) i pc' := by
  have hgrows := hmove.grows
  cases hmove with
  | emitSend =>
      unfold emitAnswer
      split
      · rw [List.append_nil]
        exact hdebt
      · trivial
  | @opened sub =>
      have hst : Streaming (h.host.openChannel sub.registrationId)
          (log ++ [.opened i h.host.channels.length]) i (h.host.stream sub) :=
        ⟨List.mem_append_right _ (List.mem_singleton.mpr rfl),
          EventHost.registrationOf_openChannel, Created.append hdebt⟩
      unfold opening
      split <;> exact hst
  | @bestEffort st received position hrecv =>
      rw [List.append_nil]
      unfold afterBroadcast
      split
      · split
        · exact Streaming.wake hdebt
        · exact Streaming.wake hdebt
      · exact hdebt.opened
  | @wakeup st received position hrecv =>
      rw [List.append_nil]
      unfold afterWakeup
      split
      · split
        · exact Streaming.wake hdebt
        · exact Streaming.wake hdebt
      · exact Streaming.wake hdebt
  | @sent pc next c item ch hsending hch hroom =>
      cases pc with
      | bestEffortSend st event =>
          cases hsending
          exact Streaming.mono hdebt hgrows
      | durableSend st event batch =>
          cases hsending
          refine ⟨hdebt.1.mono hgrows, fun x hx => (hdebt.2 x hx).append, ?_⟩
          dsimp only
          rw [EventHost.sentOn_setQueue hch, if_pos rfl]
          exact List.mem_append_right _ (List.mem_singleton.mpr rfl)
      | sendError c status =>
          cases hsending
          trivial
      | _ => cases hsending
  | @reserved st event batch ch hch hroom =>
      obtain ⟨hst, hfiled, hsent⟩ := hdebt
      refine ⟨hst.mono hgrows, fun x hx => (hfiled x hx).append, ?_⟩
      dsimp only
      rw [EventHost.pulledOn_eq hch, Mpsc.pulled_eq_sent hroom,
        ← EventHost.sentOn_eq hch]
      exact hsent
  | hangup => trivial
  | drawEvent => exact Untouched.append hdebt (by simp [Untouched])
  | drawSubscription =>
      exact ⟨Untouched.append hdebt (by simp [Untouched]),
        List.mem_append_right _ (List.mem_singleton.mpr rfl)⟩
  | refused | leaseCalled | lease => trivial
  | @leaseAnswered lpc landlord result hlease =>
      unfold leaseAnswer
      split <;> trivial

end Moves

/-! ## Every interleaving -/

section Process

variable {config : EventConfig} {s : LocalEventProc}

theorem EventDebt.of_entry {h : LocalEventHost} {log : List EventLog} {n : Nat} (htally : EventTally h log n) (hentry : pc.entry = true) :
    EventDebt h log n pc := by
  have hnone : Untouched log n := fun op result hmem =>
    Nat.lt_irrefl n (htally.task_lt hmem)
  cases pc with
  | subscribe | emit => exact hnone
  | receive | cancelSubscription | renewSubscription | unsubscribeByLease
  | lease => trivial
  | _ => cases hentry

theorem localEventAdvance_cases {i : Nat} {h h' : LocalEventHost}
    {pc' : EventPc} {choice : LocalEventChoice} {events : List EventLog}
    (hadv : localEventAdvance config i h pc choice = some (h', pc', events)) :
    (∃ it op next result store, pc.request = some ⟨op, next⟩ ∧
      h.store.exec it op = (result, store) ∧
      h' = { h with store := store } ∧ pc' = next result ∧
      events = [.store i op result]) ∨
    ∃ host, EventMove config i h.host pc host pc' events ∧
      h' = { h with host := host } := by
  cases choice with
  | store it =>
      simp only [localEventAdvance] at hadv
      split at hadv
      · cases hadv
      · next op next hreq =>
        cases hadv
        exact Or.inl ⟨it, op, next, _, _, hreq, rfl, rfl, rfl, rfl⟩
  | manager choice =>
      simp only [localEventAdvance] at hadv
      split at hadv
      · cases hadv
      · next host pc'' events' hmove =>
        cases hadv
        exact Or.inr ⟨host, .of_advance hmove, rfl⟩

theorem eventKeeps (config : EventConfig) :
    (localEventProgram config).Keeps LocalEventProc.new EventTally
      EventDebt where
  init := by
    refine ⟨⟨Posted.new, ?_, ?_, ?_, ?_, ?_, ?_, ?_⟩, ?_⟩ <;>
      simp [LocalEventProc.new, AckedBy]
  call := by
    intro s pc _ _ hentry htally
    refine ⟨{ htally with task_lt := ?_ }, EventDebt.of_entry htally hentry⟩
    intro j op result hmem
    exact Nat.lt_succ_of_lt (htally.task_lt hmem)
  step := by
    intro s i pc choice h' pc' events _ _ hi hadv htally hdebts
    have hlt : i < s.tasks.length := (List.getElem?_eq_some_iff.mp hi).1
    rcases localEventAdvance_cases hadv with
      ⟨it, op, next, result, store, hreq, hexec, rfl, rfl, rfl⟩ |
      ⟨host, hmove, rfl⟩
    · refine ⟨htally.exec (hdebts i pc hi) hlt hreq hexec,
        (hdebts i pc hi).exec htally hreq hexec, ?_⟩
      intro j pcj hne hj
      refine (hdebts j pcj hj).mono (EventHost.Grows.refl _)
        (goneStays_exec ((hdebts i pc hi).lawful htally hreq) hexec) ?_
      intro op' result' hmem
      cases List.mem_singleton.mp hmem
      exact hne rfl
    · refine ⟨htally.move hmove, (hdebts i pc hi).move hmove, ?_⟩
      intro j pcj hne hj
      refine (hdebts j pcj hj).mono hmove.grows (fun _ _ hnone => hnone) ?_
      intro op' result' hmem
      cases hmove <;> simp at hmem
  ambient := by
    intro s event h' spawned _ _ hamb htally hdebts
    obtain ⟨⟨host, spawned'⟩, hhost, heq⟩ := Option.map_eq_some_iff.mp hamb
    cases heq
    obtain ⟨hgrows, -, -, hspawned⟩ := EventHost.ambient_cases hhost
    refine ⟨{ htally.grow hgrows with task_lt := ?_ }, ?_, ?_⟩
    · intro j op result hmem
      exact Nat.lt_add_right _ (htally.task_lt hmem)
    · intro k pc hpc
      obtain ⟨leaseId, rfl⟩ := hspawned pc (List.mem_of_getElem? hpc)
      trivial
    · intro j pc hj
      have hmono : EventDebt { s.shared with host := host } (s.log ++ []) j pc :=
        (hdebts j pc hj).mono hgrows (fun _ _ hnone => hnone)
          (by simp [Untouched])
      rwa [List.append_nil] at hmono

theorem LocalEventReachable.tally (hreach : LocalEventReachable config s) :
    EventTally s.shared s.log s.tasks.length :=
  ((eventKeeps config).holds hreach).1

theorem LocalEventReachable.debt (hreach : LocalEventReachable config s)
    {i : Nat} (hi : s.tasks[i]? = some pc) :
    EventDebt s.shared s.log i pc :=
  ((eventKeeps config).holds hreach).2 i pc hi

/-- Durable delivery is at least once.  Take an `emit` that returned, and a
durable subscription it listed and whose source and template the event matches.
As long as the subscription is there, the event is in its mailbox, or the
transport of one of its streams has pulled it. -/
theorem emitted_kept_or_pulled {i : Nat} {event : EventRecord}
    {subs : List SubscriptionRecord} {sub : SubscriptionRecord}
    (hreach : LocalEventReachable config s)
    (hok : s.tasks[i]? = some (.returned (.ok (.emitted event))))
    (hlisted : .store i .listSubscriptions (.ok subs) ∈ s.log)
    (hsub : sub ∈ subs) (hdurable : sub.delivery = .durable)
    (hwants : sub.Wants event = true)
    (hthere : sub.registrationId ∈ s.shared.store.subscriptions) :
    ∃ n, (∃ box, s.shared.store.mailboxes[sub.registrationId]? = some box ∧
        box.entries[n]? = some { event with seqNum := n }) ∨
      ∃ c handback, s.shared.host.registrationOf c = some sub.registrationId ∧
        .ok (eventRecordToProto { event with seqNum := n } handback) ∈
          s.shared.host.pulledOn c := by
  have htally := hreach.tally
  have hcov : Covered s.shared.store s.log i event [] := hreach.debt hok
  -- The mailbox is there because the subscription is.
  obtain ⟨box, hbox⟩ : ∃ box,
      s.shared.store.mailboxes[sub.registrationId]? = some box := by
    refine Option.ne_none_iff_exists'.mp fun hnone => ?_
    rw [← htally.posted.paired] at hnone
    rw [Std.ExtTreeMap.mem_iff_isSome_getElem?, hnone] at hthere
    cases hthere
  rcases hcov subs hlisted sub hsub hdurable hwants with hmem | hdealt
  · cases hmem
  rcases hdealt with ⟨n, henq⟩ | ⟨-, hnone⟩
  · refine ⟨n, ?_⟩
    rcases htally.posted.kept henq hbox with hkept | ⟨j, hacked⟩
    · exact Or.inl ⟨box, hbox, hkept⟩
    · exact Or.inr (htally.delivered hacked henq)
  · rw [hnone] at hbox
    cases hbox

end Process

def newsroom : EventConfig where
  lease := .default
  capacity := 256
  eventCapacity := 2

def forecast : SubscribeRequest where
  source := "weather"
  template := (∅ : Attrs).insert "event_type" "rain"
  delivery := .durable
  ttlSecs := 60
  handback := [7]

def shower (eventType : String) : EmitRequest where
  source := "weather"
  eventType := eventType
  attrs := ∅
  payload := [1]

/-- A subscriber, one event for it, and a stream that delivers and acknowledges
the event. -/
def showerDelivered : List LocalEventAct :=
  [.call (.subscribe forecast), .step 0 (.manager (.uuids "r" "l")),
    .step 0 (.store .sorted),
    .call (.emit (shower "rain")), .step 1 (.manager (.uuid "e")),
    .step 1 (.store .sorted), .step 1 (.store .sorted), .step 1 (.manager .go),
    .call (.receive "r"), .step 2 (.store .sorted), .step 2 (.manager .go),
    .step 2 (.store .sorted), .step 2 (.manager .go), .ambient (.pull 0),
    .step 2 (.manager .go), .step 2 (.store .sorted)]

def showerOver : LocalEventProc :=
  (run (localEventProgram newsroom).step LocalEventProc.new
    showerDelivered).get (by decide)

theorem showerOver_run :
    run (localEventProgram newsroom).step LocalEventProc.new showerDelivered =
      some showerOver :=
  rfl

theorem emitted_kept_or_pulled_shower :
    ∃ event subs sub, showerOver.tasks[1]? =
        some (.returned (.ok (.emitted event))) ∧
      .store 1 .listSubscriptions (.ok subs) ∈ showerOver.log ∧ sub ∈ subs ∧
      sub.delivery = .durable ∧ sub.Wants event = true ∧
      sub.registrationId ∈ showerOver.shared.store.subscriptions ∧
      ∃ n, (∃ box, showerOver.shared.store.mailboxes[sub.registrationId]? =
          some box ∧ box.entries[n]? = some { event with seqNum := n }) ∨
        ∃ c handback,
          showerOver.shared.host.registrationOf c = some sub.registrationId ∧
          .ok (eventRecordToProto { event with seqNum := n } handback) ∈
            showerOver.shared.host.pulledOn c := by
  have hlog : showerOver.log[2]? =
      some (.store 1 .listSubscriptions (.ok _)) := rfl
  have hlisted := List.mem_of_getElem? hlog
  exact ⟨_, _, _, rfl, hlisted, List.mem_singleton.mpr rfl, rfl, by decide,
    by decide, emitted_kept_or_pulled ⟨_, showerOver_run⟩ rfl hlisted
      (List.mem_singleton.mpr rfl) rfl (by decide) (by decide)⟩

/-- An entry that a stream has acknowledged was one event's only, and no stream
finds it in the mailbox again. -/
theorem acked_once {config : EventConfig} {s : LocalEventProc}
    (hreach : LocalEventReachable config s) {i n : Nat} {reg : String}
    (hacked : AckedBy s.log i reg n) (after limit : Nat) :
    (∃! event, Enqueued s.log reg event n) ∧
      ∀ e ∈ s.shared.store.peek reg after limit, e.seqNum ≠ n := by
  have hposted := hreach.tally.posted
  obtain ⟨event, henq⟩ := hposted.acked_enqueued hacked
  refine ⟨⟨event, henq, fun _ h => hposted.enqueued_unique h henq⟩, ?_⟩
  rintro e he rfl
  obtain ⟨box, l, hbox, hl⟩ := mem_peek he
  obtain ⟨event', -, rfl⟩ := hposted.entry hbox hl
  cases hl.symm.trans (hposted.acked_gone hacked hbox)

theorem acked_once_shower :
    AckedBy showerOver.log 2 "r" 1 ∧
      ∀ e ∈ showerOver.shared.store.peek "r" 0 8, e.seqNum ≠ 1 := by
  have hacked : AckedBy showerOver.log 2 "r" 1 :=
    ⟨[1], by simp, List.mem_of_getElem? (i := 7) rfl⟩
  exact ⟨hacked, (acked_once ⟨_, showerOver_run⟩ hacked 0 8).2⟩

end Coordin8
