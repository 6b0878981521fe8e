import Coordin8.Event.Delivery
import Coordin8.Support.Cursor

/-!
# A durable stream reads its mailbox in order

What a durable `Receive` stream sends, against what was enqueued for its
registration.  `Awaits` ties the point where the loop stands to the numbers it
has sent and those it has read and is still to send; no move of the loop but a
read of the mailbox changes the two lists put together.  Over the in-memory
store these numbers skip nothing that another stream has not acknowledged.
-/

namespace Coordin8

open Support Support.DashMap EventPc

/-! ## The numbers a stream sends -/

/-- The number of an event on a channel. -/
def seqOf : Except Status EventMessage → Option Nat
  | .ok message => some message.seqNum
  | .error _ => none

/-- The numbers sent on a channel. -/
def EventHost.sentSeqs (h : EventHost) (c : Nat) : List Nat :=
  (h.sentOn c).filterMap seqOf

/-- Where a durable stream stands, when it has sent the numbers `sent` and has
read `rest` on top of these. -/
def EventPc.Awaits (c : Nat) (sub : SubscriptionRecord) (sent rest : List Nat) :
    EventPc → Prop
  | .receivePeek st =>
      st.channel = c ∧ st.sub = sub ∧ rest = [] ∧ sent = [] ∧ st.cursor = 0
  | .durableSend st e batch =>
      st.channel = c ∧ st.sub = sub ∧ rest = (e :: batch).map EventRecord.seqNum
  | .durableReserve st e batch | .durableAck st e batch =>
      st.channel = c ∧ st.sub = sub ∧ rest = batch.map EventRecord.seqNum ∧
        sent.getLast? = some e.seqNum
  | .durablePeek st | .durableWait st =>
      st.channel = c ∧ st.sub = sub ∧ rest = [] ∧ st.cursor = lastNum sent
  | .sendError d _ => d = c
  | .returned _ => True
  | _ => False

variable {st : EventStream} {sent : List Nat} {box : Mailbox}

section Awaits

variable {config : EventConfig} {i c : Nat} {h h' : EventHost}
  {pc pc' : EventPc} {events : List EventLog} {sub : SubscriptionRecord}
  {rest : List Nat}

/-- A move of the loop that does not read the mailbox only passes numbers
on. -/
theorem EventMove.awaits (hmove : EventMove config i h pc h' pc' events)
    (hpc : pc.Awaits c sub (h.sentSeqs c) rest) :
    ∃ rest', h'.sentSeqs c ++ rest' = h.sentSeqs c ++ rest ∧
      pc'.Awaits c sub (h'.sentSeqs c) rest' := by
  cases hmove with
  | @wakeup st received position hrecv =>
      refine ⟨rest, rfl, ?_⟩
      unfold afterWakeup
      split
      · split
        · exact hpc
        · exact hpc
      · exact hpc
  | @sent pc next d item ch hsending hch hroom =>
      have hsent : (h.setQueue d ch (ch.queue.send item)).sentSeqs d =
          h.sentSeqs d ++ (seqOf item).toList := by
        unfold EventHost.sentSeqs
        rw [EventHost.sentOn_setQueue hch, if_pos rfl, Mpsc.sent_send,
          EventHost.sentOn_eq hch]
        cases hitem : seqOf item <;> simp [hitem]
      cases pc with
      | durableSend st e batch =>
          cases hsending
          obtain ⟨rfl, rfl, rfl⟩ := hpc
          refine ⟨batch.map EventRecord.seqNum, ?_, rfl, rfl, rfl, ?_⟩ <;>
            rw [hsent] <;> simp [seqOf, eventRecordToProto]
      | sendError d status =>
          cases hsending
          obtain rfl := hpc
          refine ⟨rest, ?_, trivial⟩
          rw [hsent]
          simp [seqOf]
      | bestEffortSend => cases hpc
      | _ => cases hsending
  | reserved => exact ⟨rest, rfl, hpc⟩
  | hangup => exact ⟨rest, rfl, trivial⟩
  | _ => cases hpc

theorem awaits_opening (hdurable : sub.delivery = .durable) :
    (opening (h.stream sub)).Awaits h.channels.length sub [] [] := by
  have hstream : (h.stream sub).sub.delivery = .durable := hdurable
  rw [opening, if_pos hstream]
  exact ⟨rfl, rfl, rfl, rfl, rfl⟩

theorem awaits_flush {batch : List EventRecord} (hc : st.channel = c) (hsub : st.sub = sub)
    (hcursor : batch = [] → st.cursor = lastNum sent) :
    (flush st batch).Awaits c sub sent (batch.map EventRecord.seqNum) := by
  cases batch with
  | nil => exact ⟨hc, hsub, rfl, hcursor rfl⟩
  | cons e batch => exact ⟨hc, hsub, rfl⟩

theorem awaits_advanceCursor {e : EventRecord}
    {batch : List EventRecord} (hc : st.channel = c)
    (hsub : st.sub = sub) (hlast : sent.getLast? = some e.seqNum) :
    (advanceCursor st e.seqNum batch).Awaits c sub sent
      (batch.map EventRecord.seqNum) := by
  cases batch with
  | nil => exact ⟨hc, hsub, rfl, by simp [lastNum, hlast]⟩
  | cons e batch => exact ⟨hc, hsub, rfl⟩

end Awaits

/-! ## Reading the in-memory mailbox -/

/-- The entry was enqueued, and no other stream has acknowledged it. -/
def Due (log : List EventLog) (i : Nat) (reg : String) (n : Nat) : Prop :=
  (∃ event, Enqueued log reg event n) ∧ ∀ j, j ≠ i → ¬ AckedBy log j reg n

section Read

variable {store store' : InMemoryEventStore} {log : List EventLog}
  {i k n : Nat} {reg : String} {it : SubscriptionIteration} {op : EventOp}
  {result : op.Result}

/-- A call of the store makes nothing due but an entry with a new number. -/
theorem Due.of_exec (hposted : Posted store log)
    (hexec : store.exec it op = (result, store'))
    (hdue : Due (log ++ [.store k op result]) i reg n) :
    Due log i reg n ∨ ∀ event m, Enqueued log reg event m → m < n := by
  obtain ⟨⟨event, henq⟩, hacked⟩ := hdue
  rcases enqueued_append_store.mp henq with henq | heq
  · exact Or.inl ⟨⟨event, henq⟩, fun j hj hold => hacked j hj hold.append⟩
  · cases heq
    right
    intro event' m hm
    simp only [InMemoryEventStore.exec, InMemoryEventStore.enqueue] at hexec
    split at hexec
    · next box hbox =>
      cases hexec
      exact Nat.lt_succ_of_le (hposted.numbered hm hbox)
    · cases hexec

/-- The numbers of the entries of a mailbox. -/
def Mailbox.rows (box : Mailbox) : List Nat :=
  box.entries.keys

theorem Mailbox.rows_sorted (box : Mailbox) : box.rows.Pairwise (· < ·) := by
  refine Std.ExtTreeMap.ordered_keys.imp fun hlt => ?_
  exact Nat.compare_eq_lt.mp hlt

theorem Mailbox.mem_rows : n ∈ box.rows ↔ ∃ e, box.entries[n]? = some e := by
  rw [Mailbox.rows, Std.ExtTreeMap.mem_keys,
    Std.ExtTreeMap.mem_iff_isSome_getElem?, Option.isSome_iff_exists]

theorem Posted.map_seqNum_after (hposted : Posted store log)
    (hbox : store.mailboxes[reg]? = some box) (c limit : Nat) :
    (box.after c limit).map EventRecord.seqNum = page c limit box.rows := by
  have hkey : ∀ entry ∈ (box.entries.toList.filter fun e => c < e.1).take limit,
      EventRecord.seqNum entry.2 = entry.1 := by
    intro entry hmem
    have hmem := (List.mem_filter.mp (List.mem_of_mem_take hmem)).1
    obtain ⟨event, -, heq⟩ := hposted.entry hbox
      (Std.ExtTreeMap.mem_toList_iff_getElem?_eq_some.mp hmem)
    rw [heq]
  rw [Mailbox.after, List.map_map, page, Mailbox.rows,
    ← Std.ExtTreeMap.map_fst_toList_eq_keys, List.filter_map, ← List.map_take]
  exact List.map_congr_left hkey

theorem inOrder_peek (hposted : Posted store log)
    (hread : InOrder (Due log i reg) sent)
    (hown : ∀ n, AckedBy log i reg n → n ∈ sent) (limit : Nat) :
    InOrder (Due log i reg) (sent ++
      (store.peek reg (lastNum sent) limit).map EventRecord.seqNum) := by
  unfold InMemoryEventStore.peek
  split
  · next box hbox =>
    rw [hposted.map_seqNum_after hbox]
    refine hread.append (page_sorted box.rows_sorted)
      (fun n hn => (mem_page hn).2) ?_
    rintro n ⟨⟨event, henq⟩, hothers⟩ hgt hle
    refine page_complete box.rows_sorted ?_ hgt hle
    rcases hposted.kept henq hbox with hkept | ⟨j, hacked⟩
    · exact Mailbox.mem_rows.mpr ⟨_, hkept⟩
    · by_cases hj : j = i
      · subst hj
        have hle' := le_lastNum hread.sorted (hown n hacked)
        exact absurd hgt (Nat.not_lt.mpr hle')
      · exact absurd hacked (hothers j hj)
  · simpa using hread

theorem Posted.le_of_peek_eq_nil (hposted : Posted store log) {c : Nat} {e : EventRecord}
    (hpeek : store.peek reg c mailboxBatch = [])
    (hbox : store.mailboxes[reg]? = some box) (hn : box.entries[n]? = some e) :
    n ≤ c := by
  have hafter : box.after c mailboxBatch = [] := by
    simpa [InMemoryEventStore.peek, hbox] using hpeek
  have hpage : page c mailboxBatch box.rows = [] := by
    rw [← hposted.map_seqNum_after hbox, hafter]
    rfl
  exact le_of_page_eq_nil (by decide) hpage (Mailbox.mem_rows.mpr ⟨e, hn⟩)

end Read

/-! ## The invariant of a stream -/

/-- The calls that have not opened a channel, and the ones that are over. -/
def EventPc.unopened : EventPc → Bool
  | .returned _ => false
  | pc => pc.channel.isNone

/-- The stream of the task `i` on the channel `c` has read `rest` on top of what
it has sent, in order. -/
structure Reads (h : EventHost) (log : List EventLog) (i c : Nat)
    (sub : SubscriptionRecord) (pc : EventPc) (rest : List Nat) : Prop where
  awaits : pc.Awaits c sub (h.sentSeqs c) rest
  inOrder : InOrder (Due log i sub.registrationId) (h.sentSeqs c ++ rest)
  enqueued : ∀ n ∈ h.sentSeqs c ++ rest,
    ∃ event, Enqueued log sub.registrationId event n
  ownAcked : ∀ n, AckedBy log i sub.registrationId n → n ∈ h.sentSeqs c
  messages : ∀ m, .ok m ∈ h.sentOn c → ∃ e, Filed log sub.registrationId e ∧
    m = eventRecordToProto e sub.handback

/-- The durable stream of a task, if it has opened one. -/
def StreamOrder (h : LocalEventHost) (log : List EventLog) (i : Nat)
    (pc : EventPc) : Prop :=
  (pc.unopened = true → ∀ c, .opened i c ∉ log) ∧
    ∀ c sub, .opened i c ∈ log →
      h.host.registrationOf c = some sub.registrationId → Created log sub →
      sub.delivery = .durable → ∃ rest, Reads h.host log i c sub pc rest

/-- What the log says about the channels: who opened them is there, they are
for registrations that were created, and only their owners acknowledge. -/
structure OpenedTasks (h : LocalEventHost) (log : List EventLog) (n : Nat) :
    Prop where
  task_lt : ∀ {j c}, .opened j c ∈ log → j < n
  registered : ∀ {j c}, .opened j c ∈ log →
    ∃ sub, Created log sub ∧ h.host.registrationOf c = some sub.registrationId
  acked : ∀ {j reg m}, AckedBy log j reg m → ∃ c, .opened j c ∈ log

section Order

variable {config : EventConfig} {h : LocalEventHost} {host : EventHost}
  {store : InMemoryEventStore} {log events : List EventLog} {i j k n c : Nat}
  {pc pc' : EventPc} {sub : SubscriptionRecord} {rest : List Nat}
  {it : SubscriptionIteration} {op : EventOp} {result : op.Result}
  {next : op.Result → EventPc}

theorem sent_append {ms : List (Except Status EventMessage)}
    (h : ∀ m, .ok m ∈ ms → ∃ e, Filed log sub.registrationId e ∧
      m = eventRecordToProto e sub.handback) :
    ∀ m, .ok m ∈ ms → ∃ e, Filed (log ++ events) sub.registrationId e ∧
      m = eventRecordToProto e sub.handback := by
  intro m hm
  obtain ⟨e, hfiled, heq⟩ := h m hm
  exact ⟨e, hfiled.append, heq⟩

/-- What happens outside the store, and not on the channel, leaves the stream
alone. -/
theorem Reads.note (hreads : Reads h.host log i c sub pc rest)
    (hsentOn : host.sentOn c = h.host.sentOn c)
    (hnote : ∀ j op result, EventLog.store j op result ∉ events) :
    Reads host (log ++ events) i c sub pc rest := by
  obtain ⟨hawaits, hinOrder, henq, hown, hmessages⟩ := hreads
  have hsent : host.sentSeqs c = h.host.sentSeqs c :=
    congrArg (List.filterMap seqOf) hsentOn
  refine ⟨hsent ▸ hawaits, ?_, ?_, ?_, hsentOn ▸ sent_append hmessages⟩
  · rw [hsent]
    refine hinOrder.mono fun m _ hdue => ?_
    simpa [Due, Enqueued, AckedBy, hnote] using hdue
  · rw [hsent]
    intro m hm
    obtain ⟨event, hevent⟩ := henq m hm
    exact ⟨event, hevent.append⟩
  · rw [hsent]
    intro m hm
    exact hown m (by simpa [AckedBy, hnote] using hm)

/-- The numbers read stay in order when the store is called: what becomes due
has a new number. -/
theorem inOrder_exec {ns : List Nat} {reg : String}
    (hinOrder : InOrder (Due log i reg) ns) (hposted : Posted h.store log)
    (hposted' : Posted store (log ++ [.store k op result]))
    (henq : ∀ n ∈ ns, ∃ event, Enqueued log reg event n)
    (hexec : h.store.exec it op = (result, store)) :
    InOrder (Due (log ++ [.store k op result]) i reg) ns := by
  refine hinOrder.mono fun m hle hdue => ?_
  rcases hdue.of_exec hposted hexec with hold | hnew
  · exact hold
  · obtain ⟨⟨event, hevent⟩, -⟩ := hdue
    have hpos := hposted'.positive hevent
    rcases lastNum_mem_or with hlast | hlast
    · obtain ⟨event', hevent'⟩ := henq _ hlast
      exact absurd (hnew event' _ hevent') (Nat.not_lt.mpr hle)
    · omega

theorem Reads.exec_other (hreads : Reads h.host log i c sub pc rest)
    (hposted : Posted h.store log)
    (hposted' : Posted store (log ++ [.store k op result])) (hne : i ≠ k)
    (hexec : h.store.exec it op = (result, store)) :
    Reads h.host (log ++ [.store k op result]) i c sub pc rest := by
  refine ⟨hreads.awaits,
    inOrder_exec hreads.inOrder hposted hposted' hreads.enqueued hexec, ?_, ?_,
    sent_append hreads.messages⟩
  · intro m hm
    obtain ⟨event, hevent⟩ := hreads.enqueued m hm
    exact ⟨event, hevent.append⟩
  · intro m hm
    rcases ackedBy_append_store.mp hm with hold | ⟨heq, -⟩
    · exact hreads.ownAcked m hold
    · exact absurd heq hne

theorem Reads.exec_peek (hposted : Posted h.store log)
    (hposted' : Posted store (log ++ [.store i op result]))
    (hc : st.channel = c) (hsub : st.sub = sub)
    (hcursor : st.cursor = lastNum (h.host.sentSeqs c))
    (hinOrder : InOrder (Due log i sub.registrationId) (h.host.sentSeqs c))
    (henq : ∀ n ∈ h.host.sentSeqs c,
      ∃ event, Enqueued log sub.registrationId event n)
    (hown : ∀ n, AckedBy log i sub.registrationId n → n ∈ h.host.sentSeqs c)
    (hmessages : ∀ m, .ok m ∈ h.host.sentOn c →
      ∃ e, Filed log sub.registrationId e ∧ m = eventRecordToProto e sub.handback)
    (hexec : h.store.exec it op = (result, store))
    (hack : ∀ reg ns, op ≠ .ack reg ns) :
    ∃ rest', Reads h.host (log ++ [.store i op result]) i c sub
      (flush st (h.store.peek sub.registrationId st.cursor mailboxBatch))
      rest' := by
  have hbatch : ∀ n ∈ h.host.sentSeqs c ++
      (h.store.peek sub.registrationId st.cursor mailboxBatch).map
        EventRecord.seqNum,
      ∃ event, Enqueued log sub.registrationId event n := by
    intro m hm
    rcases List.mem_append.mp hm with hm | hm
    · exact henq m hm
    · obtain ⟨e, he, rfl⟩ := List.mem_map.mp hm
      obtain ⟨event, hevent, -⟩ := hposted.filed_of_mem_peek he
      exact ⟨event, hevent⟩
  refine ⟨_, awaits_flush hc hsub fun _ => hcursor, ?_, ?_, ?_,
    sent_append hmessages⟩
  · refine inOrder_exec ?_ hposted hposted' hbatch hexec
    rw [hcursor]
    exact inOrder_peek hposted hinOrder hown mailboxBatch
  · intro m hm
    obtain ⟨event, hevent⟩ := hbatch m hm
    exact ⟨event, hevent.append⟩
  · intro m hm
    rcases ackedBy_append_store.mp hm with hold | ⟨-, ns, -, heq⟩
    · exact hown m hold
    · exact absurd (congrArg Sigma.fst heq) (hack _ ns)

theorem Reads.exec_own (hreads : Reads h.host log i c sub pc rest)
    (hposted : Posted h.store log)
    (hposted' : Posted store (log ++ [.store i op result]))
    (hreq : pc.request = some ⟨op, next⟩)
    (hexec : h.store.exec it op = (result, store)) :
    ∃ rest', Reads h.host (log ++ [.store i op result]) i c sub (next result)
      rest' := by
  obtain ⟨hawaits, hinOrder, henq, hown, hmessages⟩ := hreads
  cases pc with
  | receivePeek st =>
      obtain ⟨hc, rfl, rfl, hsent, hcursor⟩ := hawaits
      rw [List.append_nil] at hinOrder henq
      cases hreq
      have hlast : st.cursor = lastNum (h.host.sentSeqs c) := by
        rw [hsent, hcursor, lastNum_nil]
      have hread := Reads.exec_peek hposted hposted' hc rfl hlast hinOrder
        henq hown hmessages hexec nofun
      cases hexec
      rwa [hcursor] at hread
  | durablePeek st =>
      obtain ⟨hc, rfl, rfl, hcursor⟩ := hawaits
      rw [List.append_nil] at hinOrder henq
      cases hreq
      have hread := Reads.exec_peek hposted hposted' hc rfl hcursor hinOrder
        henq hown hmessages hexec nofun
      cases hexec
      exact hread
  | durableAck st e batch =>
      obtain ⟨hc, rfl, rfl, hlast⟩ := hawaits
      cases hreq
      have hinOrder' := inOrder_exec hinOrder hposted hposted' henq hexec
      cases hexec
      refine ⟨_, awaits_advanceCursor hc rfl hlast, hinOrder', ?_, ?_,
        sent_append hmessages⟩
      · intro m hm
        obtain ⟨event, hevent⟩ := henq m hm
        exact ⟨event, hevent.append⟩
      · intro m hm
        rcases ackedBy_append_store.mp hm with hold | ⟨-, ns, hmem, heq⟩
        · exact hown m hold
        · cases heq
          obtain rfl := List.mem_singleton.mp hmem
          exact List.mem_of_getLast? hlast
  | durableSend | durableReserve | durableWait | sendError | returned =>
      cases hreq
  | _ => cases hawaits

theorem EventMove.note (hmove : EventMove config i h.host pc host pc' events) :
    ∀ j op result, EventLog.store j op result ∉ events := by
  intro j op result
  cases hmove <;> simp

theorem EventMove.sent_filed (hmove : EventMove config i h.host pc host pc' events)
    (hpc : pc.Awaits c sub (h.host.sentSeqs c) rest)
    (hdebt : EventDebt h log i pc) {m : EventMessage}
    (hm : .ok m ∈ host.sentOn c) :
    .ok m ∈ h.host.sentOn c ∨ ∃ e, Filed log sub.registrationId e ∧
      m = eventRecordToProto e sub.handback := by
  cases hmove with
  | @sent pc next d item ch hsending hch hroom =>
      rw [EventHost.sentOn_setQueue hch] at hm
      split at hm
      · next heq =>
        rcases List.mem_append.mp hm with hm | hm
        · exact .inl (heq ▸ EventHost.sentOn_eq hch ▸ hm)
        · have hitem := List.mem_singleton.mp hm
          cases pc with
          | durableSend st e batch =>
              cases hsending
              obtain ⟨-, rfl, -⟩ := hpc
              cases hitem
              exact .inr ⟨e, hdebt.2 e List.mem_cons_self, rfl⟩
          | sendError =>
              cases hsending
              cases hitem
          | bestEffortSend => cases hpc
          | _ => cases hsending
      · exact .inl hm
  | wakeup | reserved | hangup => exact .inl hm
  | _ => cases hpc

theorem Reads.move_own (hreads : Reads h.host log i c sub pc rest)
    (hdebt : EventDebt h log i pc)
    (hmove : EventMove config i h.host pc host pc' events) :
    ∃ rest', Reads host (log ++ events) i c sub pc' rest' := by
  have hnote := hmove.note
  obtain ⟨rest', heq, hawaits⟩ := hmove.awaits hreads.awaits
  refine ⟨rest', hawaits, ?_, ?_, ?_, sent_append fun m hm =>
    (hmove.sent_filed hreads.awaits hdebt hm).elim (hreads.messages m) id⟩
  · rw [heq]
    refine hreads.inOrder.mono fun m _ hdue => ?_
    simpa [Due, Enqueued, AckedBy, hnote] using hdue
  · rw [heq]
    intro m hm
    obtain ⟨event, hevent⟩ := hreads.enqueued m hm
    exact ⟨event, hevent.append⟩
  · intro m hm
    have hold := hreads.ownAcked m (by simpa [AckedBy, hnote] using hm)
    exact ((hmove.grows.sentOn c).filterMap seqOf).subset hold

theorem Reads.opened (hposted : Posted h.store log)
    (hdurable : sub.delivery = .durable)
    (hnone : ∀ n, ¬ AckedBy log i sub.registrationId n)
    (hsent : h.host.sentOn h.host.channels.length = []) :
    Reads (h.host.openChannel sub.registrationId)
      (log ++ [.opened i h.host.channels.length]) i h.host.channels.length sub
      (opening (h.host.stream sub)) [] := by
  have hnil : (h.host.openChannel sub.registrationId).sentSeqs
      h.host.channels.length = [] := by
    simp [EventHost.sentSeqs, EventHost.sentOn_openChannel, hsent]
  refine ⟨?_, ?_, ?_, ?_, ?_⟩
  · rw [hnil]
    exact awaits_opening hdurable
  · rw [hnil]
    refine InOrder.nil fun n hdue => ?_
    obtain ⟨⟨event, henq⟩, -⟩ := hdue
    exact hposted.positive (show Enqueued log _ event n by
      simpa [Enqueued] using henq)
  · simp [hnil]
  · intro n hn
    exact absurd (by simpa [AckedBy] using hn) (hnone n)
  · simp [EventHost.sentOn_openChannel, hsent]

theorem EventDebt.opened_channel (hdebt : EventDebt h log i pc)
    (hc : pc.channel = some c) : .opened i c ∈ log := by
  cases pc with
  | receivePeek | bestEffort | bestEffortSend | durablePeek | durableWait =>
      cases hc
      exact hdebt.opened
  | durableSend | durableReserve | durableAck =>
      cases hc
      exact hdebt.1.opened
  | sendError =>
      cases hc
      exact hdebt
  | _ => cases hc

theorem EventMove.unopened (hmove : EventMove config i h.host pc host pc' events)
    (hpc' : pc'.unopened = true) :
    pc.unopened = true ∧ ∀ c, .opened i c ∉ events := by
  cases hmove with
  | opened =>
      unfold opening at hpc'
      split at hpc' <;> cases hpc'
  | bestEffort =>
      unfold afterBroadcast at hpc'
      split at hpc'
      · split at hpc' <;> cases hpc'
      · cases hpc'
  | wakeup =>
      unfold afterWakeup at hpc'
      split at hpc'
      · split at hpc' <;> cases hpc'
      · cases hpc'
  | @sent pc next c item ch hsending hch hroom =>
      cases pc with
      | bestEffortSend | durableSend | sendError =>
          cases hsending
          cases hpc'
      | _ => cases hsending
  | reserved | emitSend | hangup | refused | leaseAnswered => cases hpc'
  | drawEvent | drawSubscription | leaseCalled | lease => exact ⟨rfl, by simp⟩

theorem EventResume.unopened (hres : EventResume pc op result pc')
    (hpc' : pc'.unopened = true) : pc.unopened = true := by
  cases hres with
  | ended | streamFailed => cases hpc'
  | @backlog stream batch | @read stream batch | @acked stream event batch =>
      cases batch <;> cases hpc'
  | listed | enqueued | found | cancelling | removed | renewing => rfl

end Order

/-! ## Every interleaving -/

section Steps

variable {config : EventConfig} {h : LocalEventHost} {host : EventHost}
  {store : InMemoryEventStore} {log more events : List EventLog}
  {i j n c : Nat} {pc pc' pcj : EventPc} {sub : SubscriptionRecord}
  {it : SubscriptionIteration} {op : EventOp} {result : op.Result}
  {next : op.Result → EventPc}

theorem OpenedTasks.created (hopened : OpenedTasks h log n)
    (hmem : .opened j c ∈ log)
    (hreg : h.host.registrationOf c = some sub.registrationId)
    (hposted : Posted store (log ++ more)) (hsub : Created (log ++ more) sub) :
    Created log sub := by
  obtain ⟨sub', hsub', hreg'⟩ := hopened.registered hmem
  have heq : sub'.registrationId = sub.registrationId :=
    Option.some.inj (hreg'.symm.trans hreg)
  obtain rfl := hposted.created_unique hsub'.append hsub heq
  exact hsub'

theorem OpenedTasks.exec (hopened : OpenedTasks h log n)
    (hdebt : EventDebt h log i pc) (hreq : pc.request = some ⟨op, next⟩) :
    OpenedTasks { h with store := store } (log ++ [.store i op result]) n := by
  constructor
  · simpa using @hopened.task_lt
  · intro j c hmem
    obtain ⟨sub, hsub, hreg⟩ := hopened.registered (by simpa using hmem)
    exact ⟨sub, hsub.append, hreg⟩
  · intro j reg m hacked
    rcases ackedBy_append_store.mp hacked with hold | ⟨rfl, ns, hm, heq⟩
    · obtain ⟨c, hmem⟩ := hopened.acked hold
      exact ⟨c, List.mem_append_left _ hmem⟩
    · cases heq
      cases pc with
      | durableAck st e batch =>
          exact ⟨st.channel, List.mem_append_left _ (hdebt.opened_channel rfl)⟩
      | _ => cases hreq

theorem StreamOrder.exec_own (horder : StreamOrder h log i pc)
    (hopened : OpenedTasks h log n) (hposted : Posted h.store log)
    (hposted' : Posted store (log ++ [.store i op result]))
    (hreq : pc.request = some ⟨op, next⟩)
    (hexec : h.store.exec it op = (result, store)) :
    StreamOrder { h with store := store } (log ++ [.store i op result]) i
      (next result) := by
  refine ⟨fun hpc' c hmem => ?_, fun c sub hmem hreg hsub hdurable => ?_⟩
  · exact horder.1 ((EventResume.of_request hreq result).unopened hpc') c
      (by simpa using hmem)
  · have hmem : .opened i c ∈ log := by simpa using hmem
    have hsub := hopened.created hmem hreg hposted' hsub
    obtain ⟨rest, hreads⟩ := horder.2 c sub hmem hreg hsub hdurable
    exact hreads.exec_own hposted hposted' hreq hexec

theorem StreamOrder.exec_other (horder : StreamOrder h log j pcj)
    (hopened : OpenedTasks h log n) (hposted : Posted h.store log)
    (hposted' : Posted store (log ++ [.store i op result])) (hne : j ≠ i)
    (hexec : h.store.exec it op = (result, store)) :
    StreamOrder { h with store := store } (log ++ [.store i op result]) j
      pcj := by
  refine ⟨fun hpc c hmem => ?_, fun c sub hmem hreg hsub hdurable => ?_⟩
  · exact horder.1 hpc c (by simpa using hmem)
  · have hmem : .opened j c ∈ log := by simpa using hmem
    have hsub := hopened.created hmem hreg hposted' hsub
    obtain ⟨rest, hreads⟩ := horder.2 c sub hmem hreg hsub hdurable
    exact ⟨rest, hreads.exec_other hposted hposted' hne hexec⟩

theorem OpenedTasks.grow (hopened : OpenedTasks h log n)
    (hgrows : h.host.Grows host) :
    OpenedTasks { h with host := host } log n where
  task_lt := hopened.task_lt
  registered hmem := by
    obtain ⟨sub, hsub, hreg⟩ := hopened.registered hmem
    exact ⟨sub, hsub, hgrows.registrationOf _ _ hreg⟩
  acked := hopened.acked

theorem OpenedTasks.move (hopened : OpenedTasks h log n)
    (hdebt : EventDebt h log i pc) (hi : i < n)
    (hmove : EventMove config i h.host pc host pc' events) :
    OpenedTasks { h with host := host } (log ++ events) n := by
  have hgrown := hopened.grow hmove.grows
  cases hmove with
  | @opened sub =>
      constructor
      · intro j c hmem
        rcases List.mem_append.mp hmem with hmem | hmem
        · exact hopened.task_lt hmem
        · cases List.mem_singleton.mp hmem
          exact hi
      · intro j c hmem
        rcases List.mem_append.mp hmem with hmem | hmem
        · obtain ⟨sub', hsub', hreg⟩ := hgrown.registered hmem
          exact ⟨sub', hsub'.append, hreg⟩
        · cases List.mem_singleton.mp hmem
          exact ⟨sub, Created.append hdebt,
            EventHost.registrationOf_openChannel⟩
      · intro j reg m hacked
        obtain ⟨c, hmem⟩ := hopened.acked (show AckedBy log j reg m by
          simpa [AckedBy] using hacked)
        exact ⟨c, List.mem_append_left _ hmem⟩
  | drawSubscription =>
      constructor
      · simpa using @hopened.task_lt
      · simpa [Created] using @hgrown.registered
      · simpa [AckedBy] using @hopened.acked
  | _ => simpa using hgrown

theorem OpenedTasks.registrationOf_eq (hopened : OpenedTasks h log n)
    (hgrows : h.host.Grows host) (hmem : .opened j c ∈ log) {reg : String}
    (hreg : host.registrationOf c = some reg) :
    h.host.registrationOf c = some reg := by
  obtain ⟨sub', -, hreg'⟩ := hopened.registered hmem
  have heq := (hgrows.registrationOf _ _ hreg').symm.trans hreg
  rw [hreg', heq]

theorem StreamOrder.move_other (horder : StreamOrder h log j pcj)
    (hopened : OpenedTasks h log n) (htally : EventTally h log n)
    (hdebt : EventDebt h log i pc) (hne : j ≠ i)
    (hmove : EventMove config i h.host pc host pc' events) :
    StreamOrder { h with host := host } (log ++ events) j pcj := by
  have hnote := hmove.note
  have hback : ∀ {c}, .opened j c ∈ log ++ events → .opened j c ∈ log := by
    intro c hmem
    rcases List.mem_append.mp hmem with hmem | hmem
    · exact hmem
    · cases hmove with
      | opened =>
          cases List.mem_singleton.mp hmem
          exact absurd rfl hne
      | _ => simp at hmem
  refine ⟨fun hpc c hmem => horder.1 hpc c (hback hmem), ?_⟩
  intro c sub hmem hreg hsub hdurable
  have hmem := hback hmem
  obtain ⟨rest, hreads⟩ := horder.2 c sub hmem
    (hopened.registrationOf_eq hmove.grows hmem hreg)
    (by simpa [Created, hnote] using hsub) hdurable
  -- The mover sends on a channel of its own.
  have hother : pc.channel ≠ some c := fun hc =>
    hne (htally.opened_unique hmem (hdebt.opened_channel hc))
  exact ⟨rest, hreads.note (hmove.sentOn_eq hother) hnote⟩

theorem StreamOrder.move_own (horder : StreamOrder h log i pc)
    (hopened : OpenedTasks h log n) (htally : EventTally h log n)
    (hdebt : EventDebt h log i pc)
    (hmove : EventMove config i h.host pc host pc' events) :
    StreamOrder { h with host := host } (log ++ events) i pc' := by
  have hnote := hmove.note
  have hgrows := hmove.grows
  have hold : ∀ {c sub}, .opened i c ∈ log →
      host.registrationOf c = some sub.registrationId →
      Created (log ++ events) sub → sub.delivery = .durable →
      ∃ rest, Reads host (log ++ events) i c sub pc' rest := by
    intro c sub hmem hreg hsub hdurable
    obtain ⟨rest, hreads⟩ := horder.2 c sub hmem
      (hopened.registrationOf_eq hgrows hmem hreg)
      (by simpa [Created, hnote] using hsub) hdurable
    exact hreads.move_own hdebt hmove
  refine ⟨fun hpc' c hmem => ?_, fun c sub hmem hreg hsub hdurable => ?_⟩
  · obtain ⟨hpc, hnew⟩ := hmove.unopened hpc'
    rcases List.mem_append.mp hmem with hmem | hmem
    · exact horder.1 hpc c hmem
    · exact hnew c hmem
  · rcases List.mem_append.mp hmem with hmem | hmem
    · exact hold hmem hreg hsub hdurable
    · cases hmove with
      | @opened sub₀ =>
          cases List.mem_singleton.mp hmem
          have hreg₀ : sub₀.registrationId = sub.registrationId :=
            Option.some.inj
              (EventHost.registrationOf_openChannel.symm.trans hreg)
          have hsub : Created log sub := by simpa [Created] using hsub
          obtain rfl := htally.posted.created_unique hdebt hsub hreg₀
          refine ⟨[], Reads.opened htally.posted hdurable (fun m hacked => ?_)
            (by simp [EventHost.sentOn])⟩
          obtain ⟨c, hc⟩ := hopened.acked hacked
          exact horder.1 rfl c hc
      | _ => simp at hmem

end Steps

section Process

variable {config : EventConfig} {s : LocalEventProc}

theorem streamKeeps (config : EventConfig) :
    (localEventProgram config).Keeps LocalEventProc.new OpenedTasks
      StreamOrder where
  init := by
    refine ⟨⟨?_, ?_, ?_⟩, ?_⟩ <;> simp [LocalEventProc.new, AckedBy]
  call := by
    intro s pc _ _ hentry hopened
    have hnone : ∀ c, .opened s.tasks.length c ∉ s.log := fun c hmem =>
      Nat.lt_irrefl _ (hopened.task_lt hmem)
    refine ⟨{ hopened with task_lt := ?_ }, fun _ => hnone,
      fun c sub hmem => absurd hmem (hnone c)⟩
    intro j c hmem
    exact Nat.lt_succ_of_lt (hopened.task_lt hmem)
  step := by
    intro s i pc choice h' pc' events hreach _ hi hadv hopened horders
    have hreach : LocalEventReachable config s := hreach
    have htally := hreach.tally
    have hdebt := hreach.debt hi
    have hlt : i < s.tasks.length := (List.getElem?_eq_some_iff.mp hi).1
    rcases localEventAdvance_cases hadv with
      ⟨it, op, next, result, store, hreq, hexec, rfl, rfl, rfl⟩ |
      ⟨host, hmove, rfl⟩
    · have hposted' := (htally.exec hdebt hlt hreq hexec).posted
      exact ⟨hopened.exec hdebt hreq,
        (horders i pc hi).exec_own hopened htally.posted hposted' hreq hexec,
        fun j pcj hne hj => (horders j pcj hj).exec_other hopened htally.posted
          hposted' hne hexec⟩
    · exact ⟨hopened.move hdebt hlt hmove,
        (horders i pc hi).move_own hopened htally hdebt hmove,
        fun j pcj hne hj => (horders j pcj hj).move_other hopened htally hdebt
          hne hmove⟩
  ambient := by
    intro s event h' spawned _ _ hamb hopened horders
    obtain ⟨⟨host, spawned'⟩, hhost, heq⟩ := Option.map_eq_some_iff.mp hamb
    cases heq
    obtain ⟨hgrows, hsent, -, hspawned⟩ := EventHost.ambient_cases hhost
    refine ⟨{ hopened.grow hgrows with task_lt := ?_ }, ?_, ?_⟩
    · intro j c hmem
      exact Nat.lt_add_right _ (hopened.task_lt hmem)
    · intro k pc hpc
      have hnone : ∀ c, .opened (s.tasks.length + k) c ∉ s.log := fun c hmem =>
        absurd (hopened.task_lt hmem) (Nat.not_lt.mpr (Nat.le_add_right _ k))
      exact ⟨fun _ => hnone, fun c sub hmem => absurd hmem (hnone c)⟩
    · intro j pc hj
      refine ⟨(horders j pc hj).1, fun c sub hmem hreg hsub hdurable => ?_⟩
      obtain ⟨rest, hreads⟩ := (horders j pc hj).2 c sub hmem
        (hopened.registrationOf_eq hgrows hmem hreg) hsub hdurable
      have hnoted : Reads host (s.log ++ []) j c sub pc rest :=
        hreads.note (hsent c) (by simp)
      rw [List.append_nil] at hnoted
      exact ⟨rest, hnoted⟩

theorem LocalEventReachable.reads (hreach : LocalEventReachable config s)
    {i c : Nat} {pc : EventPc} {sub : SubscriptionRecord}
    (hi : s.tasks[i]? = some pc) (hopened : .opened i c ∈ s.log)
    (hreg : s.shared.host.registrationOf c = some sub.registrationId)
    (hsub : Created s.log sub) (hdurable : sub.delivery = .durable) :
    ∃ rest, Reads s.shared.host s.log i c sub pc rest :=
  (((streamKeeps config).holds hreach).2 i pc hi).2 c sub hopened hreg hsub
    hdurable

end Process

end Coordin8
