import Coordin8.Event.Moves

/-!
# The mailboxes over a run

What the calls of the in-memory event store leave in it, told from the log of
these calls.  A registration is created once, an entry of a mailbox was
enqueued under its number, an enqueued entry stays until it is acknowledged, and
its number is never used again.  This holds for every sequence of calls that
creates no registration twice and acknowledges only what was enqueued; that the
manager's calls are of this kind is shown where it is used.
-/

namespace Coordin8

open Support Support.DashMap

/-! ## What the log says -/

/-- The registration was created. -/
def Created (log : List EventLog) (sub : SubscriptionRecord) : Prop :=
  ∃ i, .store i (.createSubscription sub) (.ok ()) ∈ log

/-- The event was enqueued for a registration, under the number `n`. -/
def Enqueued (log : List EventLog) (reg : String) (event : EventRecord)
    (n : Nat) : Prop :=
  ∃ i, .store i (.enqueue reg event) (.ok n) ∈ log

/-- The task `i` acknowledged the entry `n` of a registration. -/
def AckedBy (log : List EventLog) (i : Nat) (reg : String) (n : Nat) : Prop :=
  ∃ ns, n ∈ ns ∧ .store i (.ack reg ns) (.ok ()) ∈ log

section Log

variable {log more : List EventLog} {i j n : Nat} {reg : String}
  {sub : SubscriptionRecord} {event : EventRecord} {op : EventOp}
  {result : op.Result}

theorem Created.append (h : Created log sub) : Created (log ++ more) sub := by
  obtain ⟨i, hi⟩ := h
  exact ⟨i, List.mem_append_left _ hi⟩

theorem Enqueued.append (h : Enqueued log reg event n) :
    Enqueued (log ++ more) reg event n := by
  obtain ⟨i, hi⟩ := h
  exact ⟨i, List.mem_append_left _ hi⟩

theorem AckedBy.append (h : AckedBy log i reg n) :
    AckedBy (log ++ more) i reg n := by
  obtain ⟨ns, hn, hi⟩ := h
  exact ⟨ns, hn, List.mem_append_left _ hi⟩

theorem store_append_store {op' : EventOp} {result' : op'.Result} :
    (∃ j, .store j op' result' ∈ log ++ [.store i op result]) ↔
      (∃ j, .store j op' result' ∈ log) ∨
        (⟨op, result⟩ : (op : EventOp) × op.Result) = ⟨op', result'⟩ := by
  simp only [List.mem_append, List.mem_singleton, exists_or,
    EventLog.store.injEq, Sigma.mk.injEq]
  refine or_congr Iff.rfl ⟨?_, ?_⟩
  · rintro ⟨j, rfl, rfl, hr⟩
    exact ⟨rfl, hr.symm⟩
  · rintro ⟨rfl, hr⟩
    exact ⟨i, rfl, rfl, hr.symm⟩

theorem created_append_store :
    Created (log ++ [.store i op result]) sub ↔
      Created log sub ∨
        (⟨op, result⟩ : (op : EventOp) × op.Result) =
          ⟨.createSubscription sub, .ok ()⟩ :=
  store_append_store

theorem enqueued_append_store :
    Enqueued (log ++ [.store i op result]) reg event n ↔
      Enqueued log reg event n ∨
        (⟨op, result⟩ : (op : EventOp) × op.Result) =
          ⟨.enqueue reg event, .ok n⟩ :=
  store_append_store

theorem ackedBy_append_store :
    AckedBy (log ++ [.store i op result]) j reg n ↔
      AckedBy log j reg n ∨ j = i ∧ ∃ ns, n ∈ ns ∧
        (⟨op, result⟩ : (op : EventOp) × op.Result) = ⟨.ack reg ns, .ok ()⟩ := by
  simp only [AckedBy, List.mem_append, List.mem_singleton, and_or_left,
    exists_or, EventLog.store.injEq, Sigma.mk.injEq]
  refine or_congr Iff.rfl ⟨?_, ?_⟩
  · rintro ⟨ns, hn, rfl, rfl, hr⟩
    exact ⟨rfl, ns, hn, rfl, hr.symm⟩
  · rintro ⟨rfl, ns, hn, rfl, hr⟩
    exact ⟨ns, hn, rfl, rfl, hr.symm⟩

end Log

/-! ## The store after a run of calls -/

/-- The calls that keep the mailboxes in order. -/
def EventOp.Lawful (log : List EventLog) : EventOp → Prop
  | .createSubscription sub =>
      ∀ sub', Created log sub' → sub'.registrationId ≠ sub.registrationId
  | .ack reg ns => ∀ n ∈ ns, ∃ event, Enqueued log reg event n
  | _ => True

/-- The store against the log of the calls that made it. -/
structure Posted (store : InMemoryEventStore) (log : List EventLog) : Prop where
  created : ∀ {reg : String} {sub}, store.subscriptions[reg]? = some sub →
    sub.registrationId = reg ∧ Created log sub
  created_unique : ∀ {sub sub'}, Created log sub → Created log sub' →
    sub.registrationId = sub'.registrationId → sub = sub'
  paired : ∀ reg : String, store.subscriptions[reg]? = none ↔
    store.mailboxes[reg]? = none
  enqueued_created : ∀ {reg event n}, Enqueued log reg event n →
    ∃ sub, Created log sub ∧ sub.registrationId = reg
  enqueued_unique : ∀ {reg event event' n}, Enqueued log reg event n →
    Enqueued log reg event' n → event = event'
  positive : ∀ {reg event n}, Enqueued log reg event n → 0 < n
  numbered : ∀ {reg : String} {event n box}, Enqueued log reg event n →
    store.mailboxes[reg]? = some box → n ≤ box.lastSeq
  entry : ∀ {reg : String} {box n e}, store.mailboxes[reg]? = some box →
    box.entries[n]? = some e →
    ∃ event, Enqueued log reg event n ∧ e = { event with seqNum := n }
  kept : ∀ {reg : String} {event n box}, Enqueued log reg event n →
    store.mailboxes[reg]? = some box →
    box.entries[n]? = some { event with seqNum := n } ∨ ∃ i, AckedBy log i reg n
  acked_enqueued : ∀ {i reg n}, AckedBy log i reg n →
    ∃ event, Enqueued log reg event n
  acked_gone : ∀ {i : Nat} {reg : String} {n box}, AckedBy log i reg n →
    store.mailboxes[reg]? = some box → box.entries[n]? = none

namespace Posted

variable {store store' : InMemoryEventStore} {log : List EventLog} {i : Nat}
  {reg : String}

theorem new : Posted .new [] := by
  refine ⟨?_, ?_, ?_, ?_, ?_, ?_, ?_, ?_, ?_, ?_, ?_⟩ <;>
    simp [InMemoryEventStore.new, Created, Enqueued, AckedBy]

/-- Only what the log says about creations, entries and acknowledgements
counts. -/
theorem of_log {log' : List EventLog} (h : Posted store log)
    (hcreated : ∀ sub, Created log' sub ↔ Created log sub)
    (henq : ∀ reg event n, Enqueued log' reg event n ↔ Enqueued log reg event n)
    (hacked : ∀ i reg n, AckedBy log' i reg n ↔ AckedBy log i reg n) :
    Posted store log' := by
  constructor
  · simpa only [hcreated] using @h.created
  · simpa only [hcreated] using @h.created_unique
  · exact h.paired
  · simpa only [hcreated, henq] using @h.enqueued_created
  · simpa only [henq] using @h.enqueued_unique
  · simpa only [henq] using @h.positive
  · simpa only [henq] using @h.numbered
  · simpa only [henq] using @h.entry
  · simpa only [henq, hacked] using @h.kept
  · simpa only [henq, hacked] using @h.acked_enqueued
  · simpa only [hacked] using @h.acked_gone

theorem removeSubscription (h : Posted store log) (reg : String) :
    Posted (store.removeSubscription reg) log := by
  have hbox : ∀ {r : String} {box : Mailbox},
      (store.removeSubscription reg).mailboxes[r]? = some box →
      store.mailboxes[r]? = some box := by
    intro r box hr
    simp only [InMemoryEventStore.removeSubscription, get_erase] at hr
    split at hr
    · cases hr
    · exact hr
  refine { h with
    created := ?_, paired := ?_, numbered := ?_, entry := ?_, kept := ?_,
    acked_gone := ?_ }
  · intro r sub hr
    simp only [InMemoryEventStore.removeSubscription, get_erase] at hr
    split at hr
    · cases hr
    · exact h.created hr
  · intro r
    simp only [InMemoryEventStore.removeSubscription, get_erase]
    split
    · simp
    · exact h.paired r
  · intro r event n box henq hr
    exact h.numbered henq (hbox hr)
  · intro r box n e hr
    exact h.entry (hbox hr)
  · intro r event n box henq hr
    exact h.kept henq (hbox hr)
  · intro j r n box hacked hr
    exact h.acked_gone hacked (hbox hr)

theorem createSubscription (h : Posted store log) {sub : SubscriptionRecord}
    (hfresh : ∀ sub', Created log sub' →
      sub'.registrationId ≠ sub.registrationId) :
    Posted (store.createSubscription sub)
      (log ++ [.store i (.createSubscription sub) (.ok ())]) := by
  have hnone : ∀ {event n}, ¬ Enqueued log sub.registrationId event n := by
    intro event n hn
    obtain ⟨sub', hsub', heq⟩ := h.enqueued_created hn
    exact hfresh sub' hsub' heq
  have henq : ∀ {reg event n}, Enqueued (log ++
      [.store i (.createSubscription sub) (.ok ())]) reg event n →
      Enqueued log reg event n := by
    intro reg event n hn
    simpa [enqueued_append_store] using hn
  have hacked : ∀ {j reg n}, AckedBy (log ++
      [.store i (.createSubscription sub) (.ok ())]) j reg n →
      AckedBy log j reg n := by
    intro j reg n hn
    simpa [ackedBy_append_store] using hn
  -- A mailbox is an old one, or the new empty one that nothing went into.
  have hbox : ∀ {reg : String} {box : Mailbox},
      (store.createSubscription sub).mailboxes[reg]? = some box →
      sub.registrationId = reg ∧ box = .empty ∨
        store.mailboxes[reg]? = some box := by
    intro reg box hr
    simp only [InMemoryEventStore.createSubscription, get_insert] at hr
    split at hr
    · next heq => exact Or.inl ⟨heq, (Option.some.inj hr).symm⟩
    · exact Or.inr hr
  constructor
  · intro reg sub' hr
    simp only [InMemoryEventStore.createSubscription, get_insert] at hr
    split at hr
    · next heq =>
      obtain rfl := Option.some.inj hr
      exact ⟨heq, created_append_store.mpr (Or.inr rfl)⟩
    · exact ⟨(h.created hr).1, (h.created hr).2.append⟩
  · intro s₁ s₂ h₁ h₂ heq
    rcases created_append_store.mp h₁ with h₁ | h₁ <;>
      rcases created_append_store.mp h₂ with h₂ | h₂
    · exact h.created_unique h₁ h₂ heq
    · cases h₂
      exact absurd heq (hfresh s₁ h₁)
    · cases h₁
      exact absurd heq.symm (hfresh s₂ h₂)
    · cases h₁
      cases h₂
      rfl
  · intro reg
    simp only [InMemoryEventStore.createSubscription, get_insert]
    split
    · simp
    · exact h.paired reg
  · intro reg event n hn
    obtain ⟨sub', hsub', heq⟩ := h.enqueued_created (henq hn)
    exact ⟨sub', hsub'.append, heq⟩
  · intro reg event event' n hn hn'
    exact h.enqueued_unique (henq hn) (henq hn')
  · intro reg event n hn
    exact h.positive (henq hn)
  · intro reg event n box hn hr
    rcases hbox hr with ⟨rfl, -⟩ | hr
    · exact absurd (henq hn) hnone
    · exact h.numbered (henq hn) hr
  · intro reg box n e hr hn
    rcases hbox hr with ⟨-, rfl⟩ | hr
    · simp [Mailbox.empty] at hn
    · obtain ⟨event, hevent, rfl⟩ := h.entry hr hn
      exact ⟨event, hevent.append, rfl⟩
  · intro reg event n box hn hr
    rcases hbox hr with ⟨rfl, -⟩ | hr
    · exact absurd (henq hn) hnone
    · rcases h.kept (henq hn) hr with hkept | ⟨j, hj⟩
      · exact Or.inl hkept
      · exact Or.inr ⟨j, hj.append⟩
  · intro j reg n hn
    obtain ⟨event, hevent⟩ := h.acked_enqueued (hacked hn)
    exact ⟨event, hevent.append⟩
  · intro j reg n box hn hr
    rcases hbox hr with ⟨-, rfl⟩ | hr
    · simp [Mailbox.empty]
    · exact h.acked_gone (hacked hn) hr

/-- A new entry gets a number that no entry of the registration has had. -/
theorem enqueue (h : Posted store log) {event : EventRecord} {box : Mailbox}
    (hbox : store.mailboxes[reg]? = some box) :
    Posted { store with mailboxes := store.mailboxes.insert reg (box.push event) }
      (log ++ [.store i (.enqueue reg event) (.ok (box.lastSeq + 1))]) := by
  have hcreated : ∀ {sub}, Created (log ++
      [.store i (.enqueue reg event) (.ok (box.lastSeq + 1))]) sub →
      Created log sub := by
    intro sub hsub
    simpa [created_append_store] using hsub
  have hacked : ∀ {j r n}, AckedBy (log ++
      [.store i (.enqueue reg event) (.ok (box.lastSeq + 1))]) j r n →
      AckedBy log j r n := by
    intro j r n hn
    simpa [ackedBy_append_store] using hn
  have henq : ∀ {r e n}, Enqueued (log ++
      [.store i (.enqueue reg event) (.ok (box.lastSeq + 1))]) r e n →
      Enqueued log r e n ∨ r = reg ∧ e = event ∧ n = box.lastSeq + 1 := by
    intro r e n hn
    refine (enqueued_append_store.mp hn).imp id fun heq => ?_
    cases heq
    exact ⟨rfl, rfl, rfl⟩
  have hlt : ∀ {e n}, Enqueued log reg e n → n < box.lastSeq + 1 := fun hn =>
    Nat.lt_succ_of_le (h.numbered hn hbox)
  have hget : ∀ {r : String} {b : Mailbox},
      (store.mailboxes.insert reg (box.push event))[r]? = some b →
      r = reg ∧ b = box.push event ∨
        r ≠ reg ∧ store.mailboxes[r]? = some b := by
    intro r b hr
    rw [get_insert] at hr
    split at hr
    · next heq => exact Or.inl ⟨heq.symm, (Option.some.inj hr).symm⟩
    · next hne => exact Or.inr ⟨Ne.symm hne, hr⟩
  have hpush : ∀ n, (box.push event).entries[n]? =
      if box.lastSeq + 1 = n then some { event with seqNum := n }
      else box.entries[n]? := by
    intro n
    simp only [Mailbox.push, get_insert]
    split
    · next heq => rw [heq]
    · rfl
  obtain ⟨sub, hsub⟩ := Option.ne_none_iff_exists'.mp fun hnone => by
    rw [(h.paired reg).mp hnone] at hbox
    cases hbox
  constructor
  · intro r sub hr
    exact ⟨(h.created hr).1, (h.created hr).2.append⟩
  · intro s₁ s₂ h₁ h₂
    exact h.created_unique (hcreated h₁) (hcreated h₂)
  · intro r
    dsimp only
    rw [get_insert]
    split
    · next heq =>
      subst heq
      simp [hsub]
    · exact h.paired r
  · intro r e n hn
    rcases henq hn with hold | ⟨rfl, -, -⟩
    · obtain ⟨sub', hsub', heq⟩ := h.enqueued_created hold
      exact ⟨sub', hsub'.append, heq⟩
    · exact ⟨sub, (h.created hsub).2.append, (h.created hsub).1⟩
  · intro r e e' n hn hn'
    rcases henq hn with hold | ⟨rfl, rfl, rfl⟩ <;>
      rcases henq hn' with hold' | ⟨heq, rfl, hnum⟩
    · exact h.enqueued_unique hold hold'
    · subst heq
      exact absurd hnum (Nat.ne_of_lt (hlt hold))
    · exact absurd (hlt hold') (Nat.lt_irrefl _)
    · rfl
  · intro r e n hn
    rcases henq hn with hold | ⟨-, -, rfl⟩
    · exact h.positive hold
    · exact Nat.succ_pos _
  · intro r e n b hn hr
    rcases henq hn with hold | ⟨rfl, rfl, rfl⟩
    · rcases hget hr with ⟨rfl, rfl⟩ | ⟨-, hr⟩
      · exact Nat.le_of_lt (hlt hold)
      · exact h.numbered hold hr
    · rcases hget hr with ⟨-, rfl⟩ | ⟨hne, -⟩
      · exact Nat.le_refl _
      · exact absurd rfl hne
  · intro r b n e hr hn
    rcases hget hr with ⟨rfl, rfl⟩ | ⟨-, hr⟩
    · rw [hpush] at hn
      split at hn
      · next heq =>
        subst heq
        exact ⟨event, enqueued_append_store.mpr (Or.inr rfl),
          (Option.some.inj hn).symm⟩
      · obtain ⟨e₀, he₀, rfl⟩ := h.entry hbox hn
        exact ⟨e₀, he₀.append, rfl⟩
    · obtain ⟨e₀, he₀, rfl⟩ := h.entry hr hn
      exact ⟨e₀, he₀.append, rfl⟩
  · intro r e n b hn hr
    rcases henq hn with hold | ⟨rfl, rfl, rfl⟩
    · have hkept : ∀ {b'}, store.mailboxes[r]? = some b' →
          b'.entries[n]? = some { e with seqNum := n } ∨
            ∃ j, AckedBy (log ++
              [.store i (.enqueue reg event) (.ok (box.lastSeq + 1))]) j r n := by
        intro b' hb'
        exact (h.kept hold hb').imp id fun ⟨j, hj⟩ => ⟨j, hj.append⟩
      rcases hget hr with ⟨rfl, rfl⟩ | ⟨-, hr⟩
      · rw [hpush, if_neg (Nat.ne_of_gt (hlt hold))]
        exact hkept hbox
      · exact hkept hr
    · rcases hget hr with ⟨-, rfl⟩ | ⟨hne, -⟩
      · rw [hpush, if_pos rfl]
        exact Or.inl rfl
      · exact absurd rfl hne
  · intro j r n hn
    obtain ⟨e, he⟩ := h.acked_enqueued (hacked hn)
    exact ⟨e, he.append⟩
  · intro j r n b hn hr
    have hold := hacked hn
    rcases hget hr with ⟨rfl, rfl⟩ | ⟨-, hr⟩
    · obtain ⟨e, he⟩ := h.acked_enqueued hold
      rw [hpush, if_neg (Nat.ne_of_gt (hlt he))]
      exact h.acked_gone hold hbox
    · exact h.acked_gone hold hr

theorem entries_drop (box : Mailbox) (ns : List Nat) (n : Nat) :
    (box.drop ns).entries[n]? = if n ∈ ns then none else box.entries[n]? := by
  simp [Mailbox.drop, get_eraseAll]

theorem mailboxes_ack {ns : List Nat} {r : String} {b : Mailbox}
    (hr : (store.ack reg ns).mailboxes[r]? = some b) :
    ∃ box, store.mailboxes[r]? = some box ∧ box.lastSeq = b.lastSeq ∧
      ∀ n, b.entries[n]? =
        if r = reg ∧ n ∈ ns then none else box.entries[n]? := by
  unfold InMemoryEventStore.ack at hr
  split at hr
  · next box hbox =>
    rw [get_insert] at hr
    split at hr
    · next heq =>
      subst heq
      obtain rfl := Option.some.inj hr
      refine ⟨box, hbox, rfl, fun n => ?_⟩
      simp [entries_drop]
    · next hne => exact ⟨b, hr, rfl, fun n => by simp [Ne.symm hne]⟩
  · next hnone =>
    refine ⟨b, hr, rfl, fun n => ?_⟩
    have hne : r ≠ reg := by
      rintro rfl
      rw [hnone] at hr
      cases hr
    simp [hne]

theorem ack (h : Posted store log) {ns : List Nat}
    (hns : ∀ n ∈ ns, ∃ event, Enqueued log reg event n) :
    Posted (store.ack reg ns) (log ++ [.store i (.ack reg ns) (.ok ())]) := by
  have hcreated : ∀ {sub}, Created (log ++
      [.store i (.ack reg ns) (.ok ())]) sub → Created log sub := by
    intro sub hsub
    simpa [created_append_store] using hsub
  have henq : ∀ {r e n}, Enqueued (log ++
      [.store i (.ack reg ns) (.ok ())]) r e n → Enqueued log r e n := by
    intro r e n hn
    simpa [enqueued_append_store] using hn
  have hacked : ∀ {j r n}, AckedBy (log ++
      [.store i (.ack reg ns) (.ok ())]) j r n →
      AckedBy log j r n ∨ r = reg ∧ n ∈ ns := by
    intro j r n hn
    refine (ackedBy_append_store.mp hn).imp id ?_
    rintro ⟨-, ns', hmem, heq⟩
    cases heq
    exact ⟨rfl, hmem⟩
  have hsubs : (store.ack reg ns).subscriptions = store.subscriptions := by
    unfold InMemoryEventStore.ack
    split <;> rfl
  constructor
  · intro r sub hr
    rw [hsubs] at hr
    exact ⟨(h.created hr).1, (h.created hr).2.append⟩
  · intro s₁ s₂ h₁ h₂
    exact h.created_unique (hcreated h₁) (hcreated h₂)
  · intro r
    rw [hsubs, h.paired r]
    unfold InMemoryEventStore.ack
    split
    · next box hbox =>
      dsimp only
      rw [get_insert]
      split
      · next heq =>
        subst heq
        simp [hbox]
      · rfl
    · rfl
  · intro r e n hn
    obtain ⟨sub, hsub, heq⟩ := h.enqueued_created (henq hn)
    exact ⟨sub, hsub.append, heq⟩
  · intro r e e' n hn hn'
    exact h.enqueued_unique (henq hn) (henq hn')
  · intro reg event n hn
    exact h.positive (henq hn)
  · intro r e n b hn hr
    obtain ⟨box, hbox, hlast, -⟩ := mailboxes_ack hr
    rw [← hlast]
    exact h.numbered (henq hn) hbox
  · intro r b n e hr hn
    obtain ⟨box, hbox, -, hentries⟩ := mailboxes_ack hr
    rw [hentries] at hn
    split at hn
    · cases hn
    · obtain ⟨e₀, he₀, rfl⟩ := h.entry hbox hn
      exact ⟨e₀, he₀.append, rfl⟩
  · intro r e n b hn hr
    obtain ⟨box, hbox, -, hentries⟩ := mailboxes_ack hr
    rw [hentries]
    split
    · next hmem =>
      obtain ⟨rfl, hmem⟩ := hmem
      exact Or.inr ⟨i, ackedBy_append_store.mpr (Or.inr ⟨rfl, ns, hmem, rfl⟩)⟩
    · exact (h.kept (henq hn) hbox).imp id fun ⟨j, hj⟩ => ⟨j, hj.append⟩
  · intro j r n hn
    rcases hacked hn with hold | ⟨rfl, hmem⟩
    · obtain ⟨e, he⟩ := h.acked_enqueued hold
      exact ⟨e, he.append⟩
    · obtain ⟨e, he⟩ := hns n hmem
      exact ⟨e, he.append⟩
  · intro j r n b hn hr
    obtain ⟨box, hbox, -, hentries⟩ := mailboxes_ack hr
    rw [hentries]
    split
    · rfl
    · next hmem =>
      rcases hacked hn with hold | hnew
      · exact h.acked_gone hold hbox
      · exact absurd hnew hmem

theorem exec (h : Posted store log) {it : SubscriptionIteration} {op : EventOp}
    {result : op.Result} (hop : op.Lawful log)
    (hexec : store.exec it op = (result, store')) :
    Posted store' (log ++ [.store i op result]) := by
  cases op with
  | createSubscription sub =>
      cases hexec
      exact h.createSubscription hop
  | getSubscription reg | listSubscriptions | peek reg m k =>
      cases hexec
      exact h.of_log (by simp [created_append_store])
        (by simp [enqueued_append_store]) (by simp [ackedBy_append_store])
  | removeSubscription reg =>
      cases hexec
      exact (h.removeSubscription reg).of_log (by simp [created_append_store])
        (by simp [enqueued_append_store]) (by simp [ackedBy_append_store])
  | removeByLease leaseId =>
      obtain ⟨-, rfl⟩ := Prod.mk.inj hexec
      have hrest : Posted (store.removeByLease it leaseId).2 log := by
        unfold InMemoryEventStore.removeByLease
        split
        · exact h
        · exact h.removeSubscription _
      exact hrest.of_log (by simp [created_append_store])
        (by simp [enqueued_append_store]) (by simp [ackedBy_append_store])
  | enqueue reg event =>
      simp only [InMemoryEventStore.exec, InMemoryEventStore.enqueue] at hexec
      split at hexec
      · next box hbox =>
        cases hexec
        exact h.enqueue hbox
      · cases hexec
        exact h.of_log (by simp [created_append_store])
          (by simp [enqueued_append_store]) (by simp [ackedBy_append_store])
  | ack reg ns =>
      cases hexec
      exact h.ack hop

end Posted

end Coordin8
