import Coordin8.Core.Records
import Coordin8.Support.Chan
import Coordin8.Support.Transition

/-!
# Reporting a lost lease

`LeaseClient.KeepAlive` of the Go SDK renews a lease in a goroutine and reports
failed renewals on a channel with one slot, without ever waiting for its reader.
A renewal that fails with `NotFound` or `FailedPrecondition` means that the lease
is gone: the goroutine reports it, ends, and closes the channel.  The goroutine
that `OpenWithTTL` starts for a proxy reads the channel and marks the proxy lost
when it gets such a failure.

A failure that finds the slot taken is dropped, also when it is the last one.
So the loss of the lease reaches the reader only if the reader has taken every
earlier failure by then.
-/

namespace Coordin8.Go

open Support

/-- The resource is gone: no point in retrying. -/
def Terminal (err : Status) : Bool :=
  err.code == .notFound || err.code == .failedPrecondition

/-- Where the goroutine of `KeepAlive` stands.  `cause` is the failure that made
it return; there is none when its context was cancelled. -/
inductive KeeperPc where
  /-- At the `select` on the ticker and the context. -/
  | waiting
  | reporting (err : Status)
  /-- At `return`, with the deferred `close` to come. -/
  | leaving (cause : Option Status)
  | gone (cause : Option Status)
deriving DecidableEq

/-- Where the reader of the channel stands. -/
inductive ReaderPc where
  | reading
  /-- It has stopped reading, at a failure it was waiting for. -/
  | stopped
  /-- It has found the channel closed. -/
  | sawClosed
deriving DecidableEq, Repr

structure Keeper where
  failures : Chan Status 1
  loop : KeeperPc
  reader : ReaderPc
  /-- What the reader has received, oldest first. -/
  received : List Status
deriving DecidableEq

def Keeper.new : Keeper where
  failures := .new
  loop := .waiting
  reader := .reading
  received := []

inductive KeeperAct where
  /-- A tick, and what the renewal then returns. -/
  | tick (result : Except Status Unit)
  /-- The context is done. -/
  | cancel
  /-- The next move of the goroutine. -/
  | go
  /-- The reader receives. -/
  | receive

/-- One step; the reader stops at a failure that `stops` asks for. -/
def Keeper.step (stops : Status → Bool) (s : Keeper) : KeeperAct → Option Keeper
  | .tick result =>
      match s.loop, result with
      | .waiting, .ok () => some s
      | .waiting, .error err => some { s with loop := .reporting err }
      | _, _ => none
  | .cancel =>
      match s.loop with
      | .waiting => some { s with loop := .leaving none }
      | _ => none
  | .go =>
      match s.loop with
      | .reporting err =>
          some { s with
            failures := s.failures.trySend err
            loop := if Terminal err then .leaving (some err) else .waiting }
      | .leaving cause =>
          some { s with failures := s.failures.close, loop := .gone cause }
      | _ => none
  | .receive =>
      match s.reader, s.failures.receive with
      | .reading, .value err rest =>
          some { s with
            failures := rest
            received := s.received ++ [err]
            reader := if stops err then .stopped else .reading }
      | .reading, .closed => some { s with reader := .sawClosed }
      | _, _ => none

/-- The goroutine of `OpenWithTTL`, which closes `lost` where it stops. -/
def watchesLoss : Status → Bool := Terminal

/-! ## When the loss is received -/

/-- The failure that the goroutine is about to report. -/
def KeeperPc.report? : KeeperPc → Option Status
  | .reporting err => some err
  | _ => none

/-- The failure for which the goroutine ends. -/
def KeeperPc.cause? : KeeperPc → Option Status
  | .leaving cause | .gone cause => cause
  | _ => none

/-- A failure for which the goroutine ends finds the slot of the channel
empty. -/
def SlotFree (s : Keeper) : KeeperAct → Prop
  | .go => ∀ err ∈ s.loop.report?, Terminal err = true → s.failures.buffer = []
  | _ => True

instance (s : Keeper) : ∀ act, Decidable (SlotFree s act)
  | .go => inferInstanceAs (Decidable (∀ err ∈ s.loop.report?,
      Terminal err = true → s.failures.buffer = []))
  | .tick _ | .cancel | .receive => .isTrue trivial

/-- The failure for which the goroutine ends is on its way. -/
structure OnItsWay (stops : Status → Bool) (s : Keeper) : Prop where
  pending : ∀ err, s.loop.cause? = some err → Terminal err = true ∧
    (err ∈ s.received ∨ err ∈ s.failures.buffer)
  /-- The channel is closed by the goroutine's last move. -/
  ended : s.failures.closed = true → ∃ cause, s.loop = .gone cause
  drained : s.reader = .sawClosed →
    s.failures.buffer = [] ∧ s.failures.closed = true
  passed : s.reader ≠ .stopped → ∀ err ∈ s.received, stops err = false

namespace OnItsWay

variable {stops : Status → Bool} {s s' : Keeper}

theorem new : OnItsWay stops .new where
  pending := by simp [Keeper.new, KeeperPc.cause?]
  ended := by simp [Keeper.new, Chan.new]
  drained := by simp [Keeper.new]
  passed := by simp [Keeper.new]

/-- While the goroutine has not ended the channel is open, and nobody has found
it closed. -/
theorem open_of_loop (h : OnItsWay stops s) (hloop : ∀ cause, s.loop ≠ .gone cause) :
    s.failures.closed = false ∧ s.reader ≠ .sawClosed := by
  have hclosed : s.failures.closed = false := by
    by_contra hne
    obtain ⟨cause, hgone⟩ := h.ended (Bool.eq_true_of_not_eq_false hne)
    exact hloop cause hgone
  refine ⟨hclosed, fun hsaw => ?_⟩
  rw [(h.drained hsaw).2] at hclosed
  cases hclosed

theorem moved {loop : KeeperPc} (h : OnItsWay stops s)
    (hloop : ∀ cause, s.loop ≠ .gone cause)
    (hcause : loop.cause? = none) : OnItsWay stops { s with loop := loop } where
  pending err herr := by
    rw [hcause] at herr
    cases herr
  ended hclosed := by
    rw [(h.open_of_loop hloop).1] at hclosed
    cases hclosed
  drained := h.drained
  passed := h.passed

theorem report {err : Status} (h : OnItsWay stops s)
    (hloop : s.loop = .reporting err)
    (hfree : Terminal err = true → s.failures.buffer = []) :
    OnItsWay stops { s with
      failures := s.failures.trySend err
      loop := if Terminal err then .leaving (some err) else .waiting } := by
  obtain ⟨hopen, hunseen⟩ := h.open_of_loop (by simp [hloop])
  refine ⟨fun e he => ?_, fun hclosed => ?_, fun hsaw => absurd hsaw hunseen,
    h.passed⟩
  · by_cases hterminal : Terminal err = true
    · obtain rfl : err = e := by simpa [hterminal, KeeperPc.cause?] using he
      have hroom : s.failures.buffer.length < 1 := by simp [hfree hterminal]
      refine ⟨hterminal, .inr ?_⟩
      rw [Chan.buffer_trySend_of_lt err hroom]
      exact List.mem_append_right _ (List.mem_singleton_self err)
    · simp [hterminal, KeeperPc.cause?] at he
  · rw [Chan.closed_trySend, hopen] at hclosed
    cases hclosed

theorem close {cause : Option Status} (h : OnItsWay stops s)
    (hloop : s.loop = .leaving cause) :
    OnItsWay stops { s with
      failures := s.failures.close
      loop := .gone cause } where
  pending err herr := h.pending err (by rw [hloop]; exact herr)
  ended _ := ⟨cause, rfl⟩
  drained hsaw := ⟨(h.drained hsaw).1, rfl⟩
  passed := h.passed

theorem received {err : Status} {rest : Chan Status 1} (h : OnItsWay stops s)
    (hreader : s.reader = .reading)
    (hvalue : s.failures.receive = .value err rest) :
    OnItsWay stops { s with
      failures := rest
      received := s.received ++ [err]
      reader := if stops err then .stopped else .reading } := by
  obtain ⟨hbuffer, hclosed⟩ := Chan.receive_eq_value hvalue
  refine ⟨fun e he => ?_, fun hc => h.ended (hclosed ▸ hc), fun hsaw => ?_,
    fun hgoes e he => ?_⟩
  · obtain ⟨hterminal, hwhere⟩ := h.pending e he
    refine ⟨hterminal, ?_⟩
    rw [hbuffer] at hwhere
    simp only [List.mem_append, List.mem_cons, List.not_mem_nil, or_false] at hwhere ⊢
    tauto
  · dsimp only at hsaw
    split at hsaw <;> cases hsaw
  · dsimp only at hgoes
    split at hgoes
    · exact absurd rfl hgoes
    · next hstops =>
      rcases List.mem_append.mp he with he | he
      · exact h.passed (by simp [hreader]) e he
      · obtain rfl := List.mem_singleton.mp he
        exact Bool.eq_false_of_not_eq_true hstops

theorem foundClosed (h : OnItsWay stops s) (hreader : s.reader = .reading)
    (hclosed : s.failures.receive = .closed) :
    OnItsWay stops { s with reader := .sawClosed } where
  pending := h.pending
  ended := h.ended
  drained _ := Chan.receive_eq_closed hclosed
  passed _ := h.passed (by simp [hreader])

theorem step {act : KeeperAct} (h : OnItsWay stops s) (hfree : SlotFree s act)
    (hstep : s.step stops act = some s') : OnItsWay stops s' := by
  cases act with
  | tick result =>
      simp only [Keeper.step] at hstep
      split at hstep
      · cases hstep
        exact h
      · next hloop =>
        cases hstep
        exact h.moved (by simp [hloop]) rfl
      · cases hstep
  | cancel =>
      simp only [Keeper.step] at hstep
      split at hstep
      · next hloop =>
        cases hstep
        exact h.moved (by simp [hloop]) rfl
      · cases hstep
  | go =>
      simp only [Keeper.step] at hstep
      split at hstep
      · next err hloop =>
        cases hstep
        exact h.report hloop (hfree err (by simp [hloop, KeeperPc.report?]))
      · next cause hloop =>
        cases hstep
        exact h.close hloop
      · cases hstep
  | receive =>
      simp only [Keeper.step] at hstep
      split at hstep
      · next err rest hreader hvalue =>
        cases hstep
        exact h.received hreader hvalue
      · next hreader hclosed =>
        cases hstep
        exact h.foundClosed hreader hclosed
      · cases hstep

end OnItsWay

theorem exists_receive (stops : Status → Bool) {s : Keeper} {err : Status}
    (hreader : s.reader = .reading) (hmem : err ∈ s.failures.buffer) :
    ∃ s', s.step stops .receive = some s' ∧ err ∈ s'.received ∧
      (stops err = true → s'.reader = .stopped) := by
  have hone := s.failures.bounded
  obtain ⟨e, es, hbuffer⟩ := List.exists_cons_of_ne_nil (List.ne_nil_of_mem hmem)
  obtain rfl : es = [] := by
    rw [hbuffer, List.length_cons] at hone
    exact List.eq_nil_of_length_eq_zero (by omega)
  obtain rfl : err = e := by
    rw [hbuffer] at hmem
    exact List.mem_singleton.mp hmem
  obtain ⟨rest, hvalue⟩ := Chan.exists_receive_of_buffer hbuffer
  simp only [Keeper.step, hreader, hvalue]
  exact ⟨_, rfl, by simp, fun hstops => by simp [hstops]⟩

/-- In every run in which a failure that ends the goroutine finds the slot of
the channel empty: when the goroutine has ended for such a failure, a reader
that finds the channel closed has received it, and one that still reads has
received it or does with its next read.  The goroutine that watches a proxy
does not find the channel closed: it has stopped and marked the proxy lost, or
does with its next read. -/
theorem loss_is_received (stops : Status → Bool) (acts : List KeeperAct)
    (s : Keeper) (hrun : run (Keeper.step stops) .new acts = some s)
    (hfree : StepsMeet (Keeper.step stops) SlotFree .new acts)
    (err : Status) (hgone : s.loop = .gone (some err)) :
    (s.reader = .sawClosed → err ∈ s.received) ∧
      (s.reader = .reading → err ∈ s.received ∨
        ∃ s', s.step stops .receive = some s' ∧ err ∈ s'.received) ∧
      (stops = watchesLoss → s.reader ≠ .sawClosed ∧
        (s.reader = .reading →
          ∃ s', s.step stops .receive = some s' ∧ s'.reader = .stopped)) := by
  have hway : OnItsWay stops s := run_invariant_of_stepsMeet
    (P := OnItsWay stops) .new (fun _ _ _ _ h hC hstep => h.step hC hstep)
    hrun hfree
  obtain ⟨hterminal, hwhere⟩ := hway.pending err (by rw [hgone]; rfl)
  have hclosed : s.reader = .sawClosed → err ∈ s.received := by
    intro hsaw
    rw [(hway.drained hsaw).1] at hwhere
    simpa using hwhere
  refine ⟨hclosed, fun hreading => ?_, ?_⟩
  · refine hwhere.imp_right fun hmem => ?_
    obtain ⟨s', hstep, hreceived, -⟩ := exists_receive stops hreading hmem
    exact ⟨s', hstep, hreceived⟩
  · rintro rfl
    -- a watcher that got the failure has stopped
    have hstopped : err ∈ s.received → s.reader = .stopped := by
      intro hmem
      by_contra hne
      have hpassed := hway.passed hne err hmem
      rw [watchesLoss, hterminal] at hpassed
      cases hpassed
    refine ⟨fun hsaw => ?_, fun hreading => ?_⟩
    · rw [hstopped (hclosed hsaw)] at hsaw
      cases hsaw
    · have hmem : err ∈ s.failures.buffer := by
        refine hwhere.resolve_left fun hreceived => ?_
        rw [hstopped hreceived] at hreading
        cases hreading
      obtain ⟨s', hstep, -, hstops⟩ := exists_receive watchesLoss hreading hmem
      exact ⟨s', hstep, hstops hterminal⟩

def connectionLost : Status := ⟨.unavailable, "connection refused"⟩

def leaseGone : Status := ⟨.notFound, "lease not found: l"⟩

/-- The watcher takes a passing failure before the lease is found gone. -/
def readInTime : List KeeperAct :=
  [.tick (.error connectionLost), .go, .receive, .tick (.ok ()),
    .tick (.error leaseGone), .go, .go]

def readInTimeEnd : Keeper :=
  (run (Keeper.step watchesLoss) .new readInTime).get (by decide +kernel)

theorem loss_is_received_in_time :
    readInTimeEnd.loop = .gone (some leaseGone) ∧
      ∃ s', readInTimeEnd.step watchesLoss .receive = some s' ∧
        s'.reader = .stopped :=
  ⟨by decide +kernel, ((loss_is_received watchesLoss readInTime readInTimeEnd
    (Option.some_get _).symm (by decide +kernel) leaseGone
    (by decide +kernel)).2.2 rfl).2 (by decide +kernel)⟩

/-- The passing failure is still in the slot when the lease is found gone. -/
def readLate : List KeeperAct :=
  [.tick (.error connectionLost), .go, .tick (.error leaseGone), .go, .go,
    .receive, .receive]

/-- The goroutine has ended because the lease is gone; its watcher has read all
there was, and has not marked the proxy lost. -/
theorem readLate_misses_loss :
    ∃ s, run (Keeper.step watchesLoss) .new readLate = some s ∧
      s.loop = .gone (some leaseGone) ∧ s.reader = .sawClosed ∧
      s.received = [connectionLost] :=
  ⟨_, (Option.some_get (by decide +kernel)).symm, by decide +kernel,
    by decide +kernel, by decide +kernel⟩

end Coordin8.Go
