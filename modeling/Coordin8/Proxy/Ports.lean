import Coordin8.Proxy.Manager
import Coordin8.Support.Pool
import Mathlib.Data.List.Iterate
import Mathlib.Data.List.Nodup

/-!
# The ports of the proxies

`ProxyManager::bind_listener` looks for a port in the configured range.  The
calls share the cursor `next_port`, an `AtomicU16`: each try fetches it with an
addition that wraps at `2 ^ 16`, and then stores the port to be tried next.  The
two updates are two steps, so between them another call may read the sum that
the addition left behind.

The loop is given twice: as a function, for a call that has the cursor for
itself, and as the moves of one task among others.  A task that runs alone does
what the function says.  Alone, a call tries every port of the range once.
Together, the calls stay inside the range as long as the sums they leave behind
do not reach `2 ^ 16`.  The port of the listener is then in the range as well,
unless the system is asked for port `0` and chooses one outside.
-/

namespace Coordin8

open Support

/-! ## Walking round a range -/

section Cycle

/-- The successor in `lo..=hi`, with `lo` after `hi`. -/
def cycle (lo hi n : Nat) : Nat :=
  if hi ≤ n then lo else n + 1

variable {lo hi n k : Nat}

theorem cycle_mem (hle : lo ≤ hi) (hlo : lo ≤ n) :
    lo ≤ cycle lo hi n ∧ cycle lo hi n ≤ hi := by
  unfold cycle
  split <;> omega

end Cycle

/-! ## The loop of one call -/

/-- `ProxyConfig::port_range`, when it is set. -/
structure PortRange where
  min : UInt16
  max : UInt16
deriving DecidableEq, Repr

namespace PortRange

/-- The ports of `min..=max`. -/
instance : Membership UInt16 PortRange where
  mem r port := r.min ≤ port ∧ port ≤ r.max

instance (r : PortRange) (port : UInt16) : Decidable (port ∈ r) :=
  inferInstanceAs (Decidable (r.min ≤ port ∧ port ≤ r.max))

variable (r : PortRange)

/-- How often the loop `for _ in min..=max` runs. -/
def tries : Nat := r.max.toNat + 1 - r.min.toNat

/-- The port to be tried, from the value fetched. -/
def clamp (fetched : UInt16) : UInt16 :=
  if fetched > r.max then r.min else fetched

/-- What is stored in `next_port` when `port` is tried. -/
def follow (port : UInt16) : UInt16 :=
  if port ≥ r.max then r.min else port + 1

end PortRange

/-- What `TcpListener::bind` does in one call of `bind_listener`: the port of the
listener for each port it may be asked for.  Asked for port `0`, the system
chooses another. -/
structure Binding where
  bind : UInt16 → Option UInt16
  own : ∀ port p, bind port = some p → port = 0 ∨ p = port

/-- No port can be bound. -/
def Binding.refused : Binding where
  bind _ := none
  own _ _ h := nomatch h

/-- What came of a call of `bind_listener`: the ports it passed to
`TcpListener::bind`, its answer with the port of the listener, and `next_port`
as it leaves it. -/
structure BindOutcome where
  tried : List UInt16
  answer : Except ProxyError UInt16
  nextPort : UInt16
deriving DecidableEq

/-- The loop with `left` rounds to go, for a call that runs alone.  The sum that
`fetch_add` leaves in `next_port` is overwritten before anyone reads it. -/
def bindLoop (r : PortRange) (b : Binding) : Nat → UInt16 → BindOutcome
  | 0, nextPort => ⟨[], .error .portRangeExhausted, nextPort⟩
  | left + 1, nextPort =>
      let port := r.clamp nextPort
      let nextPort := r.follow port
      match b.bind port with
      | some p => ⟨[port], .ok p, nextPort⟩
      | none =>
          let rest := bindLoop r b left nextPort
          { rest with tried := port :: rest.tried }

namespace PortRange

variable {r : PortRange} {port : UInt16}

theorem mem_iff_toNat :
    port ∈ r ↔ r.min.toNat ≤ port.toNat ∧ port.toNat ≤ r.max.toNat := by
  change r.min ≤ port ∧ port ≤ r.max ↔ _
  rw [UInt16.le_iff_toNat_le, UInt16.le_iff_toNat_le]

theorem min_mem (hr : r.min ≤ r.max) : r.min ∈ r :=
  ⟨UInt16.le_refl _, hr⟩

/-- The addition in the source does not overflow. -/
theorem toNat_add_one (h : port < r.max) : (port + 1).toNat = port.toNat + 1 := by
  have hlt := UInt16.lt_iff_toNat_lt.mp h
  have hmax := r.max.toNat_lt
  rw [UInt16.toNat_add, UInt16.toNat_one]
  omega

theorem toNat_follow :
    (r.follow port).toNat = cycle r.min.toNat r.max.toNat port.toNat := by
  simp only [follow, cycle, ge_iff_le, UInt16.le_iff_toNat_le]
  split
  · rfl
  · next h =>
    have hlt : port < r.max := UInt16.lt_iff_toNat_lt.mpr (by omega)
    exact toNat_add_one hlt

theorem follow_mem (hr : r.min ≤ r.max) (h : r.min ≤ port) : r.follow port ∈ r := by
  rw [mem_iff_toNat, toNat_follow]
  exact cycle_mem (UInt16.le_iff_toNat_le.mp hr) (UInt16.le_iff_toNat_le.mp h)

end PortRange

section Alone

variable {r : PortRange} {b : Binding} {next port p : UInt16} {left : Nat}

end Alone

/-- Where a call stands: before a round, between its `fetch_add` and its store,
or at `TcpListener::bind`. -/
inductive BindPc where
  | fetch (left : Nat)
  | store (port : UInt16) (left : Nat)
  | bind (port : UInt16) (left : Nat)
  /-- Without a range the system chooses the port. -/
  | bindAny
  | returned (answer : Except ProxyError UInt16)
deriving DecidableEq

/-- What the outside decides: whether a port can be bound and the port of the
listener. -/
inductive BindChoice where
  | go
  | bound (result : Option UInt16)
  | assigned (result : Except String UInt16)

namespace BindPc

/-- The beginning of `bind_listener`. -/
def begin : Option PortRange → BindPc
  | some r => .fetch r.tries
  | none => .bindAny

/-- The next move of a call with a range; the log holds the ports that were
passed to `TcpListener::bind`. -/
def advanceIn (r : PortRange) (nextPort : UInt16) :
    BindPc → BindChoice → Option (UInt16 × BindPc × List UInt16)
  | .fetch 0, .go =>
      some (nextPort, .returned (.error .portRangeExhausted), [])
  | .fetch (left + 1), .go =>
      some (nextPort + 1, .store (r.clamp nextPort) left, [])
  | .store port left, .go => some (r.follow port, .bind port left, [])
  | .bind port left, .bound none => some (nextPort, .fetch left, [port])
  | .bind port _, .bound (some p) =>
      if port = 0 ∨ p = port then some (nextPort, .returned (.ok p), [port])
      else none
  | _, _ => none

/-- The only move of a call without a range. -/
def advanceAny (nextPort : UInt16) :
    BindPc → BindChoice → Option (UInt16 × BindPc × List UInt16)
  | .bindAny, .assigned (.ok port) => some (nextPort, .returned (.ok port), [0])
  | .bindAny, .assigned (.error message) =>
      some (nextPort, .returned (.error (.io message)), [0])
  | _, _ => none

def advance : Option PortRange → UInt16 → BindPc → BindChoice →
    Option (UInt16 × BindPc × List UInt16)
  | some r => advanceIn r
  | none => advanceAny

end BindPc

abbrev BindAct := PoolAct BindPc BindChoice Empty

abbrev BindProc := Pool UInt16 BindPc UInt16

/-- Any number of calls of `bind_listener` on one manager. -/
def bindProgram (range : Option PortRange) :
    Program UInt16 BindPc UInt16 BindChoice Empty where
  entry pc := pc = .begin range
  advance _ := BindPc.advance range
  ambient _ event := nomatch event

/-- A new manager. -/
def BindProc.new (range : Option PortRange) : BindProc where
  shared := (range.map PortRange.min).getD 0
  tasks := []
  log := []

/-! ## A call alone among the others -/

/-- A move of the task `i`, with the binding `b`. -/
def OwnMove (b : Binding) (i : Nat) (s : BindProc) : BindAct → Prop
  | .step j choice => j = i ∧ ∀ result, choice = .bound result →
      ∀ port left, s.tasks[i]? = some (.bind port left) → result = b.bind port
  | _ => False

/-- The pool when the task `i`, with `left` rounds to go, has made the moves of
the loop. -/
def BindProc.looped (s : BindProc) (r : PortRange) (b : Binding) (i left : Nat) :
    BindProc where
  shared := (bindLoop r b left s.shared).nextPort
  tasks := s.tasks.set i (.returned (bindLoop r b left s.shared).answer)
  log := s.log ++ (bindLoop r b left s.shared).tried

section Own

variable {r : PortRange} {b : Binding} {i : Nat} {s : BindProc}

theorem ownMove_unique {act act' : BindAct} {t u : BindProc}
    (hact : OwnMove b i s act) (hact' : OwnMove b i s act')
    (ht : (bindProgram (some r)).step s act = some t)
    (hu : (bindProgram (some r)).step s act' = some u) : t = u := by
  cases act with
  | step j choice =>
    cases act' with
    | step j' choice' =>
      obtain ⟨rfl, hbound⟩ := hact
      obtain ⟨rfl, hbound'⟩ := hact'
      obtain ⟨pc, n, pc₁, ports, hi, hadv, rfl⟩ := Program.step_step.mp ht
      obtain ⟨pc', n', pc₁', ports', hi', hadv', rfl⟩ := Program.step_step.mp hu
      obtain rfl := Option.some.inj (hi.symm.trans hi')
      have hchoice : choice = choice' := by
        cases pc <;> cases choice <;> cases choice' <;>
          simp_all [bindProgram, BindPc.advance, BindPc.advanceIn]
      subst hchoice
      cases hadv.symm.trans hadv'
      rfl
    | _ => exact hact'.elim
  | _ => exact hact.elim

theorem step_of_returned {answer : Except ProxyError UInt16}
    (hi : s.tasks[i]? = some (.returned answer)) (act : BindAct)
    (hact : OwnMove b i s act) : (bindProgram (some r)).step s act = none := by
  cases act with
  | step j choice =>
    obtain ⟨rfl, -⟩ := hact
    rw [Option.eq_none_iff_forall_ne_some]
    intro t ht
    obtain ⟨pc, _, _, _, hi', hadv, -⟩ := Program.step_step.mp ht
    obtain rfl := Option.some.inj (hi.symm.trans hi')
    cases hadv
  | _ => exact hact.elim

theorem advanceIn_bind (b : Binding) (n port : UInt16) (left : Nat) :
    (BindPc.bind port left).advanceIn r n (.bound (b.bind port)) =
      some (n, (b.bind port).elim (.fetch left) (.returned ∘ .ok), [port]) := by
  cases hb : b.bind port with
  | none => rfl
  | some p => exact if_pos (b.own port p hb)

theorem run_round {left : Nat} (b : Binding)
    (hi : s.tasks[i]? = some (.fetch (left + 1))) :
    ∃ acts, StepsMeet (bindProgram (some r)).step (OwnMove b i) s acts ∧
      run (bindProgram (some r)).step s acts = some
        ⟨r.follow (r.clamp s.shared),
          s.tasks.set i ((b.bind (r.clamp s.shared)).elim (.fetch left)
            (.returned ∘ .ok)), s.log ++ [r.clamp s.shared]⟩ := by
  have hlt : i < s.tasks.length := (List.getElem?_eq_some_iff.mp hi).1
  let port := r.clamp s.shared
  let fetched : BindProc :=
    ⟨s.shared + 1, s.tasks.set i (.store port left), s.log ++ []⟩
  let stored : BindProc :=
    ⟨r.follow port, fetched.tasks.set i (.bind port left), fetched.log ++ []⟩
  have hstored : stored.tasks[i]? = some (.bind port left) :=
    List.getElem?_set_self (by simpa [fetched] using hlt)
  have hfetch : (bindProgram (some r)).step s (.step i .go) = some fetched :=
    Program.step_step.mpr ⟨_, _, _, _, hi, rfl, rfl⟩
  have hstore : (bindProgram (some r)).step fetched (.step i .go) = some stored :=
    Program.step_step.mpr ⟨_, _, _, _, List.getElem?_set_self hlt, rfl, rfl⟩
  have hbind := (Program.step_step (P := bindProgram (some r))).mpr
    ⟨_, _, _, _, hstored, advanceIn_bind b _ port left, rfl⟩
  refine ⟨[.step i .go, .step i .go, .step i (.bound (b.bind port))],
    .cons ⟨rfl, nofun⟩ hfetch (.cons ⟨rfl, nofun⟩ hstore
      (.cons ⟨rfl, ?_⟩ hbind trivial)), ?_⟩
  · rintro result ⟨⟩ port' left' hport'
    cases hstored.symm.trans hport'
    rfl
  · refine run_cons_eq_some.mpr ⟨_, hfetch, run_cons_eq_some.mpr
      ⟨_, hstore, (run_singleton hbind).trans ?_⟩⟩
    simp [stored, fetched, port]

theorem exists_run_bindLoop (b : Binding) (left : Nat)
    (hi : s.tasks[i]? = some (.fetch left)) :
    ∃ acts, StepsMeet (bindProgram (some r)).step (OwnMove b i) s acts ∧
      run (bindProgram (some r)).step s acts = some (s.looped r b i left) := by
  induction left generalizing s with
  | zero =>
      refine ⟨[.step i .go], ⟨⟨rfl, nofun⟩, fun _ _ => trivial⟩, run_singleton ?_⟩
      exact Program.step_step.mpr ⟨_, _, _, _, hi, rfl, rfl⟩
  | succ left ih =>
      have hlt : i < s.tasks.length := (List.getElem?_eq_some_iff.mp hi).1
      obtain ⟨round, hround, hrun⟩ := run_round (r := r) b hi
      cases hb : b.bind (r.clamp s.shared) with
      | some p =>
          refine ⟨round, hround, hrun.trans ?_⟩
          simp [BindProc.looped, bindLoop, hb]
      | none =>
          rw [hb, Option.elim_none] at hrun
          obtain ⟨acts, hmeet, hacts⟩ := ih (s := ⟨_, _, _⟩)
            (List.getElem?_set_self hlt)
          refine ⟨round ++ acts, (stepsMeet_append hrun).mpr ⟨hround, hmeet⟩,
            run_append_eq_some.mpr ⟨_, hrun, hacts.trans ?_⟩⟩
          simp [BindProc.looped, bindLoop, hb]

end Own

/-- A call whose moves are not mixed with those of others does what the loop
says: by its own moves it can come to its end, and whenever it has, the cursor,
its answer and the ports it has tried are those of the loop. -/
theorem run_bindLoop (r : PortRange) (b : Binding) (i left : Nat) (s : BindProc)
    (hi : s.tasks[i]? = some (.fetch left)) :
    (∃ acts, StepsMeet (bindProgram (some r)).step (OwnMove b i) s acts ∧
      run (bindProgram (some r)).step s acts = some (s.looped r b i left)) ∧
    ∀ acts t answer,
      StepsMeet (bindProgram (some r)).step (OwnMove b i) s acts →
      run (bindProgram (some r)).step s acts = some t →
      t.tasks[i]? = some (.returned answer) → t = s.looped r b i left := by
  obtain ⟨acts, hmeet, hrun⟩ := exists_run_bindLoop (r := r) b left hi
  refine ⟨⟨acts, hmeet, hrun⟩, fun acts' t answer hmeet' hrun' hend => ?_⟩
  have hlt : i < s.tasks.length := (List.getElem?_eq_some_iff.mp hi).1
  refine run_unique ?_ hrun' hrun hmeet' hmeet (step_of_returned hend)
    (step_of_returned (List.getElem?_set_self hlt))
  exact fun _ _ _ _ _ => ownMove_unique

theorem run_bindLoop_two :
    ∃ acts : List BindAct, run (bindProgram (some ⟨65534, 65535⟩)).step
      ⟨65534, [.fetch 2], []⟩ acts =
        some ⟨65534, [.returned (.error .portRangeExhausted)], [65534, 65535]⟩ :=
  have ⟨acts, _, hrun⟩ := (run_bindLoop ⟨65534, 65535⟩ .refused 0 2
    ⟨65534, [.fetch 2], []⟩ rfl).1
  ⟨acts, hrun⟩

/-! ## Staying in the range -/

namespace BindPc

/-- The call stands between its `fetch_add` and its store. -/
def between : BindPc → Bool
  | .store .. => true
  | _ => false

/-- The next move of the call is a `fetch_add`. -/
def fetches : BindPc → Bool
  | .fetch (_ + 1) => true
  | _ => false

/-- The port that the call has chosen for this round. -/
def chosen : BindPc → Option UInt16
  | .store port _ | .bind port _ => some port
  | _ => none

end BindPc

/-- The calls that stand between their `fetch_add` and their store. -/
def BindProc.between (s : BindProc) : Nat :=
  s.tasks.countP BindPc.between

/-- When a call does its `fetch_add`, the sums that the others may have left
behind stay below `2 ^ 16`. -/
def FetchFits (r : PortRange) (s : BindProc) : BindAct → Prop
  | .step i _ => ∀ pc ∈ s.tasks[i]?, pc.fetches = true →
      r.max.toNat + s.between < 2 ^ 16
  | _ => True

instance (r : PortRange) (s : BindProc) : ∀ act, Decidable (FetchFits r s act)
  | .step i _ => inferInstanceAs (Decidable (∀ pc ∈ s.tasks[i]?,
      pc.fetches = true → r.max.toNat + s.between < 2 ^ 16))
  | .call _ | .ambient _ => .isTrue trivial

/-- The cursor is at most one further than the range for each call that has not
stored yet, before it wraps. -/
structure InRange (r : PortRange) (s : BindProc) : Prop where
  cursor : ∃ v, r.min.toNat ≤ v ∧ v ≤ r.max.toNat + s.between ∧
    s.shared.toNat = v % 2 ^ 16
  chosen : ∀ pc ∈ s.tasks, ∀ port, pc.chosen = some port → port ∈ r
  tried : ∀ port ∈ s.log, port ∈ r

variable {i : Nat} {pc pc' : BindPc} {ports : List UInt16}

namespace InRange

variable {r : PortRange} {s s' : BindProc}

theorem clamp_mem (hr : r.min ≤ r.max) {port : UInt16} (h : r.min ≤ port) :
    r.clamp port ∈ r := by
  unfold PortRange.clamp
  split
  · exact PortRange.min_mem hr
  · next hle => exact ⟨h, UInt16.not_lt.mp hle⟩

theorem between_set (next : UInt16) (log : List UInt16) (pc' : BindPc) (hi : s.tasks[i]? = some pc) :
    BindProc.between ⟨next, s.tasks.set i pc', log⟩ + pc.between.toNat =
      s.between + pc'.between.toNat := by
  obtain ⟨hlt, rfl⟩ := List.getElem?_eq_some_iff.mp hi
  have hpos : (s.tasks[i]).between = true → 0 < s.tasks.countP BindPc.between :=
    fun h => List.countP_pos_iff.mpr ⟨_, List.getElem_mem hlt, h⟩
  simp only [BindProc.between, List.countP_set hlt]
  cases hb : (s.tasks[i]).between <;> cases hb' : pc'.between <;>
    simp_all

theorem set {next : UInt16} (h : InRange r s)
    (hcursor : ∃ v, r.min.toNat ≤ v ∧
      v ≤ r.max.toNat + BindProc.between ⟨next, s.tasks.set i pc', []⟩ ∧
      next.toNat = v % 2 ^ 16)
    (hchosen : ∀ port, pc'.chosen = some port → port ∈ r)
    (hports : ∀ port ∈ ports, port ∈ r) :
    InRange r ⟨next, s.tasks.set i pc', s.log ++ ports⟩ where
  cursor := hcursor
  chosen := by
    intro pc hpc
    rcases List.mem_or_eq_of_mem_set hpc with hpc | rfl
    · exact h.chosen pc hpc
    · exact hchosen
  tried := by
    intro port hport
    rcases List.mem_append.mp hport with hport | hport
    · exact h.tried port hport
    · exact hports port hport

theorem set_of_quiet (h : InRange r s) (hi : s.tasks[i]? = some pc)
    (hpc : pc.between = false) (hpc' : pc'.between = false)
    (hchosen : ∀ port, pc'.chosen = some port → port ∈ r)
    (hports : ∀ port ∈ ports, port ∈ r) :
    InRange r ⟨s.shared, s.tasks.set i pc', s.log ++ ports⟩ := by
  obtain ⟨v, hlo, hhi, hv⟩ := h.cursor
  have hcount := between_set s.shared [] pc' hi
  rw [hpc, hpc', Nat.add_right_cancel_iff] at hcount
  exact h.set ⟨v, hlo, hcount ▸ hhi, hv⟩ hchosen hports

theorem fetch {i left : Nat} (hr : r.min ≤ r.max) (h : InRange r s)
    (hi : s.tasks[i]? = some (.fetch (left + 1)))
    (hfits : r.max.toNat + s.between < 2 ^ 16) :
    InRange r ⟨s.shared + 1, s.tasks.set i (.store (r.clamp s.shared) left),
      s.log ++ []⟩ := by
  obtain ⟨v, hlo, hhi, hv⟩ := h.cursor
  have hread : s.shared.toNat = v := hv.trans (Nat.mod_eq_of_lt (by omega))
  have hcount := between_set (s.shared + 1) [] (.store (r.clamp s.shared) left) hi
  simp only [BindPc.between, Bool.toNat_false, Bool.toNat_true] at hcount
  refine h.set ⟨v + 1, by omega, by omega, ?_⟩ ?_ (by simp)
  · rw [UInt16.toNat_add, hread, UInt16.toNat_one]
  · rintro port ⟨⟩
    exact clamp_mem hr (UInt16.le_iff_toNat_le.mpr (hread ▸ hlo))

theorem store {i left : Nat} {port : UInt16} (hr : r.min ≤ r.max)
    (h : InRange r s) (hi : s.tasks[i]? = some (.store port left)) :
    InRange r ⟨r.follow port, s.tasks.set i (.bind port left), s.log ++ []⟩ := by
  have hport : port ∈ r := h.chosen _ (List.mem_of_getElem? hi) port rfl
  obtain ⟨hlo, hhi⟩ :=
    PortRange.mem_iff_toNat.mp (PortRange.follow_mem hr hport.1)
  refine h.set ⟨_, hlo, by omega, (Nat.mod_eq_of_lt ?_).symm⟩ ?_ (by simp)
  · exact (r.follow port).toNat_lt
  · rintro port ⟨⟩
    exact hport

theorem advanceIn {choice : BindChoice}
    {next : UInt16}
    (hr : r.min ≤ r.max) (h : InRange r s) (hi : s.tasks[i]? = some pc)
    (hfits : FetchFits r s (.step i choice))
    (hadv : pc.advanceIn r s.shared choice = some (next, pc', ports)) :
    InRange r ⟨next, s.tasks.set i pc', s.log ++ ports⟩ := by
  unfold BindPc.advanceIn at hadv
  split at hadv
  case h_6 => cases hadv
  case h_5 port left p =>
    split at hadv
    · cases hadv
      have hport : port ∈ r := h.chosen _ (List.mem_of_getElem? hi) port rfl
      exact h.set_of_quiet hi rfl rfl (by simp [BindPc.chosen])
        (by simpa using hport)
    · cases hadv
  all_goals
    simp only [Option.some.injEq, Prod.mk.injEq] at hadv
    obtain ⟨rfl, rfl, rfl⟩ := hadv
  · exact h.set_of_quiet hi rfl rfl (by simp [BindPc.chosen]) (by simp)
  · exact h.fetch hr hi (hfits _ hi rfl)
  · exact h.store hr hi
  · next port left =>
    have hport : port ∈ r := h.chosen _ (List.mem_of_getElem? hi) port rfl
    exact h.set_of_quiet hi rfl rfl (by simp [BindPc.chosen])
      (by simpa using hport)

theorem call (h : InRange r s) :
    InRange r { s with tasks := s.tasks ++ [.begin (some r)] } where
  cursor := by
    obtain ⟨v, hlo, hhi, hv⟩ := h.cursor
    refine ⟨v, hlo, ?_, hv⟩
    simpa [BindProc.between, BindPc.begin, BindPc.between] using hhi
  chosen := by
    intro pc hpc
    rcases List.mem_append.mp hpc with hpc | hpc
    · exact h.chosen pc hpc
    · obtain rfl := List.mem_singleton.mp hpc
      simp [BindPc.begin, BindPc.chosen]
  tried := h.tried

theorem new (hr : r.min ≤ r.max) : InRange r (.new (some r)) where
  cursor := ⟨r.min.toNat, le_rfl,
    Nat.le_add_right_of_le (UInt16.le_iff_toNat_le.mp hr),
    (Nat.mod_eq_of_lt r.min.toNat_lt).symm⟩
  chosen := by simp [BindProc.new]
  tried := by simp [BindProc.new]

theorem step {act : BindAct} (hr : r.min ≤ r.max) (h : InRange r s)
    (hfits : FetchFits r s act)
    (hstep : (bindProgram (some r)).step s act = some s') : InRange r s' := by
  cases act with
  | call pc =>
      obtain ⟨hentry, rfl⟩ := Program.step_call.mp hstep
      obtain rfl : pc = .begin (some r) := by simpa [bindProgram] using hentry
      exact h.call
  | step i choice =>
      obtain ⟨pc, next, pc', ports, hi, hadv, rfl⟩ := Program.step_step.mp hstep
      exact h.advanceIn hr hi hfits hadv
  | ambient event => cases event

end InRange

/-- The calls together pass only ports of the range to `TcpListener::bind`, in
every run in which each `fetch_add` comes while at most `2 ^ 16 - 1 - max` other
calls stand between theirs and their store. -/
theorem binds_stay_in_range (r : PortRange) (hr : r.min ≤ r.max)
    (acts : List BindAct) (s : BindProc)
    (hrun : run (bindProgram (some r)).step (BindProc.new (some r)) acts = some s)
    (hfits : StepsMeet (bindProgram (some r)).step (FetchFits r)
      (BindProc.new (some r)) acts) :
    ∀ port ∈ s.log, port ∈ r :=
  (run_invariant_of_stepsMeet (P := InRange r) (InRange.new hr)
    (fun _ _ _ _ h hC hstep => h.step hr hC hstep) hrun hfits).tried

/-- Two calls at once: both fetch before either stores. -/
def twoBinds : List BindAct :=
  [.call (.begin (some ⟨9000, 9000⟩)), .call (.begin (some ⟨9000, 9000⟩)),
    .step 0 .go, .step 1 .go, .step 1 .go, .step 0 .go,
    .step 0 (.bound (some 9000)), .step 1 (.bound none), .step 1 .go]

def twoBindsEnd : BindProc :=
  (run (bindProgram (some ⟨9000, 9000⟩)).step
    (BindProc.new (some ⟨9000, 9000⟩)) twoBinds).get (by decide +kernel)

theorem binds_stay_in_range_two :
    twoBindsEnd.log = [9000, 9000] ∧
      twoBindsEnd.tasks[1]? = some (.returned (.error .portRangeExhausted)) ∧
      ∀ port ∈ twoBindsEnd.log, port ∈ (⟨9000, 9000⟩ : PortRange) :=
  ⟨by decide +kernel, by decide +kernel,
    binds_stay_in_range ⟨9000, 9000⟩ (by decide) twoBinds twoBindsEnd
      (Option.some_get _).symm (by decide +kernel)⟩

/-- Two calls on a range that ends with the last port.  The first has fetched
`65535` and has not stored; the second reads the sum, which has wrapped, and
asks the system for port `0`, which chooses one. -/
def wrappedFetch : List BindAct :=
  [.call (.begin (some ⟨65534, 65535⟩)), .step 0 .go, .step 0 .go,
    .step 0 (.bound (some 65534)),
    .call (.begin (some ⟨65534, 65535⟩)), .call (.begin (some ⟨65534, 65535⟩)),
    .step 1 .go, .step 2 .go, .step 2 .go, .step 2 (.bound (some 49152))]

/-- In that run a port outside the range is bound. -/
theorem wrappedFetch_leaves_range :
    ∃ s, run (bindProgram (some ⟨65534, 65535⟩)).step
        (BindProc.new (some ⟨65534, 65535⟩)) wrappedFetch = some s ∧
      0 ∈ s.log ∧ 0 ∉ (⟨65534, 65535⟩ : PortRange) ∧
      s.tasks[2]? = some (.returned (.ok 49152)) :=
  ⟨_, (Option.some_get (by decide +kernel)).symm, by decide +kernel,
    by decide, by decide +kernel⟩

end Coordin8
