import Coordin8.Support.Transition

/-!
# Tasks over a shared state

A process is a pool of tasks over one shared state.  A step lets one task make
its next atomic move, starts a new task for a caller, or is an ambient event
(the clock moves, a background loop starts a task).  Each step may append
events to a log, which the program never reads: it is there to say what has
happened.

`Program.Keeps` packages the proof that something holds along every
interleaving.  The invariant has a part about the shared state and the log, and
a part for each task; the step of one task must keep its own part and must not
disturb the others.
-/

namespace Coordin8.Support

variable {σ π ε ι κ : Type*}

structure Pool (σ π ε : Type*) where
  shared : σ
  tasks : List π
  log : List ε

/-- What the tasks of a pool do: `ι` are the choices made for a step from
outside (an answer that arrives, a fresh identifier), `κ` the ambient events. -/
structure Program (σ π ε ι κ : Type*) where
  /-- The tasks a caller may start. -/
  entry : π → Bool
  /-- The next move of the task with the given index. -/
  advance : Nat → σ → π → ι → Option (σ × π × List ε)
  /-- An ambient event, and the tasks it starts. -/
  ambient : σ → κ → Option (σ × List π)

inductive PoolAct (π ι κ : Type*) where
  | call (pc : π)
  | step (i : Nat) (choice : ι)
  | ambient (event : κ)

variable {i j : Nat} {pc : π} {act : PoolAct π ι κ}

theorem getElem?_set_cases {l : List σ} {a b : σ}
    (h : (l.set i a)[j]? = some b) :
    (i = j ∧ b = a) ∨ (i ≠ j ∧ l[j]? = some b) := by
  rw [List.getElem?_set] at h
  split at h
  · next hij =>
    split at h
    · exact Or.inl ⟨hij, (Option.some.inj h).symm⟩
    · cases h
  · next hij => exact Or.inr ⟨hij, h⟩

namespace Program

variable (P : Program σ π ε ι κ)

def step (s : Pool σ π ε) : PoolAct π ι κ → Option (Pool σ π ε)
  | .call pc =>
      if P.entry pc then some { s with tasks := s.tasks ++ [pc] } else none
  | .step i choice =>
      match s.tasks[i]? with
      | none => none
      | some pc =>
          match P.advance i s.shared pc choice with
          | none => none
          | some (shared, pc', events) =>
              some {
                shared := shared
                tasks := s.tasks.set i pc'
                log := s.log ++ events }
  | .ambient event =>
      match P.ambient s.shared event with
      | none => none
      | some (shared, spawned) =>
          some { s with shared := shared, tasks := s.tasks ++ spawned }

variable {P} {s s' : Pool σ π ε}

theorem step_call :
    P.step s (.call pc) = some s' ↔
      P.entry pc = true ∧ s' = { s with tasks := s.tasks ++ [pc] } := by
  simp only [step]
  split
  · next h => simp [h, eq_comm]
  · next h => simp [h]

theorem step_step {choice : ι} :
    P.step s (.step i choice) = some s' ↔
      ∃ pc shared pc' events, s.tasks[i]? = some pc ∧
        P.advance i s.shared pc choice = some (shared, pc', events) ∧
        s' = ⟨shared, s.tasks.set i pc', s.log ++ events⟩ := by
  simp only [step]
  cases hpc : s.tasks[i]? with
  | none => simp
  | some pc =>
      cases hadv : P.advance i s.shared pc choice with
      | none => simp [hadv]
      | some out =>
          obtain ⟨shared, pc', events⟩ := out
          simp only [hadv]
          constructor
          · intro h
            exact ⟨pc, shared, pc', events, rfl, hadv, (Option.some.inj h).symm⟩
          · rintro ⟨pc₁, shared₁, pc₁', events₁, hpc₁, hadv₁, rfl⟩
            obtain rfl := Option.some.inj hpc₁
            simp only [hadv, Option.some.injEq, Prod.mk.injEq] at hadv₁
            obtain ⟨rfl, rfl, rfl⟩ := hadv₁
            rfl

theorem step_ambient {event : κ} :
    P.step s (.ambient event) = some s' ↔
      ∃ shared spawned, P.ambient s.shared event = some (shared, spawned) ∧
        s' = { s with shared := shared, tasks := s.tasks ++ spawned } := by
  simp only [step]
  cases h : P.ambient s.shared event with
  | none => simp
  | some out =>
      obtain ⟨shared, spawned⟩ := out
      constructor
      · intro hs
        exact ⟨shared, spawned, rfl, (Option.some.inj hs).symm⟩
      · rintro ⟨shared', spawned', heq, rfl⟩
        obtain ⟨rfl, rfl⟩ := Prod.mk.inj (Option.some.inj heq)
        rfl

theorem task_of_step (h : P.step s act = some s') (hj : s.tasks[j]? = some pc) :
    s'.tasks[j]? = some pc ∨
      ∃ choice shared pc' events, act = .step j choice ∧
        P.advance j s.shared pc choice = some (shared, pc', events) ∧
        s'.tasks[j]? = some pc' ∧ s'.log = s.log ++ events := by
  have hlt : j < s.tasks.length := (List.getElem?_eq_some_iff.mp hj).1
  cases act with
  | call pc =>
      obtain ⟨-, rfl⟩ := step_call.mp h
      exact Or.inl ((List.getElem?_append_left hlt).trans hj)
  | ambient event =>
      obtain ⟨shared, spawned, -, rfl⟩ := step_ambient.mp h
      exact Or.inl ((List.getElem?_append_left hlt).trans hj)
  | step i choice =>
      obtain ⟨pc₁, shared, pc', events, hi, hadv, rfl⟩ := step_step.mp h
      by_cases heq : i = j
      · subst heq
        obtain rfl := Option.some.inj (hj.symm.trans hi)
        exact Or.inr ⟨choice, shared, pc', events, rfl, hadv,
          List.getElem?_set_self hlt, rfl⟩
      · exact Or.inl ((List.getElem?_set_ne heq).trans hj)

/-- Where a task stands after a step: where it stood, where its own move brought
it, or at its beginning. -/
theorem task_origin {pc' : π}
    (h : P.step s act = some s') (hj : s'.tasks[j]? = some pc') :
    s.tasks[j]? = some pc' ∨
      (∃ choice pc events, act = .step j choice ∧ s.tasks[j]? = some pc ∧
        P.advance j s.shared pc choice = some (s'.shared, pc', events)) ∨
      (act = .call pc' ∧ P.entry pc' = true) ∨
      ∃ event spawned, act = .ambient event ∧
        P.ambient s.shared event = some (s'.shared, spawned) ∧
        pc' ∈ spawned := by
  cases act with
  | call pc =>
      obtain ⟨hentry, rfl⟩ := step_call.mp h
      rw [List.getElem?_append] at hj
      split at hj
      · exact .inl hj
      · obtain rfl := List.mem_singleton.mp (List.mem_of_getElem? hj)
        exact .inr (.inr (.inl ⟨rfl, hentry⟩))
  | step i choice =>
      obtain ⟨pc, shared, pc₁, events, hi, hadv, rfl⟩ := step_step.mp h
      rcases getElem?_set_cases hj with ⟨rfl, rfl⟩ | ⟨-, hj⟩
      · exact .inr (.inl ⟨choice, pc, events, rfl, hi, hadv⟩)
      · exact .inl hj
  | ambient event =>
      obtain ⟨shared, spawned, hamb, rfl⟩ := step_ambient.mp h
      dsimp only at hj
      rw [List.getElem?_append] at hj
      split at hj
      · exact .inl hj
      · exact .inr (.inr (.inr ⟨event, spawned, rfl, hamb,
          List.mem_of_getElem? hj⟩))

theorem log_subset_of_step (h : P.step s act = some s') : s.log ⊆ s'.log := by
  cases act with
  | call pc =>
      obtain ⟨-, rfl⟩ := step_call.mp h
      exact List.Subset.refl _
  | step i choice =>
      obtain ⟨pc, shared, pc', events, -, -, rfl⟩ := step_step.mp h
      exact List.subset_append_left _ _
  | ambient event =>
      obtain ⟨shared, spawned, -, rfl⟩ := step_ambient.mp h
      exact List.Subset.refl _

theorem log_subset_of_run {acts : List (PoolAct π ι κ)}
    (h : run P.step s acts = some s') : s.log ⊆ s'.log :=
  Reachable.invariant (P := fun s' => s.log ⊆ s'.log) (List.Subset.refl _)
    (fun _ _ _ _ hsub hstep =>
      List.Subset.trans hsub (log_subset_of_step hstep)) ⟨_, h⟩

/-! ## Running one task to its end -/

/-- The two parts of an invariant, and that every kind of step that meets the
condition `C` keeps them.  The steps are those of reachable pools, so facts
already known of these may be used. -/
structure KeepsUnder (P : Program σ π ε ι κ)
    (C : Pool σ π ε → PoolAct π ι κ → Prop) (s₀ : Pool σ π ε)
    (Glob : σ → List ε → Nat → Prop) (Loc : σ → List ε → Nat → π → Prop) :
    Prop where
  init : Glob s₀.shared s₀.log s₀.tasks.length ∧
    ∀ i pc, s₀.tasks[i]? = some pc → Loc s₀.shared s₀.log i pc
  call : ∀ {s pc}, Reachable P.step s₀ s → C s (.call pc) →
    P.entry pc = true → Glob s.shared s.log s.tasks.length →
    Glob s.shared s.log (s.tasks.length + 1) ∧
      Loc s.shared s.log s.tasks.length pc
  step : ∀ {s i pc choice shared pc' events}, Reachable P.step s₀ s →
    C s (.step i choice) → s.tasks[i]? = some pc →
    P.advance i s.shared pc choice = some (shared, pc', events) →
    Glob s.shared s.log s.tasks.length →
    (∀ j pc, s.tasks[j]? = some pc → Loc s.shared s.log j pc) →
    Glob shared (s.log ++ events) s.tasks.length ∧
      Loc shared (s.log ++ events) i pc' ∧
      ∀ j pc, j ≠ i → s.tasks[j]? = some pc → Loc shared (s.log ++ events) j pc
  ambient : ∀ {s event shared spawned}, Reachable P.step s₀ s →
    C s (.ambient event) → P.ambient s.shared event = some (shared, spawned) →
    Glob s.shared s.log s.tasks.length →
    (∀ j pc, s.tasks[j]? = some pc → Loc s.shared s.log j pc) →
    Glob shared s.log (s.tasks.length + spawned.length) ∧
      (∀ k pc, spawned[k]? = some pc →
        Loc shared s.log (s.tasks.length + k) pc) ∧
      ∀ j pc, s.tasks[j]? = some pc → Loc shared s.log j pc

/-- The same for all steps. -/
abbrev Keeps (P : Program σ π ε ι κ) (s₀ : Pool σ π ε)
    (Glob : σ → List ε → Nat → Prop) (Loc : σ → List ε → Nat → π → Prop) :
    Prop :=
  KeepsUnder P (fun _ _ => True) s₀ Glob Loc

variable {C : Pool σ π ε → PoolAct π ι κ → Prop} {s₀ : Pool σ π ε}
  {Glob : σ → List ε → Nat → Prop} {Loc : σ → List ε → Nat → π → Prop}

/-- An invariant kept by the steps that meet a condition holds at the end of
every run whose steps all meet it. -/
theorem KeepsUnder.holds (hkeeps : KeepsUnder P C s₀ Glob Loc)
    {acts : List (PoolAct π ι κ)} (hrun : run P.step s₀ acts = some s)
    (hmeet : StepsMeet P.step C s₀ acts) :
    Glob s.shared s.log s.tasks.length ∧
      ∀ i pc, s.tasks[i]? = some pc → Loc s.shared s.log i pc := by
  refine run_invariant_of_stepsMeet
    (P := fun s => Glob s.shared s.log s.tasks.length ∧
      ∀ i pc, s.tasks[i]? = some pc → Loc s.shared s.log i pc)
    hkeeps.init ?_ hrun hmeet
  rintro s act s' hreach ⟨hglob, hloc⟩ hC hstep
  cases act with
  | call pc =>
      obtain ⟨hentry, rfl⟩ := step_call.mp hstep
      obtain ⟨hglob', hnew⟩ := hkeeps.call hreach hC hentry hglob
      refine ⟨by simpa using hglob', fun i pc' hpc' => ?_⟩
      rcases Nat.lt_trichotomy i s.tasks.length with hlt | rfl | hgt
      · rw [List.getElem?_append_left hlt] at hpc'
        exact hloc i pc' hpc'
      · simp only [List.getElem?_concat_length, Option.some.injEq] at hpc'
        exact hpc' ▸ hnew
      · rw [List.getElem?_eq_none (by simp; omega)] at hpc'
        cases hpc'
  | step i choice =>
      obtain ⟨pc, shared, pc', events, hpc, hadv, rfl⟩ := step_step.mp hstep
      obtain ⟨hglob', hown, hothers⟩ := hkeeps.step hreach hC hpc hadv hglob hloc
      refine ⟨by simpa using hglob', fun j pcj hj => ?_⟩
      rcases getElem?_set_cases hj with ⟨rfl, rfl⟩ | ⟨hne, hj⟩
      · exact hown
      · exact hothers j pcj hne.symm hj
  | ambient event =>
      obtain ⟨shared, spawned, hamb, rfl⟩ := step_ambient.mp hstep
      obtain ⟨hglob', hnew, hold⟩ := hkeeps.ambient hreach hC hamb hglob hloc
      refine ⟨by simpa using hglob', fun i pc hpc => ?_⟩
      dsimp only at hpc
      by_cases hlt : i < s.tasks.length
      · rw [List.getElem?_append_left hlt] at hpc
        exact hold i pc hpc
      · rw [List.getElem?_append_right (Nat.le_of_not_lt hlt)] at hpc
        have hi := hnew _ _ hpc
        rwa [Nat.add_sub_cancel' (Nat.le_of_not_lt hlt)] at hi

theorem Keeps.holds (hkeeps : Keeps P s₀ Glob Loc)
    (hreach : Reachable P.step s₀ s) :
    Glob s.shared s.log s.tasks.length ∧
      ∀ i pc, s.tasks[i]? = some pc → Loc s.shared s.log i pc := by
  obtain ⟨acts, hrun⟩ := hreach
  exact KeepsUnder.holds hkeeps hrun (stepsMeet_true s₀ acts)

end Program

end Coordin8.Support
