import Mathlib.Data.List.Perm.Basic
import Mathlib.Data.List.Induction

/-!
# Calls made in parallel and joined

A batch holds one call for each target.  A call is first ready, then sent, and
done once its answer has arrived; calls of one batch go out and come back in
any order.  When all are done the batch gives the answers in the order of the
targets.
-/

namespace Coordin8.Support

variable {τ ρ : Type*}

inductive Slot (ρ : Type*) where
  | ready
  | sent
  | done (answer : ρ)
deriving DecidableEq, Repr

/-- One call for each target. -/
abbrev Batch (τ ρ : Type*) := List (τ × Slot ρ)

variable {b : Batch τ ρ} {k : Nat} {t : τ} {r : ρ} {x y : Slot ρ}

namespace Batch

def start (targets : List τ) : Batch τ ρ :=
  targets.map (·, .ready)

def targets (b : Batch τ ρ) : List τ :=
  b.map Prod.fst

/-- Send the call number `k`. -/
def send (b : Batch τ ρ) (k : Nat) : Option (τ × Batch τ ρ) :=
  match b[k]? with
  | some (t, .ready) => some (t, b.set k (t, .sent))
  | _ => none

/-- The answer to the call number `k` arrives. -/
def answer (b : Batch τ ρ) (k : Nat) (r : ρ) : Option (τ × Batch τ ρ) :=
  match b[k]? with
  | some (t, .sent) => some (t, b.set k (t, .done r))
  | _ => none

/-- The answers, once all have arrived. -/
def results : Batch τ ρ → Option (List (τ × ρ))
  | [] => some []
  | (t, .done r) :: b => (results b).map ((t, r) :: ·)
  | _ :: _ => none

/-- The targets of the calls that have been sent. -/
def called (b : Batch τ ρ) : List τ :=
  b.filterMap fun
    | (_, .ready) => none
    | (t, _) => some t

/-- The answer to the call number `k`, if it has arrived. -/
def reply (b : Batch τ ρ) (k : Nat) : Option ρ :=
  match b[k]? with
  | some (_, .done r) => some r
  | _ => none

@[simp] theorem targets_start (ts : List τ) :
    targets (start ts : Batch τ ρ) = ts := by
  simp [targets, start, Function.comp_def]

@[simp] theorem called_start (ts : List τ) :
    called (start ts : Batch τ ρ) = [] := by
  simp [called, start]

@[simp] theorem reply_start (ts : List τ) (k : Nat) :
    reply (start ts : Batch τ ρ) k = none := by
  simp only [reply, start, List.getElem?_map]
  cases ts[k]? <;> rfl

theorem send_eq_some {b' : Batch τ ρ} :
    send b k = some (t, b') ↔
      b[k]? = some (t, .ready) ∧ b' = b.set k (t, .sent) := by
  unfold send
  split
  · next t' h => simp +contextual [h, eq_comm]
  · next h =>
    simp only [reduceCtorEq, false_iff, not_and]
    exact fun h' => absurd h' (h t)

theorem answer_eq_some {b' : Batch τ ρ} :
    answer b k r = some (t, b') ↔
      b[k]? = some (t, .sent) ∧ b' = b.set k (t, .done r) := by
  unfold answer
  split
  · next t' h => simp +contextual [h, eq_comm]
  · next h =>
    simp only [reduceCtorEq, false_iff, not_and]
    exact fun h' => absurd h' (h t)

theorem targets_set
    (h : b[k]? = some (t, x)) : targets (b.set k (t, y)) = targets b := by
  refine List.ext_getElem? fun j => ?_
  simp only [targets, List.getElem?_map, List.getElem?_set]
  split
  · next hj =>
    subst hj
    rw [if_pos (List.getElem?_eq_some_iff.mp h).1, h]
    rfl
  · rfl

theorem reply_set (h : b[k]? = some (t, x)) (j : Nat) :
    reply (b.set k (t, y)) j =
      if j = k then reply [(t, y)] 0 else reply b j := by
  unfold reply
  by_cases hj : j = k
  · subst hj
    have hlt := (List.getElem?_eq_some_iff.mp h).1
    simp [hlt]
  · simp [hj, Ne.symm hj]

theorem reply_send (h : b[k]? = some (t, .ready)) :
    reply (b.set k (t, .sent)) = reply b := by
  funext j
  rw [reply_set h]
  split
  · next hj =>
    subst hj
    simp [reply, h]
  · rfl

theorem reply_answer (h : b[k]? = some (t, .sent)) (j : Nat) (v : ρ) :
    reply (b.set k (t, .done r)) j = some v ↔
      reply b j = some v ∨ (j = k ∧ v = r) := by
  rw [reply_set h]
  split
  · next hj =>
    subst hj
    simp [reply, h, eq_comm]
  · next hj => simp [hj]

theorem called_send (h : b[k]? = some (t, .ready)) :
    (called (b.set k (t, .sent))).Perm (t :: called b) := by
  induction b generalizing k with
  | nil => simp at h
  | cons a b ih =>
      cases k with
      | zero =>
          obtain rfl : a = (t, .ready) := by simpa using h
          simp [called]
      | succ k =>
          have hrec := ih (by simpa using h)
          obtain ⟨u, x⟩ := a
          cases x with
          | ready => simpa [called] using hrec
          | sent | done =>
              simp only [called, List.set_cons_succ, List.filterMap_cons] at *
              exact (hrec.cons u).trans (List.Perm.swap t u _)

theorem called_answer (h : b[k]? = some (t, .sent)) :
    called (b.set k (t, .done r)) = called b := by
  induction b generalizing k with
  | nil => simp at h
  | cons a b ih =>
      cases k with
      | zero =>
          obtain rfl : a = (t, .sent) := by simpa using h
          simp [called]
      | succ k =>
          have hrec := ih (by simpa using h)
          obtain ⟨u, x⟩ := a
          cases x <;>
            simpa [called, List.filterMap_cons] using hrec

/-- A batch with all its answers: every call was sent, and the answers are the
replies in order. -/
theorem results_eq_some {rs : List (τ × ρ)} (h : results b = some rs) :
    rs.map Prod.fst = targets b ∧ called b = targets b ∧
      ∀ k, reply b k = (rs.map Prod.snd)[k]? := by
  induction b generalizing rs with
  | nil =>
      obtain rfl : [] = rs := by simpa [results] using h
      simp [targets, called, reply]
  | cons a b ih =>
      obtain ⟨t, x⟩ := a
      cases x with
      | ready | sent => simp [results] at h
      | done r =>
          simp only [results, Option.map_eq_some_iff] at h
          obtain ⟨rs, hrs, rfl⟩ := h
          obtain ⟨htargets, hcalled, hreply⟩ := ih hrs
          refine ⟨by simp [targets, htargets], ?_, fun k => ?_⟩
          · simpa [called, targets] using hcalled
          · cases k with
            | zero => simp [reply]
            | succ k => simpa [reply] using hreply k

theorem eq_map_of_results {rs : List (τ × ρ)}
    (h : results b = some rs) : b = rs.map fun p => (p.1, .done p.2) := by
  induction b generalizing rs with
  | nil =>
      obtain rfl : [] = rs := by simpa [results] using h
      rfl
  | cons a b ih =>
      obtain ⟨t, x⟩ := a
      cases x with
      | ready | sent => simp [results] at h
      | done r =>
          simp only [results, Option.map_eq_some_iff] at h
          obtain ⟨rs, hrs, rfl⟩ := h
          rw [List.map_cons, ← ih hrs]

/-- The moves still to be made before the batch is complete. -/
def remaining : Batch τ ρ → Nat
  | [] => 0
  | (_, .ready) :: b => remaining b + 2
  | (_, .sent) :: b => remaining b + 1
  | (_, .done _) :: b => remaining b

theorem remaining_start (ts : List τ) :
    remaining (start ts : Batch τ ρ) = 2 * ts.length := by
  induction ts with
  | nil => rfl
  | cons t ts ih =>
      simp only [start, List.map_cons, remaining] at ih ⊢
      rw [ih, List.length_cons]
      omega

/-- The moves still to be made for one call. -/
def pending : Slot ρ → Nat
  | .ready => 2
  | .sent => 1
  | .done _ => 0

theorem remaining_set (h : b[k]? = some (t, x)) :
    remaining (b.set k (t, y)) + pending x = remaining b + pending y := by
  induction b generalizing k with
  | nil => simp at h
  | cons a b ih =>
      cases k with
      | zero =>
          obtain rfl : a = (t, x) := by simpa using h
          cases x <;> cases y <;> simp [remaining, pending]
      | succ k =>
          have hrec := ih (k := k) (by simpa using h)
          obtain ⟨u, z⟩ := a
          cases z <;> simp only [List.set_cons_succ, remaining] <;> omega

theorem remaining_send (h : b[k]? = some (t, .ready)) :
    remaining (b.set k (t, .sent)) + 1 = remaining b := by
  have hset := remaining_set (y := .sent) h
  simp only [pending] at hset
  omega

theorem remaining_answer (h : b[k]? = some (t, .sent)) :
    remaining (b.set k (t, .done r)) + 1 = remaining b := by
  have hset := remaining_set (y := .done r) h
  simp only [pending] at hset
  omega

/-- A batch that is not complete has a call to send or to be answered. -/
theorem exists_move_of_results_eq_none (h : results b = none) :
    ∃ (k : Nat) (t : τ),
      b[k]? = some (t, Slot.ready) ∨ b[k]? = some (t, Slot.sent) := by
  induction b with
  | nil => simp [results] at h
  | cons a b ih =>
      obtain ⟨t, x⟩ := a
      cases x with
      | ready => exact ⟨0, t, Or.inl rfl⟩
      | sent => exact ⟨0, t, Or.inr rfl⟩
      | done r =>
          simp only [results, Option.map_eq_none_iff] at h
          obtain ⟨k, u, hk⟩ := ih h
          exact ⟨k + 1, u, by simpa using hk⟩

end Batch

end Coordin8.Support
