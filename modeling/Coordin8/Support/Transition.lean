import Mathlib.Data.List.Induction
import Mathlib.Logic.Basic

/-!
# Runs of a partial step function

A system is given by a partial step function: `step s a = none` says that the
action `a` is not enabled in the state `s`.  This module fixes what a run is,
and packages the induction over runs once: an invariant of one step is an
invariant of every reachable state, an invariant may speak about the actions
taken so far, and two systems may be run side by side.
-/

namespace Coordin8.Support

variable {σ τ α β : Type*}

/-- The state after the actions `as`, when every one of them is enabled. -/
def run (step : σ → α → Option σ) : σ → List α → Option σ
  | s, [] => some s
  | s, a :: as => (step s a).bind fun s' => run step s' as

/-- `s` is the end of some run from `s₀`. -/
def Reachable (step : σ → α → Option σ) (s₀ s : σ) : Prop :=
  ∃ as, run step s₀ as = some s

@[simp] theorem run_nil (step : σ → α → Option σ) (s : σ) :
    run step s [] = some s := rfl

variable {step : σ → α → Option σ} {s s' s₀ m : σ} {a : α} {as bs : List α}
  {C : σ → α → Prop}

theorem run_cons_eq_some :
    run step s (a :: as) = some s' ↔
      ∃ m, step s a = some m ∧ run step m as = some s' := by
  simp [run, Option.bind_eq_some_iff]

theorem run_singleton (h : step s a = some s') : run step s [a] = some s' :=
  run_cons_eq_some.mpr ⟨s', h, rfl⟩

theorem run_append (step : σ → α → Option σ) (s : σ) (as bs : List α) :
    run step s (as ++ bs) = (run step s as).bind fun m => run step m bs := by
  induction as generalizing s with
  | nil => rfl
  | cons a as ih =>
      simp only [List.cons_append, run, Option.bind_assoc]
      congr 1
      funext m
      exact ih m

theorem run_append_eq_some :
    run step s (as ++ bs) = some s' ↔
      ∃ m, run step s as = some m ∧ run step m bs = some s' := by
  rw [run_append, Option.bind_eq_some_iff]

theorem run_snoc_eq_some :
    run step s (as ++ [a]) = some s' ↔
      ∃ m, run step s as = some m ∧ step m a = some s' := by
  simp [run_append_eq_some, run_cons_eq_some]

namespace Reachable

variable {step : σ → α → Option σ} {s₀ s s' : σ}

theorem refl (step : σ → α → Option σ) (s₀ : σ) : Reachable step s₀ s₀ :=
  ⟨[], rfl⟩

theorem tail {a : α} (h : Reachable step s₀ s) (hstep : step s a = some s') :
    Reachable step s₀ s' := by
  obtain ⟨as, has⟩ := h
  exact ⟨as ++ [a], run_snoc_eq_some.mpr ⟨s, has, hstep⟩⟩

theorem append (h : Reachable step s₀ s) (hrun : run step s as = some s') :
    Reachable step s₀ s' := by
  obtain ⟨bs, hbs⟩ := h
  exact ⟨bs ++ as, run_append_eq_some.mpr ⟨s, hbs, hrun⟩⟩

end Reachable

/-- Induction over runs for a property of the actions taken and the state
reached. -/
theorem run_invariant {P : List α → σ → Prop} (hinit : P [] s₀)
    (hstep : ∀ as s a s', run step s₀ as = some s → P as s →
      step s a = some s' → P (as ++ [a]) s') (hrun : run step s₀ as = some s) : P as s := by
  induction as using List.reverseRecOn generalizing s with
  | nil =>
      obtain rfl : s₀ = s := by simpa using hrun
      exact hinit
  | append_singleton as a ih =>
      obtain ⟨m, hm, ha⟩ := run_snoc_eq_some.mp hrun
      exact hstep as m a s hm (ih hm) ha

/-- An invariant of the initial state that every step keeps holds in every
reachable state. -/
theorem Reachable.invariant {P : σ → Prop} (hinit : P s₀)
    (hstep : ∀ s a s', Reachable step s₀ s → P s →
      step s a = some s' → P s') (h : Reachable step s₀ s) : P s := by
  obtain ⟨as, has⟩ := h
  exact run_invariant (P := fun _ s => P s) hinit
    (fun as s a s' hrun hP ha => hstep s a s' ⟨as, hrun⟩ hP ha) has

/-! ## Runs whose steps all meet a condition -/

/-- Every step of the run meets `C`, a condition on the state before the step
and the action taken. -/
def StepsMeet (step : σ → α → Option σ) (C : σ → α → Prop) : σ → List α → Prop
  | _, [] => True
  | s, a :: as => C s a ∧ ∀ s', step s a = some s' → StepsMeet step C s' as

theorem StepsMeet.cons (hC : C s a) (hstep : step s a = some m)
    (hrest : StepsMeet step C m as) : StepsMeet step C s (a :: as) := by
  refine ⟨hC, fun s' hs' => ?_⟩
  rw [hstep] at hs'
  exact Option.some.inj hs' ▸ hrest

instance StepsMeet.decidable {step : σ → α → Option σ} {C : σ → α → Prop}
    [∀ s a, Decidable (C s a)] :
    ∀ s as, Decidable (StepsMeet step C s as)
  | _, [] => .isTrue trivial
  | s, a :: as =>
      match h : step s a with
      | none => decidable_of_iff (C s a) (by simp [StepsMeet, h])
      | some m =>
          have : Decidable (StepsMeet step C m as) := StepsMeet.decidable m as
          decidable_of_iff (C s a ∧ StepsMeet step C m as)
            (by simp [StepsMeet, h])

theorem stepsMeet_true (s : σ) (as : List α) :
    StepsMeet step (fun _ _ => True) s as := by
  induction as generalizing s with
  | nil => trivial
  | cons a as ih => exact ⟨trivial, fun s' _ => ih s'⟩

theorem stepsMeet_of_forall (h : ∀ a ∈ as, ∀ s, C s a) (s : σ) :
    StepsMeet step C s as := by
  induction as generalizing s with
  | nil => trivial
  | cons a as ih =>
      exact ⟨h a List.mem_cons_self s, fun s' _ =>
        ih (fun b hb => h b (List.mem_cons_of_mem a hb)) s'⟩

theorem StepsMeet.and {D E : σ → α → Prop} (hE : ∀ s a, C s a → D s a → E s a)
    (hC : StepsMeet step C s as) (hD : StepsMeet step D s as) :
    StepsMeet step E s as := by
  induction as generalizing s with
  | nil => trivial
  | cons a as ih =>
      exact ⟨hE s a hC.1 hD.1, fun s' hs' => ih (hC.2 s' hs') (hD.2 s' hs')⟩

theorem stepsMeet_append (hrun : run step s as = some m) :
    StepsMeet step C s (as ++ bs) ↔
      StepsMeet step C s as ∧ StepsMeet step C m bs := by
  induction as generalizing s with
  | nil =>
      obtain rfl : s = m := by simpa using hrun
      simp [StepsMeet]
  | cons a as ih =>
      obtain ⟨n, hn, hrest⟩ := run_cons_eq_some.mp hrun
      simp only [List.cons_append, StepsMeet, hn, Option.some.injEq,
        forall_eq', ih hrest]
      tauto

/-- An invariant that every step meeting `C` keeps holds at the end of every
run whose steps all meet `C`. -/
theorem run_invariant_of_stepsMeet {P : σ → Prop} (hinit : P s₀)
    (hstep : ∀ s a s', Reachable step s₀ s → P s → C s a →
      step s a = some s' → P s') (hrun : run step s₀ as = some s)
    (hmeet : StepsMeet step C s₀ as) : P s := by
  refine run_invariant
    (P := fun as s => StepsMeet step C s₀ as → P s) (fun _ => hinit) ?_
    hrun hmeet
  intro as s a s' hrun ih ha hmeet
  obtain ⟨hpre, hlast⟩ := (stepsMeet_append hrun).mp hmeet
  exact hstep s a s' ⟨as, hrun⟩ (ih hpre) hlast.1 ha

/-! ## What the steps of a run leave behind -/

/-- What the steps of the run leave behind, in order. -/
def trace (step : σ → α → Option σ) (leave : σ → α → σ → List β) :
    σ → List α → List β
  | _, [] => []
  | s, a :: as =>
      match step s a with
      | none => []
      | some s' => leave s a s' ++ trace step leave s' as

theorem trace_concat {leave : σ → α → σ → List β} (hrun : run step s as = some m)
    (hstep : step m a = some s') :
    trace step leave s (as ++ [a]) = trace step leave s as ++ leave m a s' := by
  induction as generalizing s with
  | nil =>
      obtain rfl : s = m := by simpa using hrun
      simp [trace, hstep]
  | cons b as ih =>
      obtain ⟨n, hn, hrest⟩ := run_cons_eq_some.mp hrun
      simp only [List.cons_append, trace, hn, ih hrest, List.append_assoc]

/-! ## Runs to the end -/

/-- Every step that meets `C` brings a good state to a smaller good one, and a
good state that is not done has such a step.  Then the run can be brought to
its end. -/
theorem exists_run_of_decreasing (C : α → Prop) (Good Done : σ → Prop)
    {r : σ → σ → Prop} (hwf : WellFounded r)
    (hstep : ∀ s a s', Good s → C a → step s a = some s' → Good s' ∧ r s' s)
    (hmove : ∀ s, Good s → ¬ Done s → ∃ a s', C a ∧ step s a = some s') (hs : Good s) :
    ∃ as s', (∀ a ∈ as, C a) ∧ run step s as = some s' ∧ Good s' ∧ Done s' := by
  induction s using hwf.induction with
  | h s ih =>
      by_cases hdone : Done s
      · exact ⟨[], s, by simp, rfl, hs, hdone⟩
      · obtain ⟨a, m, hC, ha⟩ := hmove s hs hdone
        obtain ⟨hm, hlt⟩ := hstep s a m hs hC ha
        obtain ⟨as, s', hCs, hrun, hs', hdone'⟩ := ih m hlt hm
        refine ⟨a :: as, s', ?_, run_cons_eq_some.mpr ⟨m, ha, hrun⟩, hs', hdone'⟩
        simpa [hC] using hCs

/-- Where the steps that meet `C` leave no choice, the runs to an end all end in
one state. -/
theorem run_unique
    (hdet : ∀ s a b t u, C s a → C s b → step s a = some t → step s b = some u →
      t = u)
    {e f : σ} (has : run step s as = some e)
    (hbs : run step s bs = some f) (hCas : StepsMeet step C s as)
    (hCbs : StepsMeet step C s bs) (he : ∀ a, C e a → step e a = none)
    (hf : ∀ a, C f a → step f a = none) : e = f := by
  induction as generalizing s bs with
  | nil =>
      obtain rfl := Option.some.inj has
      cases bs with
      | nil => exact Option.some.inj hbs
      | cons b bs =>
          obtain ⟨m, hm, -⟩ := run_cons_eq_some.mp hbs
          cases hm.symm.trans (he b hCbs.1)
  | cons a as ih =>
      obtain ⟨m, hm, has⟩ := run_cons_eq_some.mp has
      cases bs with
      | nil =>
          obtain rfl := Option.some.inj hbs
          cases hm.symm.trans (hf a hCas.1)
      | cons b bs =>
          obtain ⟨n, hn, hbs⟩ := run_cons_eq_some.mp hbs
          obtain rfl := hdet s a b m n hCas.1 hCbs.1 hm hn
          exact ih has hbs (hCas.2 m hm) (hCbs.2 m hn)

/-! ## Two runs side by side -/

/-- A relation that every common step keeps relates the ends of two runs of the
same actions. -/
theorem run_related
    {step₁ : σ → α → Option σ} {step₂ : τ → α → Option τ}
    {R : σ → τ → Prop} {C : α → Prop}
    (hstep : ∀ s t a s' t', C a → R s t → step₁ s a = some s' →
      step₂ t a = some t' → R s' t') (hC : ∀ a ∈ as, C a) {t t' : τ} (hR : R s t)
    (hs : run step₁ s as = some s') (ht : run step₂ t as = some t') :
    R s' t' := by
  induction as generalizing s t with
  | nil =>
      obtain rfl := Option.some.inj hs
      obtain rfl := Option.some.inj ht
      exact hR
  | cons a as ih =>
      obtain ⟨s₁, hs₁, hs⟩ := run_cons_eq_some.mp hs
      obtain ⟨t₁, ht₁, ht⟩ := run_cons_eq_some.mp ht
      refine ih (fun b hb => hC b (List.mem_cons_of_mem a hb)) ?_ hs ht
      exact hstep s t a s₁ t₁ (hC a List.mem_cons_self) hR hs₁ ht₁

end Coordin8.Support
