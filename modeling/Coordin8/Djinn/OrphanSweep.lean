import Coordin8.Core.Records
import Mathlib.Data.List.Perm.Basic

/-!
# The orphan sweep

The sweep lists the resources that are held by a lease, asks the lease manager
for each lease, and reclaims a resource when its lease was missing on this pass
and on the one before.  What a pass is told (the listing, and the answer to
every lookup) comes from outside, so that resources and leases may change as
they like between and during the passes.

A pass whose listing fails leaves the tracker as it was.  A pass that succeeds
replaces the suspects: those it confirms are forgotten, and the others that it
has found without a lease become the suspects.
-/

namespace Coordin8

/-- A resource held by a lease. -/
structure Held where
  leaseId : String
  id : String
  kind : String
deriving DecidableEq, Repr

/-- An order in which a set, kept as a list without repetitions, is iterated. -/
structure SetOrder (α : Type*) where
  list : List α → List α
  perm : ∀ xs, (list xs).Perm xs

def SetOrder.asKept (α : Type*) : SetOrder α where
  list xs := xs
  perm xs := List.Perm.refl xs

/-- A listed resource, and what the lease manager answers for its lease. -/
abbrev Lookup := Held × Except Error (Option LeaseRecord)

/-- What one pass is told. -/
structure SweepPass where
  listing : Except Error (List Lookup)
  order : SetOrder Held

/-- Two-strike bookkeeping: what was leaseless last pass. -/
structure OrphanTracker where
  suspects : List Held
deriving DecidableEq

def OrphanTracker.default : OrphanTracker where
  suspects := []

/-- Record this pass's leaseless resources; return those also leaseless on the
previous pass. -/
def OrphanTracker.pass (t : OrphanTracker) (order : SetOrder Held)
    (leaseless : List Held) : List Held × OrphanTracker :=
  let (confirmed, fresh) :=
    (order.list leaseless).partition fun h => t.suspects.contains h
  (confirmed, { suspects := fresh })

/-- The set of resources whose lease is missing.  A lookup that errors counts as
present. -/
def leaseless (lookups : List Lookup) : List Held :=
  lookups.foldl
    (fun set lookup =>
      match lookup.2 with
      | .ok none => set.insert lookup.1
      | _ => set)
    []

/-- One pass: the resources it reclaims, in order, and the tracker after it. -/
def sweepOnce (t : OrphanTracker) (p : SweepPass) :
    Except Error (List Held) × OrphanTracker :=
  match p.listing with
  | .error e => (.error e, t)
  | .ok lookups =>
      let (confirmed, t) := t.pass p.order (leaseless lookups)
      (.ok confirmed, t)

/-- The tracker after some passes. -/
def sweeps (t : OrphanTracker) (passes : List SweepPass) : OrphanTracker :=
  passes.foldl (fun t p => (sweepOnce t p).2) t

/-! ## What a pass does -/

/-- The pass has looked up the lease of the resource, and it was missing. -/
def SweepPass.FoundAbsent (p : SweepPass) (h : Held) : Prop :=
  ∃ lookups, p.listing = .ok lookups ∧ (h, .ok none) ∈ lookups

/-- The listing of the pass succeeded. -/
def SweepPass.succeeded (p : SweepPass) : Bool :=
  p.listing.isOk

/-- The last pass whose listing succeeded. -/
def lastSucceeded (passes : List SweepPass) : Option SweepPass :=
  (passes.filter SweepPass.succeeded).getLast?

variable {h x : Held}

theorem mem_leaseless {lookups : List Lookup} :
    h ∈ leaseless lookups ↔ (h, .ok none) ∈ lookups := by
  have hfold : ∀ set : List Held, h ∈ lookups.foldl (fun set lookup =>
      match lookup.2 with
      | .ok none => set.insert lookup.1
      | _ => set) set ↔ h ∈ set ∨ (h, .ok none) ∈ lookups := by
    induction lookups with
    | nil => simp
    | cons lookup lookups ih =>
        intro set
        obtain ⟨h', answer⟩ := lookup
        rw [List.foldl_cons, ih, List.mem_cons]
        rcases answer with e | _ | record
        · simp
        · simp only [List.mem_insert_iff, Prod.mk.injEq, and_true]
          tauto
        · simp
  simpa [leaseless] using hfold []

section Pass

variable {t : OrphanTracker} {p : SweepPass} {h : Held}

theorem OrphanTracker.mem_confirmed {order : SetOrder Held} {xs : List Held} :
    h ∈ (t.pass order xs).1 ↔ h ∈ xs ∧ h ∈ t.suspects := by
  simp [pass, (order.perm xs).mem_iff]

theorem OrphanTracker.mem_suspects {order : SetOrder Held} {xs : List Held} :
    h ∈ (t.pass order xs).2.suspects ↔ h ∈ xs ∧ h ∉ t.suspects := by
  simp [pass, (order.perm xs).mem_iff]

/-- A pass reclaims what it finds without a lease and suspected already. -/
theorem mem_reclaimed {confirmed : List Held}
    (hpass : (sweepOnce t p).1 = .ok confirmed) :
    h ∈ confirmed ↔ p.FoundAbsent h ∧ h ∈ t.suspects := by
  unfold sweepOnce at hpass
  unfold SweepPass.FoundAbsent
  cases hlisting : p.listing with
  | error e =>
      rw [hlisting] at hpass
      cases hpass
  | ok lookups =>
      simp only [hlisting, Except.ok.injEq] at hpass
      rw [← hpass, OrphanTracker.mem_confirmed, mem_leaseless]
      simp

theorem foundAbsent_of_suspect (hsuccess : p.succeeded = true)
    (hmem : h ∈ (sweepOnce t p).2.suspects) : p.FoundAbsent h := by
  unfold sweepOnce at hmem
  cases hlisting : p.listing with
  | error e =>
      rw [SweepPass.succeeded, hlisting] at hsuccess
      cases hsuccess
  | ok lookups =>
      rw [hlisting] at hmem
      obtain ⟨hleaseless, -⟩ := OrphanTracker.mem_suspects.mp hmem
      exact ⟨lookups, hlisting, mem_leaseless.mp hleaseless⟩

theorem suspect_of_foundAbsent (habsent : p.FoundAbsent h)
    (hfresh : h ∉ t.suspects) : h ∈ (sweepOnce t p).2.suspects := by
  obtain ⟨lookups, hlisting, hlookup⟩ := habsent
  unfold sweepOnce
  rw [hlisting]
  exact OrphanTracker.mem_suspects.mpr ⟨mem_leaseless.mpr hlookup, hfresh⟩

theorem sweepOnce_failed (hfailed : p.succeeded = false) :
    (sweepOnce t p).2 = t := by
  unfold sweepOnce
  cases hlisting : p.listing with
  | error e => rfl
  | ok lookups =>
      rw [SweepPass.succeeded, hlisting] at hfailed
      cases hfailed

end Pass

/-- A suspect was found without a lease on the last pass that succeeded, or was
suspected from the start. -/
theorem suspect_of_sweeps {t : OrphanTracker} {passes : List SweepPass} (hmem : h ∈ (sweeps t passes).suspects) :
    match lastSucceeded passes with
    | some q => q.FoundAbsent h
    | none => h ∈ t.suspects := by
  induction passes using List.reverseRecOn with
  | nil => exact hmem
  | append_singleton passes p ih =>
      rw [sweeps, List.foldl_append] at hmem
      rw [lastSucceeded, List.filter_append]
      cases hsuccess : p.succeeded with
      | false =>
          have hfilter : [p].filter SweepPass.succeeded = [] := by
            simp [hsuccess]
          rw [hfilter, List.append_nil]
          apply ih
          rwa [List.foldl_cons, List.foldl_nil, sweepOnce_failed hsuccess] at hmem
      | true =>
          have hfilter : [p].filter SweepPass.succeeded = [p] := by
            simp [hsuccess]
          rw [hfilter, List.getLast?_concat]
          exact foundAbsent_of_suspect hsuccess hmem

/-! ## Passes over a service -/

/-- A service whose resources are swept. -/
structure Holder (σ : Type*) where
  list : σ → List Held
  reclaim : σ → Held → σ

namespace Holder

variable {σ : Type*} (service : Holder σ)

/-- A reclaim removes the resource it is given.  It goes by the lease of the
resource, so it may remove others that are held by the same lease. -/
structure Lawful : Prop where
  removes : ∀ s h, ∀ x ∈ service.list (service.reclaim s h),
    x ∈ service.list s ∧ x ≠ h
  keeps : ∀ s h, ∀ x ∈ service.list s, x.leaseId ≠ h.leaseId →
    x ∈ service.list (service.reclaim s h)

/-- What a pass is told when the listing succeeds, no lookup errors and nothing
changes meanwhile. -/
def quietPass (leases : String → Option LeaseRecord) (order : SetOrder Held)
    (s : σ) : SweepPass where
  listing := .ok ((service.list s).map fun h => (h, .ok (leases h.leaseId)))
  order := order

/-- A pass of the sweep with the reclaims it makes. -/
def sweep (p : SweepPass) (t : OrphanTracker) (s : σ) : OrphanTracker × σ :=
  match sweepOnce t p with
  | (.ok confirmed, t) => (t, confirmed.foldl service.reclaim s)
  | (.error _, t) => (t, s)

/-- A quiet pass with the reclaims it makes. -/
def sweepQuietly (leases : String → Option LeaseRecord) (order : SetOrder Held)
    (t : OrphanTracker) (s : σ) : OrphanTracker × σ :=
  service.sweep (service.quietPass leases order s) t s

variable {service} {leases : String → Option LeaseRecord}
  {order : SetOrder Held} {t : OrphanTracker} {s : σ}

variable (service leases order t s) in
theorem sweepQuietly_eq :
    ∃ confirmed,
      sweepOnce t (service.quietPass leases order s) =
        (.ok confirmed, (service.sweepQuietly leases order t s).1) ∧
      (service.sweepQuietly leases order t s).2 =
        confirmed.foldl service.reclaim s :=
  ⟨_, rfl, rfl⟩

theorem foundAbsent_quietPass :
    (service.quietPass leases order s).FoundAbsent h ↔
      h ∈ service.list s ∧ leases h.leaseId = none := by
  simp only [SweepPass.FoundAbsent, quietPass, Except.ok.injEq, exists_eq_left',
    List.mem_map, Prod.mk.injEq]
  constructor
  · rintro ⟨h', hmem, rfl, hnone⟩
    exact ⟨hmem, hnone⟩
  · rintro ⟨hmem, hnone⟩
    exact ⟨h, hmem, rfl, hnone⟩

theorem Lawful.of_mem_reclaims (hlaw : service.Lawful) {hs : List Held} (hmem : x ∈ service.list (hs.foldl service.reclaim s)) :
    x ∈ service.list s ∧ x ∉ hs := by
  induction hs generalizing s with
  | nil => exact ⟨hmem, List.not_mem_nil⟩
  | cons h hs ih =>
      obtain ⟨hreclaimed, hnot⟩ := ih hmem
      obtain ⟨hlisted, hne⟩ := hlaw.removes s h x hreclaimed
      exact ⟨hlisted, List.not_mem_cons_of_ne_of_not_mem hne hnot⟩

theorem Lawful.mem_reclaims (hlaw : service.Lawful) {hs : List Held}
    (hmem : x ∈ service.list s) (hne : ∀ h ∈ hs, x.leaseId ≠ h.leaseId) :
    x ∈ service.list (hs.foldl service.reclaim s) := by
  induction hs generalizing s with
  | nil => exact hmem
  | cons h hs ih =>
      rw [List.forall_mem_cons] at hne
      exact ih (hlaw.keeps s h x hmem hne.1) hne.2

/-- A quiet pass keeps every resource whose lease exists. -/
theorem Lawful.keeps_leased (hlaw : service.Lawful)
    (hmem : x ∈ service.list s) (hleased : (leases x.leaseId).isSome) :
    x ∈ service.list (service.sweepQuietly leases order t s).2 := by
  obtain ⟨confirmed, hsweep, hstate⟩ :=
    sweepQuietly_eq service leases order t s
  rw [hstate]
  apply hlaw.mem_reclaims hmem
  intro h hconfirmed heq
  have habsent := ((mem_reclaimed (congrArg Prod.fst hsweep)).mp hconfirmed).1
  have hnone := (foundAbsent_quietPass.mp habsent).2
  rw [heq, hnone] at hleased
  cases hleased

theorem Lawful.suspects_leaseless (hlaw : service.Lawful)
    (hmem : x ∈ service.list (service.sweepQuietly leases order t s).2)
    (hnone : leases x.leaseId = none) :
    x ∈ (service.sweepQuietly leases order t s).1.suspects := by
  obtain ⟨confirmed, hsweep, hstate⟩ :=
    sweepQuietly_eq service leases order t s
  rw [hstate] at hmem
  obtain ⟨hlisted, hnot⟩ := hlaw.of_mem_reclaims hmem
  have habsent : (service.quietPass leases order s).FoundAbsent x :=
    foundAbsent_quietPass.mpr ⟨hlisted, hnone⟩
  have hfresh : x ∉ t.suspects := by
    intro hsuspect
    exact hnot ((mem_reclaimed (congrArg Prod.fst hsweep)).mpr
      ⟨habsent, hsuspect⟩)
  exact suspect_of_foundAbsent habsent hfresh

theorem Lawful.reclaims_suspect (hlaw : service.Lawful)
    (hsuspect : x ∈ t.suspects) (hnone : leases x.leaseId = none) :
    x ∉ service.list (service.sweepQuietly leases order t s).2 := by
  intro hmem
  obtain ⟨confirmed, hsweep, hstate⟩ :=
    sweepQuietly_eq service leases order t s
  rw [hstate] at hmem
  obtain ⟨hlisted, hnot⟩ := hlaw.of_mem_reclaims hmem
  apply hnot
  rw [mem_reclaimed (congrArg Prod.fst hsweep)]
  exact ⟨foundAbsent_quietPass.mpr ⟨hlisted, hnone⟩, hsuspect⟩

end Holder

/-! ## Safety and completeness -/

/-- What is reclaimed was found without a lease on this pass, and on the last
pass before it that succeeded (or was a suspect from the start). -/
theorem foundAbsent_of_reclaimed {t : OrphanTracker} {passes : List SweepPass}
    {p : SweepPass} {confirmed : List Held}
    (hpass : (sweepOnce (sweeps t passes) p).1 = .ok confirmed)
    (hmem : h ∈ confirmed) :
    p.FoundAbsent h ∧
      ((∃ q, lastSucceeded passes = some q ∧ q.FoundAbsent h) ∨
        lastSucceeded passes = none ∧ h ∈ t.suspects) := by
  obtain ⟨habsent, hsuspect⟩ := (mem_reclaimed hpass).mp hmem
  refine ⟨habsent, ?_⟩
  have hbefore := suspect_of_sweeps hsuspect
  cases hlast : lastSucceeded passes with
  | some q =>
      rw [hlast] at hbefore
      exact .inl ⟨q, rfl, hbefore⟩
  | none =>
      rw [hlast] at hbefore
      exact .inr ⟨rfl, hbefore⟩

/-- After two quiet passes every listed resource has a lease. -/
theorem Holder.Lawful.leased_of_mem {σ : Type*} {service : Holder σ}
    (hlaw : service.Lawful) {leases : String → Option LeaseRecord}
    {order₁ order₂ : SetOrder Held} {t₁ t₂ : OrphanTracker} {s₁ s₂ : σ}
    (hfirst : service.sweepQuietly leases order₁ t₁ s₁ = (t₂, s₂))
    (hlisted : h ∈ service.list (service.sweepQuietly leases order₂ t₂ s₂).2) :
    (leases h.leaseId).isSome := by
  by_contra hleaseless
  have hnone : leases h.leaseId = none := by simpa using hleaseless
  have hstays : h ∈ service.list s₂ := by
    obtain ⟨confirmed, -, hstate⟩ := sweepQuietly_eq service leases order₂ t₂ s₂
    rw [hstate] at hlisted
    exact (hlaw.of_mem_reclaims hlisted).1
  have hsuspect : h ∈ t₂.suspects := by
    have hs₂ : s₂ = (service.sweepQuietly leases order₁ t₁ s₁).2 := by
      rw [hfirst]
    rw [hs₂] at hstays
    have hsuspected := hlaw.suspects_leaseless hstays hnone
    rwa [hfirst] at hsuspected
  exact hlaw.reclaims_suspect hsuspect hnone hlisted

/-- The sweep is safe: whatever the passes are told, a resource is reclaimed only
if its lease was found absent on this pass and on the last pass before it whose
listing succeeded.  A tracker that does not start empty stands for a pass that
has found its suspects.

It is complete: two quiet passes, from any tracker and any state of the service,
leave no resource without a lease and take none that has one. -/
theorem orphanSweep_safe_and_complete :
    (∀ (passes : List SweepPass) (p : SweepPass) (confirmed : List Held)
      (h : Held),
      (sweepOnce (sweeps .default passes) p).1 = .ok confirmed →
      h ∈ confirmed →
      p.FoundAbsent h ∧ ∃ q, lastSucceeded passes = some q ∧ q.FoundAbsent h) ∧
    (∀ (t : OrphanTracker) (passes : List SweepPass) (p : SweepPass)
      (confirmed : List Held) (h : Held),
      (sweepOnce (sweeps t passes) p).1 = .ok confirmed → h ∈ confirmed →
      p.FoundAbsent h ∧
        ((∃ q, lastSucceeded passes = some q ∧ q.FoundAbsent h) ∨
          lastSucceeded passes = none ∧ h ∈ t.suspects)) ∧
    (∀ (σ : Type) (service : Holder σ), service.Lawful →
      ∀ (leases : String → Option LeaseRecord) (order₁ order₂ : SetOrder Held)
        (t : OrphanTracker) (s : σ),
      let first := service.sweepQuietly leases order₁ t s
      let second := service.sweepQuietly leases order₂ first.1 first.2
      (∀ h ∈ service.list second.2, (leases h.leaseId).isSome) ∧
      ∀ h ∈ service.list s, (leases h.leaseId).isSome →
        h ∈ service.list second.2) := by
  refine ⟨?_, ?_, ?_⟩
  · intro passes p confirmed h hpass hmem
    obtain ⟨habsent, hbefore | ⟨-, hstart⟩⟩ :=
      foundAbsent_of_reclaimed hpass hmem
    · exact ⟨habsent, hbefore⟩
    · exact absurd hstart List.not_mem_nil
  · intro t passes p confirmed h hpass hmem
    exact foundAbsent_of_reclaimed hpass hmem
  · intro σ service hlaw leases order₁ order₂ t s first second
    constructor
    · intro h hlisted
      exact hlaw.leased_of_mem rfl hlisted
    · intro h hlisted hleased
      exact hlaw.keeps_leased (hlaw.keeps_leased hlisted hleased) hleased

/-- A service that holds a list of resources. -/
def heldList : Holder (List Held) where
  list s := s
  reclaim s h := s.filter fun x => x ≠ h

theorem heldList_lawful : heldList.Lawful where
  removes s h x hmem := by simpa [heldList] using hmem
  keeps s h x hmem hne := by
    have hx : x ≠ h := fun heq => hne (congrArg Held.leaseId heq)
    simpa [heldList, hx] using hmem

/-- Two resources, one of which has lost its lease. -/
def liveAndGone : List Held :=
  [⟨"lease-live", "live", "entry"⟩, ⟨"lease-gone", "gone", "entry"⟩]

def liveLease (leaseId : String) : Option LeaseRecord :=
  if leaseId = "lease-live" then
    some ⟨"lease-live", "live", 0, 60, 60⟩
  else
    none

def goneFound : SweepPass :=
  heldList.quietPass liveLease (.asKept Held) liveAndGone

theorem orphanSweep_safe_and_complete_gone :
    let gone : Held := ⟨"lease-gone", "gone", "entry"⟩
    let first :=
      heldList.sweepQuietly liveLease (.asKept Held) .default liveAndGone
    let second :=
      heldList.sweepQuietly liveLease (.asKept Held) first.1 first.2
    (sweepOnce (sweeps .default [goneFound]) goneFound).1 = .ok [gone] ∧
      (goneFound.FoundAbsent gone ∧
        ∃ q, lastSucceeded [goneFound] = some q ∧ q.FoundAbsent gone) ∧
      first.2 = liveAndGone ∧
      second.2 = [⟨"lease-live", "live", "entry"⟩] ∧
      ∀ h ∈ second.2, (liveLease h.leaseId).isSome :=
  ⟨rfl,
    orphanSweep_safe_and_complete.1 [goneFound] goneFound _ _ rfl
      (List.mem_singleton_self _),
    rfl, rfl,
    (orphanSweep_safe_and_complete.2.2 (List Held) heldList heldList_lawful
      liveLease (.asKept Held) (.asKept Held) .default liveAndGone).1⟩

end Coordin8
