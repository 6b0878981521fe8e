import Coordin8.Core.Records
import Coordin8.Support.Transition

/-!
# The in-memory registry store

`InMemoryRegistryStore` of the local provider: the entries under their
capability ids, and an index from lease ids to capability ids.  Each trait
operation is a function from the store to its result and the store after it;
none of them fails.
-/

namespace Coordin8

open Support

/-- An order in which a scan visits the entries. -/
abbrev RegistryIteration := Iteration String RegistryEntry

/-- A call of the `RegistryStore` trait. -/
inductive RegistryOp where
  | insert (entry : RegistryEntry)
  | update (entry : RegistryEntry)
  | removeByLease (leaseId : String)
  | get (capabilityId : String)
  | getByLease (leaseId : String)
  | listAll (it : RegistryIteration)

structure InMemoryRegistryStore where
  entries : DashMap String RegistryEntry
  leaseIndex : DashMap String String
deriving DecidableEq

namespace InMemoryRegistryStore

def new : InMemoryRegistryStore where
  entries := ∅
  leaseIndex := ∅

def insert (s : InMemoryRegistryStore) (entry : RegistryEntry) :
    InMemoryRegistryStore where
  leaseIndex := s.leaseIndex.insert entry.leaseId entry.capabilityId
  entries := s.entries.insert entry.capabilityId entry

/-- Update an entry in place, if its capability is known. -/
def update (s : InMemoryRegistryStore) (entry : RegistryEntry) :
    Option RegistryEntry × InMemoryRegistryStore :=
  if s.entries.contains entry.capabilityId then
    let index := s.leaseIndex.filter fun _ capId => capId ≠ entry.capabilityId
    (some entry,
      { leaseIndex := index.insert entry.leaseId entry.capabilityId
        entries := s.entries.insert entry.capabilityId entry })
  else
    (none, s)

def removeByLease (s : InMemoryRegistryStore) (leaseId : String) :
    Option RegistryEntry × InMemoryRegistryStore :=
  match s.leaseIndex[leaseId]? with
  | some capabilityId =>
      (s.entries[capabilityId]?,
        { leaseIndex := s.leaseIndex.erase leaseId
          entries := s.entries.erase capabilityId })
  | none => (none, s)

def get (s : InMemoryRegistryStore) (capabilityId : String) :
    Option RegistryEntry :=
  s.entries[capabilityId]?

def getByLease (s : InMemoryRegistryStore) (leaseId : String) :
    Option RegistryEntry :=
  match s.leaseIndex[leaseId]? with
  | some capabilityId => s.get capabilityId
  | none => none

def listAll (s : InMemoryRegistryStore) (it : RegistryIteration) :
    List RegistryEntry :=
  (it.entries s.entries).map Prod.snd

/-! ## What the operations do to the entries -/

variable {s : InMemoryRegistryStore}

/-- Every entry is filed under its own capability id. -/
def Keyed (s : InMemoryRegistryStore) : Prop :=
  ∀ (k : String) (e : RegistryEntry), s.entries[k]? = some e →
    e.capabilityId = k

theorem keyed_new : new.Keyed := by
  intro k e h
  simp [new] at h

theorem Keyed.insert (hkeyed : s.Keyed) (entry : RegistryEntry) :
    (s.insert entry).Keyed := by
  intro k e h
  rw [InMemoryRegistryStore.insert, DashMap.get_insert] at h
  split at h
  · next heq =>
    obtain rfl := Option.some.inj h
    exact heq
  · exact hkeyed k e h

theorem entries_update {entry old : RegistryEntry}
    (hget : s.get entry.capabilityId = some old) :
    (s.update entry).2.entries = s.entries.insert entry.capabilityId entry := by
  have hcontains : s.entries.contains entry.capabilityId = true := by
    rw [Std.ExtTreeMap.contains_eq_isSome_getElem?]
    exact Option.isSome_of_eq_some hget
  simp [update, hcontains]

theorem Keyed.update (hkeyed : s.Keyed) (entry : RegistryEntry) :
    (s.update entry).2.Keyed := by
  unfold InMemoryRegistryStore.update
  split
  · exact hkeyed.insert entry
  · exact hkeyed

theorem entries_removeByLease (leaseId : String) :
    (∃ k e, s.entries[k]? = some e ∧ (s.removeByLease leaseId).1 = some e ∧
      (s.removeByLease leaseId).2.entries = s.entries.erase k) ∨
    (s.removeByLease leaseId).1 = none ∧
      (s.removeByLease leaseId).2.entries = s.entries := by
  unfold removeByLease
  cases hindex : s.leaseIndex[leaseId]? with
  | none => exact .inr ⟨rfl, rfl⟩
  | some k =>
      cases hentry : s.entries[k]? with
      | none => exact .inr ⟨hentry, DashMap.erase_of_get_none hentry⟩
      | some e => exact .inl ⟨k, e, hentry, hentry, rfl⟩

theorem Keyed.removeByLease (hkeyed : s.Keyed) (leaseId : String) :
    (s.removeByLease leaseId).2.Keyed := by
  intro k e h
  rcases entries_removeByLease (s := s) leaseId with
    ⟨k', e', -, -, hentries⟩ | ⟨-, hentries⟩
  · rw [hentries, DashMap.get_erase] at h
    split at h
    · cases h
    · exact hkeyed k e h
  · rw [hentries] at h
    exact hkeyed k e h

/-! ## The index of leases -/

/-- The index finds under a lease the capability of the entry that has it. -/
def Indexed (s : InMemoryRegistryStore) : Prop :=
  ∀ (l c : String), s.leaseIndex[l]? = some c ↔
    ∃ e, s.entries[c]? = some e ∧ e.leaseId = l

/-- No other entry has the lease of `entry`, and its capability has no other
lease. -/
structure Matched (s : InMemoryRegistryStore) (entry : RegistryEntry) :
    Prop where
  capability : ∀ e, s.entries[entry.capabilityId]? = some e →
    e.leaseId = entry.leaseId
  lease : ∀ (c : String) (e : RegistryEntry), s.entries[c]? = some e →
    e.leaseId = entry.leaseId → c = entry.capabilityId

theorem indexed_new : new.Indexed := by
  intro l c
  simp [new]

/-- What is written under a lease and its capability is indexed, when the other
rows are those of the other capabilities and no other entry has the lease. -/
theorem Indexed.write {s' : InMemoryRegistryStore} {entry : RegistryEntry}
    (h : s.Indexed)
    (hlease : ∀ (c : String) (e : RegistryEntry), s.entries[c]? = some e →
      e.leaseId = entry.leaseId → c = entry.capabilityId)
    (hrow : s'.leaseIndex[entry.leaseId]? = some entry.capabilityId)
    (hrows : ∀ l c, l ≠ entry.leaseId → (s'.leaseIndex[l]? = some c ↔
      s.leaseIndex[l]? = some c ∧ c ≠ entry.capabilityId))
    (hentries : s'.entries = s.entries.insert entry.capabilityId entry) :
    s'.Indexed := by
  intro l c
  rw [hentries, DashMap.get_insert]
  by_cases hl : l = entry.leaseId
  · subst hl
    rw [hrow]
    constructor
    · rintro hc
      obtain rfl := Option.some.inj hc
      exact ⟨entry, if_pos rfl, rfl⟩
    · rintro ⟨e, he, heq⟩
      split at he
      · next heq => rw [heq]
      · rw [hlease c e he heq]
  · rw [hrows l c hl, h l c]
    constructor
    · rintro ⟨⟨e, he, rfl⟩, hne⟩
      rw [if_neg (Ne.symm hne)]
      exact ⟨e, he, rfl⟩
    · rintro ⟨e, he, rfl⟩
      split at he
      · obtain rfl := Option.some.inj he
        exact absurd rfl hl
      · next hne => exact ⟨⟨e, he, rfl⟩, Ne.symm hne⟩

theorem Indexed.insert {entry : RegistryEntry} (h : s.Indexed)
    (hmatched : s.Matched entry) : (s.insert entry).Indexed := by
  refine h.write hmatched.lease ?_ (fun l c hl => ?_) rfl
  · simp [InMemoryRegistryStore.insert]
  · simp only [InMemoryRegistryStore.insert, DashMap.get_insert,
      if_neg (Ne.symm hl), iff_self_and]
    -- a row of this capability would be the one of the lease of `entry`
    rintro hrow rfl
    obtain ⟨e, he, rfl⟩ := (h l _).mp hrow
    exact hl (hmatched.capability e he)

/-- An update drops the row of the old lease, whichever that was. -/
theorem Indexed.update {entry : RegistryEntry} (h : s.Indexed)
    (hlease : ∀ (c : String) (e : RegistryEntry), s.entries[c]? = some e →
      e.leaseId = entry.leaseId → c = entry.capabilityId) :
    (s.update entry).2.Indexed := by
  unfold InMemoryRegistryStore.update
  split
  · refine h.write hlease ?_ (fun l c hl => ?_) rfl
    · simp
    · rw [DashMap.get_insert, if_neg (Ne.symm hl),
        Std.ExtTreeMap.getElem?_filter', Option.filter_eq_some_iff,
        decide_eq_true_eq]
  · exact h

theorem Indexed.removeByLease (h : s.Indexed) (leaseId : String) :
    (s.removeByLease leaseId).2.Indexed := by
  unfold InMemoryRegistryStore.removeByLease
  cases hrow : s.leaseIndex[leaseId]? with
  | none => exact h
  | some cap =>
      obtain ⟨old, hold, rfl⟩ := (h leaseId cap).mp hrow
      intro l c
      simp only [DashMap.get_erase]
      by_cases hl : old.leaseId = l
      · subst hl
        rw [if_pos rfl]
        constructor
        · nofun
        · rintro ⟨e, he, hlease⟩
          split at he
          · cases he
          · next hne =>
            have hrow' := (h old.leaseId c).mpr ⟨e, he, hlease⟩
            exact absurd (Option.some.inj (hrow.symm.trans hrow')) hne
      · rw [if_neg hl, h l c]
        constructor
        · rintro ⟨e, he, rfl⟩
          rw [if_neg]
          · exact ⟨e, he, rfl⟩
          · rintro rfl
            obtain rfl := Option.some.inj (hold.symm.trans he)
            exact hl rfl
        · rintro ⟨e, he, rfl⟩
          split at he
          · cases he
          · exact ⟨e, he, rfl⟩

theorem Indexed.leaseId_of_removed (h : s.Indexed) {leaseId : String}
    {e : RegistryEntry} (hremoved : (s.removeByLease leaseId).1 = some e) :
    e.leaseId = leaseId := by
  unfold InMemoryRegistryStore.removeByLease at hremoved
  split at hremoved
  · next c hrow =>
    obtain ⟨e', he', rfl⟩ := (h leaseId c).mp hrow
    obtain rfl := Option.some.inj (he'.symm.trans hremoved)
    rfl
  · cases hremoved

theorem Indexed.get_removeByLease (h : s.Indexed) {leaseId c : String}
    {e : RegistryEntry} (hget : s.entries[c]? = some e)
    (hne : e.leaseId ≠ leaseId) :
    (s.removeByLease leaseId).2.entries[c]? = some e := by
  unfold InMemoryRegistryStore.removeByLease
  split
  · next c' hrow =>
    obtain ⟨e', he', rfl⟩ := (h leaseId c').mp hrow
    rw [DashMap.get_erase, if_neg]
    · exact hget
    · rintro rfl
      obtain rfl := Option.some.inj (he'.symm.trans hget)
      exact hne rfl
  · exact hget

/-- The entry with a lease is found under it, and a removal takes it out and
leaves everything else. -/
theorem Indexed.of_get (h : s.Indexed) {c : String} {e : RegistryEntry}
    (hget : s.entries[c]? = some e) :
    s.getByLease e.leaseId = some e ∧
      s.removeByLease e.leaseId = (some e,
        { entries := s.entries.erase c
          leaseIndex := s.leaseIndex.erase e.leaseId }) := by
  have hrow : s.leaseIndex[e.leaseId]? = some c := (h _ _).mpr ⟨e, hget, rfl⟩
  constructor
  · simp only [getByLease, hrow, get, hget]
  · simp only [InMemoryRegistryStore.removeByLease, hrow, hget]

theorem update_of_absent {entry : RegistryEntry}
    (habsent : s.get entry.capabilityId = none) :
    s.update entry = (none, s) := by
  have hcontains : s.entries.contains entry.capabilityId = false := by
    rw [Std.ExtTreeMap.contains_eq_isSome_getElem?]
    exact Option.isSome_eq_false_iff.mpr (Option.isNone_iff_eq_none.mpr habsent)
  simp [update, hcontains]

/-! ## Sequences of calls -/

/-- The store after a call of the trait. -/
def exec (s : InMemoryRegistryStore) : RegistryOp → InMemoryRegistryStore
  | .insert entry => s.insert entry
  | .update entry => (s.update entry).2
  | .removeByLease leaseId => (s.removeByLease leaseId).2
  | .get _ | .getByLease _ | .listAll _ => s

/-- No entry has the lease. -/
def Unused (s : InMemoryRegistryStore) (leaseId : String) : Prop :=
  ∀ (c : String) (e : RegistryEntry), s.entries[c]? = some e →
    e.leaseId ≠ leaseId

/-- An insert is of a new capability with a new lease, and an update of a known
capability keeps its lease or has a new one. -/
def Allows (s : InMemoryRegistryStore) : RegistryOp → Prop
  | .insert entry =>
      s.get entry.capabilityId = none ∧ s.Unused entry.leaseId
  | .update entry => ∀ old, s.get entry.capabilityId = some old →
      entry.leaseId = old.leaseId ∨ s.Unused entry.leaseId
  | _ => True

/-- `s` is the store after the calls `ops` on a new one. -/
def After (ops : List RegistryOp) (s : InMemoryRegistryStore) : Prop :=
  run (fun s op => some (exec s op)) new ops = some s ∧
    StepsMeet (fun s op => some (exec s op)) Allows new ops

theorem Indexed.exec (h : s.Indexed) {op : RegistryOp} (hallows : s.Allows op) :
    (s.exec op).Indexed := by
  cases op with
  | insert entry =>
      obtain ⟨habsent, hunused⟩ := hallows
      refine h.insert ⟨fun e he => ?_, fun c e he heq => ?_⟩
      · exact absurd (habsent.symm.trans he) (by simp)
      · exact absurd heq (hunused c e he)
  | update entry =>
      cases hget : s.get entry.capabilityId with
      | none =>
          rw [InMemoryRegistryStore.exec, update_of_absent hget]
          exact h
      | some old =>
          refine h.update fun c e he heq => ?_
          rcases hallows old hget with hsame | hunused
          · -- both capabilities are in the row of this lease
            have hrow := (h e.leaseId c).mpr ⟨e, he, rfl⟩
            have hrow' := (h e.leaseId entry.capabilityId).mpr
              ⟨old, hget, hsame.symm.trans heq.symm⟩
            exact Option.some.inj (hrow.symm.trans hrow')
          · exact absurd heq (hunused c e he)
  | removeByLease leaseId => exact h.removeByLease leaseId
  | get _ | getByLease _ | listAll _ => exact h

theorem Keyed.exec (h : s.Keyed) (op : RegistryOp) : (s.exec op).Keyed := by
  cases op with
  | insert entry => exact h.insert entry
  | update entry => exact h.update entry
  | removeByLease leaseId => exact h.removeByLease leaseId
  | get _ | getByLease _ | listAll _ => exact h

theorem After.indexed {ops : List RegistryOp} (h : After ops s) :
    s.Keyed ∧ s.Indexed := by
  refine run_invariant_of_stepsMeet
    (P := fun s : InMemoryRegistryStore => s.Keyed ∧ s.Indexed)
    ⟨keyed_new, indexed_new⟩ ?_ h.1 h.2
  rintro s op s' - ⟨hkeyed, hindexed⟩ hallows hstep
  obtain rfl := Option.some.inj hstep
  exact ⟨hkeyed.exec op, hindexed.exec hallows⟩

/-- After any calls the index and the entries agree, so every listed entry is
found and removed by its lease, and nothing else is. -/
theorem lease_index_agrees {ops : List RegistryOp} (h : After ops s) :
    (∀ l c : String, s.leaseIndex[l]? = some c ↔
      ∃ e, s.entries[c]? = some e ∧ e.leaseId = l) ∧
    (∀ it, ∀ e ∈ s.listAll it, s.getByLease e.leaseId = some e ∧
      s.get e.capabilityId = some e ∧
      s.removeByLease e.leaseId = (some e,
        { entries := s.entries.erase e.capabilityId
          leaseIndex := s.leaseIndex.erase e.leaseId })) ∧
    ∀ entry, s.get entry.capabilityId = none → s.update entry = (none, s) := by
  obtain ⟨hkeyed, hindexed⟩ := h.indexed
  refine ⟨hindexed, fun it e he => ?_, fun entry => update_of_absent⟩
  obtain ⟨⟨c, e'⟩, hmem, rfl⟩ := List.mem_map.mp he
  have hget : s.entries[c]? = some e' := it.mem_entries.mp hmem
  obtain rfl := hkeyed c e' hget
  obtain ⟨hfound, hremoved⟩ := hindexed.of_get hget
  exact ⟨hfound, hget, hremoved⟩

def printer (leaseId : String) : RegistryEntry where
  capabilityId := "cap-1"
  leaseId := leaseId
  interface := "Printer"
  attrs := ∅
  transport := none

theorem after_printer :
    After [.insert (printer "lease-1"), .update (printer "lease-2")]
      ((new.insert (printer "lease-1")).update (printer "lease-2")).2 := by
  refine ⟨rfl, .cons ⟨rfl, ?_⟩ rfl (.cons ?_ rfl trivial)⟩
  · intro c e he
    simp [new] at he
  · intro old hold
    refine .inr fun c e he => ?_
    rw [exec, insert, DashMap.get_insert] at he
    split at he
    · obtain rfl := Option.some.inj he
      decide
    · simp [new] at he

theorem lease_index_agrees_printer :
    let s := ((new.insert (printer "lease-1")).update (printer "lease-2")).2
    After [.insert (printer "lease-1"), .update (printer "lease-2")] s ∧
      s.getByLease "lease-2" = some (printer "lease-2") :=
  ⟨after_printer, ((lease_index_agrees after_printer).2.1 .sorted
    (printer "lease-2") (by decide +kernel)).1⟩

end InMemoryRegistryStore

end Coordin8
