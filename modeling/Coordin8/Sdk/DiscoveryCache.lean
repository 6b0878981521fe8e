import Coordin8.Sdk.Discovery

/-!
# What the Go SDK's cache holds

The comment in `Get` says that an entry is only ever replaced because its proxy
lease was lost.  In the runs where that is so, a connection that was handed out
is torn down only after its lease is gone, and no proxy is left behind.  Two
calls that miss together break it: the second finds the entry of the first,
which is in use.
-/

namespace Coordin8.Go

open Support Support.DashMap

/-! ## What the cache stands for -/

/-- The handle has been put into the cache. -/
def ProxyHandle.Installed (h : ProxyHandle) : Prop :=
  h.watch ≠ .idle

/-- An entry of the cache is that of a proxy in use; a proxy that was in the
cache has been torn down only after its lease was lost, and the others are still
there. -/
structure Tidy (sd : ServiceDiscovery) : Prop where
  cached : ∀ key entry, sd.cache[key]? = some entry →
    ∃ h, sd.handles[entry.handle]? = some h ∧ keyOf h.tmpl = key ∧
      h.Installed ∧ h.stopped = false ∧ h.connClosed = false ∧
      (entry.stale = true → h.lost = true)
  reported : ∀ (i : Nat) h, sd.handles[i]? = some h → h.lost = true →
    h.lapsed = true ∨ h.stopped = true
  ended : ∀ (i : Nat) h, sd.handles[i]? = some h → h.Installed →
    h.stopped = true ∨ h.connClosed = true → h.lapsed = true
  kept : ∀ (i : Nat) h, sd.handles[i]? = some h → h.Installed →
    h.stopped = false →
    ∃ entry, sd.cache[keyOf h.tmpl]? = some entry ∧ entry.handle = i

/-- The call holds a proxy that it has not put into the cache yet. -/
def Holds (sd : ServiceDiscovery) (task : Nat) (key : List UInt8) (i : Nat) :
    Prop :=
  ∃ h, sd.handles[i]? = some h ∧ h.opener = task ∧ keyOf h.tmpl = key ∧
    h.watch = .idle ∧ h.stopped = false ∧ h.connClosed = false

/-- What is known of a call where it stands. -/
def GetPc.Known (sd : ServiceDiscovery) (task : Nat) : GetPc → Prop
  | .openProxy key tmpl => keyOf tmpl = key
  | .dial key i | .replace key i => Holds sd task key i
  | .returned (.ok i) => ∃ h, sd.handles[i]? = some h ∧ h.Installed
  | _ => True

namespace ServiceDiscovery

variable {sd : ServiceDiscovery} {i j : Nat} {h h' : ProxyHandle}
  {key : List UInt8}

/-- The handles after the second critical section: the new one is watched, the
one it replaces is torn down. -/
theorem get_install (hne : ∀ old, sd.cache[key]? = some old → old.handle ≠ i) :
    (sd.install key i).handles[j]? = some h' ↔
      ∃ h, sd.handles[j]? = some h ∧
        h' = if i = j then { h with watch := .running key }
          else if ∃ old, sd.cache[key]? = some old ∧ old.handle = j then
            { h with connClosed := true, stopped := true }
          else h := by
  unfold install
  rw [get_update]
  unfold tearDown
  cases hcache : sd.cache[key]? with
  | none => simp
  | some old =>
      have hold := hne old hcache
      simp only [get_update, Option.some.injEq, exists_eq_left']
      constructor
      · rintro ⟨h, ⟨h₀, hh₀, rfl⟩, rfl⟩
        refine ⟨h₀, hh₀, ?_⟩
        split
        · next hij => rw [if_neg (hij ▸ hold)]
        · rfl
      · rintro ⟨h₀, hh₀, rfl⟩
        refine ⟨_, ⟨h₀, hh₀, rfl⟩, ?_⟩
        split
        · next hij => rw [if_neg (hij ▸ hold)]
        · rfl

end ServiceDiscovery

/-! ## Steps -/

variable {h' h : ProxyHandle} {i : Nat}

section Steps

open ServiceDiscovery

variable {sd : ServiceDiscovery} {i j task : Nat} {h : ProxyHandle}
  {key : List UInt8} {pc : GetPc}

/-- An update that only records what becomes of the lease. -/
structure Mild (h h' : ProxyHandle) : Prop where
  tmpl : h'.tmpl = h.tmpl
  opener : h'.opener = h.opener
  stopped : h'.stopped = h.stopped
  connClosed : h'.connClosed = h.connClosed
  watch : h'.watch = .idle ↔ h.watch = .idle
  lapsed : h.lapsed = true → h'.lapsed = true
  lost : h.lost = true → h'.lost = true
  reported : h'.lost = true → h'.lapsed = true ∨ h'.stopped = true

theorem Mild.refl (hreported : h.lost = true → h.lapsed = true ∨ h.stopped = true) :
    Mild h h :=
  ⟨rfl, rfl, rfl, rfl, Iff.rfl, id, id, hreported⟩

theorem Tidy.mild_update {f : ProxyHandle → ProxyHandle} (hsd : Tidy sd)
    (hi : sd.handles[i]? = some h) (hf : Mild h (f h))
    (hj : (sd.update i f).handles[j]? = some h') :
    ∃ h₀, sd.handles[j]? = some h₀ ∧ Mild h₀ h' := by
  obtain ⟨h₀, hh₀, rfl⟩ := get_update.mp hj
  refine ⟨h₀, hh₀, ?_⟩
  split
  · next hij =>
    subst hij
    obtain rfl := Option.some.inj (hi.symm.trans hh₀)
    exact hf
  · exact .refl (hsd.reported j h₀ hh₀)

theorem mild_update_get {f : ProxyHandle → ProxyHandle} (hsd : Tidy sd)
    (hi : sd.handles[i]? = some h) (hf : Mild h (f h)) {h₀ : ProxyHandle}
    (hj : sd.handles[j]? = some h₀) :
    ∃ h', (sd.update i f).handles[j]? = some h' ∧ Mild h₀ h' := by
  have hget : (sd.update i f).handles[j]? = some (if i = j then f h₀ else h₀) :=
    get_update.mpr ⟨h₀, hj, rfl⟩
  obtain ⟨h₁, hh₁, hmild⟩ := hsd.mild_update hi hf hget
  obtain rfl := Option.some.inj (hj.symm.trans hh₁)
  exact ⟨_, hget, hmild⟩

theorem Tidy.update {f : ProxyHandle → ProxyHandle} (hsd : Tidy sd)
    (hi : sd.handles[i]? = some h) (hf : Mild h (f h)) :
    Tidy (sd.update i f) where
  cached := by
    intro key entry hentry
    obtain ⟨h₀, hh₀, hkey, hinst, hstop, hconn, hstale⟩ :=
      hsd.cached key entry hentry
    obtain ⟨h', hh', hmild⟩ := mild_update_get hsd hi hf hh₀
    exact ⟨h', hh', hmild.tmpl ▸ hkey, mt hmild.watch.mp hinst,
      hmild.stopped ▸ hstop, hmild.connClosed ▸ hconn,
      fun hs => hmild.lost (hstale hs)⟩
  reported := by
    intro j h' hh'
    obtain ⟨_, _, hmild⟩ := hsd.mild_update hi hf hh'
    exact hmild.reported
  ended := by
    intro j h' hh' hinst hend
    obtain ⟨h₀, hh₀, hmild⟩ := hsd.mild_update hi hf hh'
    rw [hmild.stopped, hmild.connClosed] at hend
    exact hmild.lapsed (hsd.ended j h₀ hh₀ (mt hmild.watch.mpr hinst) hend)
  kept := by
    intro j h' hh' hinst hstop
    obtain ⟨h₀, hh₀, hmild⟩ := hsd.mild_update hi hf hh'
    rw [hmild.tmpl]
    exact hsd.kept j h₀ hh₀ (mt hmild.watch.mpr hinst) (hmild.stopped ▸ hstop)

theorem GetPc.Known.update {f : ProxyHandle → ProxyHandle} (hsd : Tidy sd)
    (hi : sd.handles[i]? = some h) (hf : Mild h (f h))
    (hpc : pc.Known sd task) : pc.Known (sd.update i f) task := by
  cases pc with
  | openProxy => exact hpc
  | dial key k | replace key k =>
      obtain ⟨h₀, hh₀, hopener, hkey, hidle, hstop, hconn⟩ := hpc
      obtain ⟨h', hh', hmild⟩ := mild_update_get hsd hi hf hh₀
      exact ⟨h', hh', hmild.opener ▸ hopener, hmild.tmpl ▸ hkey,
        hmild.watch.mpr hidle, hmild.stopped ▸ hstop, hmild.connClosed ▸ hconn⟩
  | returned result =>
      cases result with
      | error => trivial
      | ok k =>
          obtain ⟨h₀, hh₀, hinst⟩ := hpc
          obtain ⟨h', hh', hmild⟩ := mild_update_get hsd hi hf hh₀
          exact ⟨h', hh', mt hmild.watch.mp hinst⟩
  | check => trivial

theorem get_opened {tmpl : SdkTemplate UInt8}
    (hj : (sd.handles ++ [.opened tmpl task])[j]? = some h) :
    sd.handles[j]? = some h ∨ h = .opened tmpl task := by
  rw [List.getElem?_append] at hj
  split at hj
  · exact Or.inl hj
  · exact Or.inr (List.mem_singleton.mp (List.mem_of_getElem? hj))

theorem get_opened_of_get {tmpl : SdkTemplate UInt8}
    (hj : sd.handles[j]? = some h) :
    (sd.handles ++ [.opened tmpl task])[j]? = some h :=
  (List.getElem?_append_left (List.getElem?_eq_some_iff.mp hj).1).trans hj

theorem Tidy.opened (hsd : Tidy sd) (tmpl : SdkTemplate UInt8) (task : Nat) :
    Tidy { sd with handles := sd.handles ++ [.opened tmpl task] } := by
  refine ⟨fun key entry hentry => ?_, fun j h hj => ?_, fun j h hj hinst => ?_,
    fun j h hj hinst => ?_⟩
  · obtain ⟨h, hh, hrest⟩ := hsd.cached key entry hentry
    exact ⟨h, get_opened_of_get hh, hrest⟩
  · rcases get_opened hj with hj | rfl
    · exact hsd.reported j h hj
    · exact nofun
  · rcases get_opened hj with hj | rfl
    · exact hsd.ended j h hj hinst
    · exact absurd rfl hinst
  · rcases get_opened hj with hj | rfl
    · exact hsd.kept j h hj hinst
    · exact absurd rfl hinst

theorem GetPc.Known.opened (hpc : pc.Known sd j) (tmpl : SdkTemplate UInt8)
    (task : Nat) :
    pc.Known { sd with handles := sd.handles ++ [.opened tmpl task] } j := by
  cases pc with
  | check => trivial
  | openProxy => exact hpc
  | dial key k | replace key k =>
      obtain ⟨h, hh, hrest⟩ := hpc
      exact ⟨h, get_opened_of_get hh, hrest⟩
  | returned result =>
      cases result with
      | error => trivial
      | ok k =>
          obtain ⟨h, hh, hinst⟩ := hpc
          exact ⟨h, get_opened_of_get hh, hinst⟩

theorem Tidy.release (hsd : Tidy sd) (hi : sd.handles[i]? = some h)
    (hidle : h.watch = .idle) : Tidy (sd.release i) := by
  have hkeep : ∀ (j : Nat) h', (sd.release i).handles[j]? = some h' →
      h'.Installed → i ≠ j ∧ sd.handles[j]? = some h' := by
    intro j h' hj hinst
    obtain ⟨h₀, hh₀, rfl⟩ := get_update.mp hj
    by_cases hij : i = j
    · subst hij
      obtain rfl := Option.some.inj (hi.symm.trans hh₀)
      rw [if_pos rfl] at hinst
      exact absurd hidle hinst
    · exact ⟨hij, by rwa [if_neg hij]⟩
  refine ⟨fun key entry hentry => ?_, fun j h' hj hlost => ?_,
    fun j h' hj hinst => ?_, fun j h' hj hinst => ?_⟩
  · obtain ⟨h₀, hh₀, hkey, hinst, hrest⟩ := hsd.cached key entry hentry
    refine ⟨h₀, get_update.mpr ⟨h₀, hh₀, ?_⟩, hkey, hinst, hrest⟩
    rw [if_neg]
    rintro rfl
    obtain rfl := Option.some.inj (hi.symm.trans hh₀)
    exact hinst hidle
  · obtain ⟨h₀, hh₀, rfl⟩ := get_update.mp hj
    by_cases hij : i = j
    · exact Or.inr (by rw [if_pos hij])
    · rw [if_neg hij] at hlost ⊢
      exact hsd.reported j h₀ hh₀ hlost
  · exact hsd.ended j h' (hkeep j h' hj hinst).2 hinst
  · exact hsd.kept j h' (hkeep j h' hj hinst).2 hinst

theorem Tidy.lapsed_of_dead (hsd : Tidy sd) {old : CachedConn}
    (hold : sd.cache[key]? = some old) (hdead : sd.live old = false)
    (hh : sd.handles[old.handle]? = some h) : h.lapsed = true := by
  obtain ⟨h₀, hh₀, -, -, hstop, -, hstale⟩ := hsd.cached key old hold
  obtain rfl := Option.some.inj (hh.symm.trans hh₀)
  have hlost : h.lost = true := by
    simp only [live, handleLost, hh, Option.any_some, Bool.and_eq_false_iff,
      Bool.not_eq_false'] at hdead
    exact hdead.elim hstale id
  exact (hsd.reported _ h hh hlost).resolve_right (by simp [hstop])

theorem Tidy.ne_of_holds (hsd : Tidy sd) (hholds : Holds sd task key i)
    {key' : List UInt8} {old : CachedConn}
    (hold : sd.cache[key']? = some old) : old.handle ≠ i := by
  rintro rfl
  obtain ⟨h, hh, -, -, hidle, -⟩ := hholds
  obtain ⟨h₀, hh₀, -, hinst, -⟩ := hsd.cached key' old hold
  obtain rfl := Option.some.inj (hh.symm.trans hh₀)
  exact hinst hidle

/-- A handle after the second critical section: the new one, the one it replaces,
or another. -/
theorem install_cases (hne : ∀ old, sd.cache[key]? = some old → old.handle ≠ i) (hj : (sd.install key i).handles[j]? = some h') :
    (∃ h, sd.handles[j]? = some h ∧ i = j ∧
      h' = { h with watch := .running key }) ∨
    (∃ h old, sd.handles[j]? = some h ∧ sd.cache[key]? = some old ∧
      old.handle = j ∧ h' = { h with connClosed := true, stopped := true }) ∨
    (sd.handles[j]? = some h' ∧ i ≠ j ∧
      ∀ old, sd.cache[key]? = some old → old.handle ≠ j) := by
  obtain ⟨h, hh, rfl⟩ := (get_install hne).mp hj
  by_cases hij : i = j
  · exact Or.inl ⟨h, hh, hij, if_pos hij⟩
  · by_cases hold : ∃ old, sd.cache[key]? = some old ∧ old.handle = j
    · obtain ⟨old, hcache, hhandle⟩ := hold
      refine Or.inr (Or.inl ⟨h, old, hh, hcache, hhandle, ?_⟩)
      rw [if_neg hij, if_pos ⟨old, hcache, hhandle⟩]
    · refine Or.inr (Or.inr ⟨?_, hij, fun old hcache hhandle => ?_⟩)
      · rw [if_neg hij, if_neg hold, hh]
      · exact hold ⟨old, hcache, hhandle⟩

theorem Tidy.install (hsd : Tidy sd) (hholds : Holds sd task key i)
    (hdead : ∀ old, sd.cache[key]? = some old → sd.live old = false) :
    Tidy (sd.install key i) := by
  have hne : ∀ old, sd.cache[key]? = some old → old.handle ≠ i :=
    fun old => hsd.ne_of_holds hholds
  obtain ⟨hᵢ, hhᵢ, -, hkeyᵢ, -, hstopᵢ, hconnᵢ⟩ := hholds
  refine ⟨fun key' entry hentry => ?_, fun j h' hj hlost => ?_,
    fun j h' hj hinst hend => ?_, fun j h' hj hinst hstop => ?_⟩
  · rw [cache_install, get_insert] at hentry
    split at hentry
    · next heq =>
      obtain rfl := Option.some.inj hentry
      refine ⟨_, (get_install hne).mpr ⟨hᵢ, hhᵢ, rfl⟩, ?_⟩
      rw [if_pos rfl]
      exact ⟨hkeyᵢ.trans heq, by simp [ProxyHandle.Installed], hstopᵢ, hconnᵢ,
        nofun⟩
    · next hkey =>
      -- another template's entry: neither the new handle nor the replaced one
      obtain ⟨h, hh, hkey', hrest⟩ := hsd.cached key' entry hentry
      refine ⟨_, (get_install hne).mpr ⟨h, hh, rfl⟩, ?_⟩
      rw [if_neg, if_neg]
      · exact ⟨hkey', hrest⟩
      · rintro ⟨old, hcache, hhandle⟩
        obtain ⟨h₀, hh₀, hkey₀, -⟩ := hsd.cached key old hcache
        rw [hhandle, hh, Option.some.injEq] at hh₀
        exact hkey (hkey₀.symm.trans (hh₀ ▸ hkey'))
      · rintro rfl
        obtain rfl := Option.some.inj (hhᵢ.symm.trans hh)
        exact hkey (hkeyᵢ.symm.trans hkey')
  · rcases install_cases hne hj with ⟨h, hh, -, rfl⟩ | ⟨h, old, hh, -, -, rfl⟩ |
      ⟨hh, -⟩
    · exact hsd.reported j h hh hlost
    · exact Or.inr rfl
    · exact hsd.reported j h' hh hlost
  · rcases install_cases hne hj with ⟨h, hh, rfl, rfl⟩ |
      ⟨h, old, hh, hcache, rfl, rfl⟩ | ⟨hh, -⟩
    · obtain rfl := Option.some.inj (hhᵢ.symm.trans hh)
      simp [hstopᵢ, hconnᵢ] at hend
    · have hlapsed : h.lapsed = true :=
        hsd.lapsed_of_dead hcache (hdead old hcache) hh
      exact hlapsed
    · exact hsd.ended j h' hh hinst hend
  · rw [cache_install]
    rcases install_cases hne hj with ⟨h, hh, rfl, rfl⟩ |
      ⟨h, old, hh, -, -, rfl⟩ | ⟨hh, -, hother⟩
    · obtain rfl := Option.some.inj (hhᵢ.symm.trans hh)
      exact ⟨⟨i, false⟩, by rw [get_insert, if_pos hkeyᵢ.symm], rfl⟩
    · cases hstop
    · obtain ⟨entry, hentry, hhandle⟩ := hsd.kept j h' hh hinst hstop
      refine ⟨entry, ?_, hhandle⟩
      rw [get_insert, if_neg]
      · exact hentry
      · intro heq
        exact hother entry (heq ▸ hentry) hhandle

theorem GetPc.Known.of_get {sd' : ServiceDiscovery} (hpc : pc.Known sd j)
    (hheld : ∀ key k, Holds sd j key k → Holds sd' j key k)
    (hinst : ∀ (k : Nat) h, sd.handles[k]? = some h → h.Installed →
      ∃ h', sd'.handles[k]? = some h' ∧ h'.Installed) :
    pc.Known sd' j := by
  cases pc with
  | check => trivial
  | openProxy => exact hpc
  | dial key k | replace key k => exact hheld key k hpc
  | returned result =>
      cases result with
      | error => trivial
      | ok k =>
          obtain ⟨h, hh, hinst'⟩ := hpc
          exact hinst k h hh hinst'

theorem GetPc.Known.release (hpc : pc.Known sd j) (hj : j ≠ task)
    (hholds : Holds sd task key i) : pc.Known (sd.release i) j := by
  obtain ⟨hᵢ, hhᵢ, hopenerᵢ, -⟩ := hholds
  refine hpc.of_get ?_ ?_
  · rintro key' k ⟨h, hh, hopener, hrest⟩
    refine ⟨h, get_update.mpr ⟨h, hh, ?_⟩, hopener, hrest⟩
    rw [if_neg]
    rintro rfl
    obtain rfl := Option.some.inj (hhᵢ.symm.trans hh)
    exact hj (hopener.symm.trans hopenerᵢ)
  · intro k h hh hinst
    refine ⟨_, get_update.mpr ⟨h, hh, rfl⟩, ?_⟩
    split <;> exact hinst

theorem GetPc.Known.install (hsd : Tidy sd) (hpc : pc.Known sd j)
    (hj : j ≠ task) (hholds : Holds sd task key i) :
    pc.Known (sd.install key i) j := by
  have hne : ∀ old, sd.cache[key]? = some old → old.handle ≠ i :=
    fun old => hsd.ne_of_holds hholds
  obtain ⟨hᵢ, hhᵢ, hopenerᵢ, -⟩ := hholds
  refine hpc.of_get ?_ ?_
  · rintro key' k ⟨h, hh, hopener, hrest⟩
    have hother : ∀ old, sd.cache[key]? = some old → old.handle ≠ k :=
      fun old => hsd.ne_of_holds ⟨h, hh, hopener, hrest⟩
    refine ⟨h, (get_install hne).mpr ⟨h, hh, ?_⟩, hopener, hrest⟩
    rw [if_neg, if_neg]
    · rintro ⟨old, hcache, hhandle⟩
      exact hother old hcache hhandle
    · rintro rfl
      obtain rfl := Option.some.inj (hhᵢ.symm.trans hh)
      exact hj (hopener.symm.trans hopenerᵢ)
  · intro k h hh hinst
    refine ⟨_, (get_install hne).mpr ⟨h, hh, rfl⟩, ?_⟩
    split
    · simp [ProxyHandle.Installed]
    · split <;> exact hinst

end Steps

/-- A `Get` puts its connection into the cache only where no live one is. -/
def ReplacesDead (s : DiscoveryProc) : DiscoveryAct → Bool
  | .step task .go =>
      match s.tasks[task]? with
      | some (.replace key _) =>
          (s.shared.cache[key]?).all fun old => !s.shared.live old
      | _ => true
  | _ => true

section Run

variable {s s' : DiscoveryProc} {sd sd' : ServiceDiscovery} {task : Nat}
  {pc pc' : GetPc}

theorem ReplacesDead.dead {choice : GetChoice} {key : List UInt8}
    (hC : ReplacesDead s (.step task choice) = true)
    (hpc : s.tasks[task]? = some (.replace key i)) {events : List Unit}
    (hadv : GetPc.advance task s.shared (.replace key i) choice =
      some (sd', pc', events)) :
    ∀ old, s.shared.cache[key]? = some old → s.shared.live old = false := by
  intro old hold
  cases choice with
  | go => simpa [ReplacesDead, hpc, hold] using hC
  | _ => cases hadv

theorem GetMove.tidy (hmove : GetMove task sd pc sd' pc') (hsd : Tidy sd)
    (hpc : pc.Known sd task)
    (hdead : ∀ key i, pc = .replace key i →
      ∀ old, sd.cache[key]? = some old → sd.live old = false) :
    Tidy sd' ∧ pc'.Known sd' task := by
  cases hmove with
  | @hit tmpl entry hentry =>
      obtain ⟨h, hh, -, hinst, -⟩ := hsd.cached _ entry hentry
      exact ⟨hsd, h, hh, hinst⟩
  | miss => exact ⟨hsd, rfl⟩
  | @opened key tmpl =>
      refine ⟨hsd.opened tmpl task, .opened tmpl task, ?_, rfl, hpc, rfl, rfl, rfl⟩
      simp
  | openFailed => exact ⟨hsd, trivial⟩
  | dialled => exact ⟨hsd, hpc⟩
  | dialFailed =>
      obtain ⟨h, hh, -, -, hidle, -⟩ := hpc
      exact ⟨hsd.release hh hidle, trivial⟩
  | @replaced key i =>
      refine ⟨hsd.install hpc (hdead key i rfl), ?_⟩
      have hne : ∀ old, sd.cache[key]? = some old → old.handle ≠ i :=
        fun old => hsd.ne_of_holds hpc
      obtain ⟨h, hh, -⟩ := hpc
      refine ⟨_, (ServiceDiscovery.get_install hne).mpr ⟨h, hh, rfl⟩, ?_⟩
      simp [ProxyHandle.Installed]

theorem GetMove.others (hmove : GetMove task sd pc sd' pc') (hsd : Tidy sd)
    (hpc : pc.Known sd task) {j : Nat} {pcj : GetPc} (hj : j ≠ task)
    (hpcj : pcj.Known sd j) : pcj.Known sd' j := by
  cases hmove with
  | hit | miss | openFailed | dialled => exact hpcj
  | opened => exact hpcj.opened _ _
  | dialFailed => exact hpcj.release hj hpc
  | replaced => exact hpcj.install hsd hj hpc

theorem Tidy.markStale (hsd : Tidy sd)
    (hi : sd.handles[i]? = some h) (hlost : h.lost = true)
    (key : List UInt8) : Tidy (sd.markStale key i) := by
  unfold ServiceDiscovery.markStale
  split
  · next entry hentry =>
    split
    · next heq =>
      refine ⟨fun key' entry' hentry' => ?_, hsd.reported, hsd.ended,
        fun j hj hhj hinst hstop => ?_⟩
      · dsimp only at hentry'
        rw [get_insert] at hentry'
        split at hentry'
        · next hkey =>
          obtain rfl := Option.some.inj hentry'
          obtain ⟨h₀, hh₀, hkey₀, hinst, hstop, hconn, -⟩ :=
            hsd.cached key entry hentry
          obtain rfl := Option.some.inj (hi.symm.trans (heq ▸ hh₀))
          exact ⟨h, hh₀, hkey₀.trans hkey, hinst, hstop, hconn, fun _ => hlost⟩
        · exact hsd.cached key' entry' hentry'
      · obtain ⟨entry', hentry', hhandle⟩ := hsd.kept j hj hhj hinst hstop
        dsimp only
        rw [get_insert]
        split
        · next hkey =>
          obtain rfl := Option.some.inj (hentry.symm.trans (hkey ▸ hentry'))
          exact ⟨_, rfl, hhandle⟩
        · exact ⟨entry', hentry', hhandle⟩
    · exact hsd
  · exact hsd

theorem ServiceDiscovery.ambient_cases
    {event : HandleEvent} (hsd : Tidy sd) (hi : sd.handles[i]? = some h)
    (hamb : sd.ambient i h event = some sd') :
    ∃ sd₁ f, Tidy sd₁ ∧ sd₁.handles = sd.handles ∧ Mild h (f h) ∧
      sd' = sd₁.update i f := by
  have hreported := hsd.reported i h hi
  cases event with
  | lapse =>
      simp only [ServiceDiscovery.ambient] at hamb
      split at hamb <;> cases hamb
      refine ⟨sd, _, hsd, rfl, ?_, rfl⟩
      exact ⟨rfl, rfl, rfl, rfl, Iff.rfl, fun _ => rfl, id, fun _ => Or.inl rfl⟩
  | report =>
      simp only [ServiceDiscovery.ambient, Bool.or_eq_true] at hamb
      split at hamb <;> cases hamb
      next hgone =>
      refine ⟨sd, _, hsd, rfl, ?_, rfl⟩
      exact ⟨rfl, rfl, rfl, rfl, Iff.rfl, id, fun _ => rfl, fun _ => hgone⟩
  | mark =>
      simp only [ServiceDiscovery.ambient] at hamb
      split at hamb <;> cases hamb
      next key hwatch hlost =>
      refine ⟨sd.markStale key i, _, hsd.markStale hi hlost key,
        handles_markStale key i, ?_, rfl⟩
      exact ⟨rfl, rfl, rfl, rfl, by simp [hwatch], id, id, hreported⟩
  | quit =>
      simp only [ServiceDiscovery.ambient] at hamb
      split at hamb <;> cases hamb
      next key hwatch hstop =>
      refine ⟨sd, _, hsd, rfl, ?_, rfl⟩
      exact ⟨rfl, rfl, rfl, rfl, by simp [hwatch], id, id, hreported⟩

theorem GetPc.Known.of_handles (hpc : pc.Known sd task)
    (hhandles : sd'.handles = sd.handles) : pc.Known sd' task := by
  unfold GetPc.Known Holds at *
  rwa [hhandles]

/-- The proxy the call has opened and not yet put into the cache. -/
def GetPc.holding : GetPc → Option Nat
  | .dial _ i | .replace _ i => some i
  | _ => none

/-- The proxy was opened by `task`, and is neither released nor in the cache. -/
def ProxyHandle.Pending (h : ProxyHandle) (task : Nat) : Prop :=
  h.opener = task ∧ h.watch = .idle ∧ h.stopped = false

/-- A call holds all its pending proxies. -/
def HoldsPending (sd : ServiceDiscovery) (task : Nat) (pc : GetPc) : Prop :=
  ∀ (i : Nat) h, sd.handles[i]? = some h → h.Pending task → pc.holding = some i

theorem Mild.pending (hmild : Mild h h')
    (hpending : h'.Pending task) : h.Pending task :=
  ⟨hmild.opener ▸ hpending.1, hmild.watch.mp hpending.2.1,
    hmild.stopped ▸ hpending.2.2⟩

/-- A proxy after a move is the one the call has just opened, or was there
before; if it is pending now, it was pending then and is in the same hands. -/
theorem GetMove.origin (hmove : GetMove task sd pc sd' pc') (hi : sd'.handles[i]? = some h) :
    (h.opener = task ∧ pc'.holding = some i) ∨
      ∃ h₀, sd.handles[i]? = some h₀ ∧ h.opener = h₀.opener ∧
        ∀ j, h.Pending j → h₀.Pending j ∧
          (pc.holding = some i → pc'.holding = some i) := by
  cases hmove with
  | hit | miss | openFailed | dialled =>
      exact Or.inr ⟨h, hi, rfl, fun j hpending => ⟨hpending, id⟩⟩
  | opened =>
      dsimp only at hi
      rw [List.getElem?_append] at hi
      split at hi
      · exact Or.inr ⟨h, hi, rfl, fun j hpending => ⟨hpending, nofun⟩⟩
      · have hmem := List.mem_singleton.mp (List.mem_of_getElem? hi)
        have hlt := (List.getElem?_eq_some_iff.mp hi).1
        rw [List.length_singleton] at hlt
        have hlast : sd.handles.length = i := by omega
        exact Or.inl ⟨hmem ▸ rfl, congrArg some hlast⟩
  | @dialFailed key k =>
      obtain ⟨h₀, hh₀, rfl⟩ := ServiceDiscovery.get_update.mp hi
      refine Or.inr ⟨h₀, hh₀, by split <;> rfl, fun j hpending => ?_⟩
      split at hpending
      · cases hpending.2.2
      · next hk => exact ⟨hpending, fun hold => absurd (Option.some.inj hold) hk⟩
  | @replaced key k =>
      obtain ⟨h₁, hh₁, rfl⟩ := ServiceDiscovery.get_update.mp hi
      obtain ⟨h₀, hh₀, hopener, hback⟩ : ∃ h₀, sd.handles[i]? = some h₀ ∧
          h₁.opener = h₀.opener ∧ ∀ j, h₁.Pending j → h₀.Pending j := by
        dsimp only [ServiceDiscovery.tearDown] at hh₁
        split at hh₁
        · obtain ⟨h₀, hh₀, rfl⟩ := ServiceDiscovery.get_update.mp hh₁
          refine ⟨h₀, hh₀, by split <;> rfl, fun j hpending => ?_⟩
          split at hpending
          · cases hpending.2.2
          · exact hpending
        · exact ⟨h₁, hh₁, rfl, fun _ => id⟩
      refine Or.inr ⟨h₀, hh₀, ?_, fun j hpending => ?_⟩
      · split <;> exact hopener
      · split at hpending
        · cases hpending.2.1
        · next hk =>
          exact ⟨hback j hpending, fun hold => absurd (Option.some.inj hold) hk⟩

theorem tidyKeeps :
    discovery.KeepsUnder (fun s act => ReplacesDead s act = true)
      DiscoveryProc.new
      (fun sd _ n => Tidy sd ∧
        ∀ (i : Nat) h, sd.handles[i]? = some h → h.opener < n)
      (fun sd _ task pc => pc.Known sd task ∧ HoldsPending sd task pc) where
  init := by
    refine ⟨⟨⟨?_, ?_, ?_, ?_⟩, ?_⟩, ?_⟩ <;>
      simp [DiscoveryProc.new, ServiceDiscovery.new]
  call := by
    rintro s pc _ _ hentry ⟨hsd, hopener⟩
    refine ⟨⟨hsd, fun i h hi => Nat.lt_succ_of_lt (hopener i h hi)⟩, ?_, ?_⟩
    · cases pc with
      | check => trivial
      | _ => cases hentry
    · intro i h hi hpending
      exact absurd hpending.1 (hopener i h hi).ne
  step := by
    rintro s task pc choice shared pc' events _ hC hpc hadv ⟨hsd, hopener⟩ hloc
    have hmove := GetMove.of_advance hadv
    have hknown := (hloc task pc hpc).1
    have hdead : ∀ key k, pc = .replace key k → ∀ old,
        s.shared.cache[key]? = some old → s.shared.live old = false := by
      rintro key k rfl
      exact ReplacesDead.dead hC hpc hadv
    obtain ⟨hsd', hknown'⟩ := hmove.tidy hsd hknown hdead
    refine ⟨⟨hsd', fun i h hi => ?_⟩, ⟨hknown', fun i h hi hpending => ?_⟩,
      fun j pcj hj hpcj => ⟨hmove.others hsd hknown hj (hloc j pcj hpcj).1,
        fun i h hi hpending => ?_⟩⟩
    · rcases hmove.origin hi with ⟨rfl, -⟩ | ⟨h₀, hh₀, heq, -⟩
      · exact (List.getElem?_eq_some_iff.mp hpc).1
      · exact heq ▸ hopener i h₀ hh₀
    · rcases hmove.origin hi with ⟨-, hheld⟩ | ⟨h₀, hh₀, -, hback⟩
      · exact hheld
      · obtain ⟨hpending₀, hsame⟩ := hback task hpending
        exact hsame ((hloc task pc hpc).2 i h₀ hh₀ hpending₀)
    · rcases hmove.origin hi with ⟨hopened, -⟩ | ⟨h₀, hh₀, -, hback⟩
      · exact absurd (hpending.1.symm.trans hopened) hj
      · exact (hloc j pcj hpcj).2 i h₀ hh₀ (hback j hpending).1
  ambient := by
    rintro s event shared spawned _ _ hamb ⟨hsd, hopener⟩ hloc
    simp only [discovery] at hamb
    split at hamb
    · cases hamb
    · next h hi =>
      simp only [Option.map_eq_some_iff, Prod.mk.injEq] at hamb
      obtain ⟨_, hamb, rfl, rfl⟩ := hamb
      obtain ⟨sd₁, f, hsd₁, hhandles, hmild, rfl⟩ :=
        ServiceDiscovery.ambient_cases hsd hi hamb
      rw [← hhandles] at hi hopener
      refine ⟨⟨hsd₁.update hi hmild, ?_⟩, by simp, fun j pcj hpcj => ?_⟩
      · intro k h' hk
        obtain ⟨h₀, hh₀, hmild'⟩ := hsd₁.mild_update hi hmild hk
        exact hmild'.opener ▸ hopener k h₀ hh₀
      · obtain ⟨hknown, hholds⟩ := hloc j pcj hpcj
        refine ⟨(hknown.of_handles hhandles).update hsd₁ hi hmild, ?_⟩
        intro k h' hk hpending
        obtain ⟨h₀, hh₀, hmild'⟩ := hsd₁.mild_update hi hmild hk
        exact hholds k h₀ (hhandles ▸ hh₀) (hmild'.pending hpending)

end Run

/-- In every run that replaces only dead entries, a connection that was handed
out is closed, and its proxy released, only after the lease of the proxy was
lost; and when no call is in progress, a proxy that is neither released nor
without its lease is the cached one of its template. -/
theorem handed_out_usable {acts : List DiscoveryAct} {s : DiscoveryProc}
    (hrun : run discovery.step DiscoveryProc.new acts = some s)
    (hmeet : StepsMeet discovery.step (fun s act => ReplacesDead s act = true)
      DiscoveryProc.new acts) :
    (∀ (i : Nat) h, .returned (.ok i) ∈ s.tasks →
      s.shared.handles[i]? = some h →
      h.connClosed = true ∨ h.stopped = true → h.lapsed = true) ∧
    ((∀ pc ∈ s.tasks, ∃ result, pc = .returned result) →
      ∀ it (i : Nat) h, s.shared.handles[i]? = some h → h.stopped = false →
        h.lapsed = false →
        (s.shared.cache[templateKey it h.tmpl]?).map CachedConn.handle =
          some i) := by
  obtain ⟨⟨hsd, hopener⟩, hloc⟩ := tidyKeeps.holds hrun hmeet
  refine ⟨fun i h hreturned hi hend => ?_, fun hquiet it i h hi hstop _ => ?_⟩
  · obtain ⟨task, htask⟩ := List.getElem?_of_mem hreturned
    obtain ⟨h₀, hh₀, hinst⟩ := (hloc task _ htask).1
    obtain rfl := Option.some.inj (hi.symm.trans hh₀)
    exact hsd.ended i h hi hinst hend.symm
  · have hinst : h.Installed := by
      intro hidle
      obtain ⟨pc, hpc⟩ : ∃ pc, s.tasks[h.opener]? = some pc :=
        ⟨_, List.getElem?_eq_getElem (hopener i h hi)⟩
      have hheld := (hloc _ pc hpc).2 i h hi ⟨rfl, hidle, hstop⟩
      obtain ⟨result, rfl⟩ := hquiet pc (List.mem_of_getElem? hpc)
      cases hheld
    obtain ⟨entry, hentry, rfl⟩ := hsd.kept i h hi hinst hstop
    rw [templateKey_eq_keyOf, hentry, Option.map_some]

/-- A `Get` that misses opens, dials and installs its proxy. -/
def opens (task : Nat) : List DiscoveryAct :=
  [.step task (.range .sorted), .step task (.opened (.ok ())),
    .step task (.dialled .ok), .step task .go]

/-- The second `Get` finds the connection of the first; the lease is lost, and
the third replaces it. -/
def reopened : List DiscoveryAct :=
  .call (.check ∅) :: opens 0 ++
    [.call (.check ∅), .step 1 (.range .sorted), .ambient (0, .lapse),
      .ambient (0, .report), .ambient (0, .mark), .call (.check ∅)] ++ opens 2

def reopenedProc : DiscoveryProc :=
  (run discovery.step DiscoveryProc.new reopened).get (by decide +kernel)

theorem handed_out_usable_reopened :
    .returned (.ok 0) ∈ reopenedProc.tasks ∧
      ∃ h, reopenedProc.shared.handles[0]? = some h ∧ h.connClosed = true ∧
        h.lapsed = true := by
  have hmeet : StepsMeet discovery.step
      (fun s act => ReplacesDead s act = true) DiscoveryProc.new reopened := by
    decide +kernel
  have hmem : .returned (.ok 0) ∈ reopenedProc.tasks := by decide +kernel
  have hclosed : (reopenedProc.shared.handles[0]?).any
      ProxyHandle.connClosed = true := by decide +kernel
  obtain ⟨h, hh, hconn⟩ := (Option.any_eq_true _ _).mp hclosed
  exact ⟨hmem, h, hh, hconn, (handed_out_usable (Option.some_get _).symm
    hmeet).1 0 h hmem hh (Or.inl hconn)⟩

/-- Two calls miss together, and each opens a proxy. -/
def bothMiss : List DiscoveryAct :=
  [.call (.check ∅), .call (.check ∅), .step 0 (.range .sorted),
    .step 1 (.range .sorted), .step 0 (.opened (.ok ())),
    .step 1 (.opened (.ok ())), .step 0 (.dialled .ok), .step 1 (.dialled .ok),
    .step 0 .go, .step 1 .go]

def bothMissed : DiscoveryProc :=
  (run discovery.step DiscoveryProc.new bothMiss).get (by decide +kernel)

/-- The second closes the connection that the first has handed out, although its
lease is not lost. -/
theorem handed_out_closed :
    run discovery.step DiscoveryProc.new bothMiss = some bothMissed ∧
      .returned (.ok 0) ∈ bothMissed.tasks ∧
      (bothMissed.shared.handles[0]?).any (fun h =>
        h.connClosed && h.stopped && !h.lapsed) = true := by
  refine ⟨(Option.some_get _).symm, ?_⟩
  decide +kernel

end Coordin8.Go
