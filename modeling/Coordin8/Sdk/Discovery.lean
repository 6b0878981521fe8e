import Coordin8.Sdk.TemplateKey
import Coordin8.Support.Pool

/-!
# The connection cache of the Go SDK

`ServiceDiscovery` keeps one leased proxy for each template.  `Get` looks into
the cache under a lock; on a miss it opens a proxy and dials it without the
lock, and takes the lock again to put the new connection into the cache.  What
it finds there it closes and releases, on the ground that an entry is only ever
replaced because its lease was lost.

A step is one critical section or one call to the outside.  `watchLease` marks
an entry stale when its lease is reported lost; the registry watch changes
nothing and is left out.  What a `Get` returns was opened for a template with
the key of its own, and so for its own template where the key tells them apart.
-/

namespace Coordin8.Go

open Support Support.DashMap

/-- The goroutine `watchLease` of a handle, with the key it was started for. -/
inductive LeaseWatch where
  | idle
  | running (key : List UInt8)
  | done
deriving DecidableEq, Repr

/-- A proxy that was opened, with the connection made to it. -/
structure ProxyHandle where
  tmpl : SdkTemplate UInt8
  /-- The `Get` that opened it. -/
  opener : Nat
  /-- The Djinn has reclaimed its lease. -/
  lapsed : Bool
  /-- The channel `lost` is closed: the loss of the lease was reported. -/
  lost : Bool
  /-- The channel `stopped` is closed: the proxy was released. -/
  stopped : Bool
  /-- The connection is closed. -/
  connClosed : Bool
  watch : LeaseWatch
deriving DecidableEq

/-- A proxy as the call `task` opens it. -/
def ProxyHandle.opened (tmpl : SdkTemplate UInt8) (task : Nat) : ProxyHandle where
  tmpl := tmpl
  opener := task
  lapsed := false
  lost := false
  stopped := false
  connClosed := false
  watch := .idle

/-- The handle and the connection of an entry are known by the number of the
handle. -/
structure CachedConn where
  handle : Nat
  stale : Bool
deriving DecidableEq

/-- `handles` are the proxies opened so far. -/
structure ServiceDiscovery where
  handles : List ProxyHandle
  cache : DashMap (List UInt8) CachedConn
deriving DecidableEq

/-- Where a `Get` stands. -/
inductive GetPc where
  | check (tmpl : SdkTemplate UInt8)
  | openProxy (key : List UInt8) (tmpl : SdkTemplate UInt8)
  | dial (key : List UInt8) (handle : Nat)
  | replace (key : List UInt8) (handle : Nat)
  /-- The connection of a handle, or an error. -/
  | returned (result : Except String Nat)
deriving DecidableEq

/-- How the dialling of a new proxy ends. -/
inductive Dialled where
  | ok
  | badTarget (err : String)
  | failed (err : String)
deriving DecidableEq, Repr

/-- What the outside decides in a move. -/
inductive GetChoice where
  | range (it : Iteration (List UInt8) (List UInt8))
  | opened (result : Except String Unit)
  | dialled (result : Dialled)
  | go

namespace ServiceDiscovery

def new : ServiceDiscovery where
  handles := []
  cache := ∅

def update (sd : ServiceDiscovery) (i : Nat) (f : ProxyHandle → ProxyHandle) :
    ServiceDiscovery :=
  { sd with handles := sd.handles.modify i f }

/-- `Release`. -/
def release (sd : ServiceDiscovery) (i : Nat) : ServiceDiscovery :=
  sd.update i fun h => { h with stopped := true }

def handleLost (sd : ServiceDiscovery) (i : Nat) : Bool :=
  (sd.handles[i]?).any ProxyHandle.lost

/-- The entry a `Get` may hand out. -/
def live (sd : ServiceDiscovery) (entry : CachedConn) : Bool :=
  !entry.stale && !sd.handleLost entry.handle

/-- The previous entry is closed and released. -/
def tearDown (sd : ServiceDiscovery) (key : List UInt8) : ServiceDiscovery :=
  match sd.cache[key]? with
  | some old =>
      sd.update old.handle fun h =>
        { h with connClosed := true, stopped := true }
  | none => sd

/-- The second critical section of `Get`. -/
def install (sd : ServiceDiscovery) (key : List UInt8) (i : Nat) :
    ServiceDiscovery :=
  let sd := sd.tearDown key
  let sd := { sd with cache := sd.cache.insert key ⟨i, false⟩ }
  sd.update i fun h => { h with watch := .running key }

end ServiceDiscovery

/-- The next move of the call `task`. -/
def GetPc.advance (task : Nat) (sd : ServiceDiscovery) :
    GetPc → GetChoice → Option (ServiceDiscovery × GetPc × List Unit)
  | .check tmpl, .range it =>
      let key := templateKey it tmpl
      match sd.cache[key]? with
      | some entry =>
          if sd.live entry then some (sd, .returned (.ok entry.handle), [])
          else some (sd, .openProxy key tmpl, [])
      | none => some (sd, .openProxy key tmpl, [])
  | .openProxy key tmpl, .opened (.ok ()) =>
      some ({ sd with handles := sd.handles ++ [.opened tmpl task] },
        .dial key sd.handles.length, [])
  | .openProxy _ _, .opened (.error err) =>
      some (sd, .returned (.error ("service discovery: " ++ err)), [])
  | .dial key i, .dialled .ok => some (sd, .replace key i, [])
  | .dial _ i, .dialled (.badTarget err) =>
      some (sd.release i, .returned
        (.error ("service discovery: parse proxy target: " ++ err)), [])
  | .dial _ i, .dialled (.failed err) =>
      some (sd.release i, .returned (.error ("service discovery: " ++ err)), [])
  | .replace key i, .go => some (sd.install key i, .returned (.ok i), [])
  | _, _ => none

/-- What happens to a handle beside the calls. -/
inductive HandleEvent where
  /-- The Djinn reclaims the lease. -/
  | lapse
  /-- The renewal of the lease reports that it is gone. -/
  | report
  /-- `watchLease` sees the report. -/
  | mark
  /-- `watchLease` sees that the proxy was released. -/
  | quit
deriving DecidableEq, Repr

/-- `watchLease` marks the entry under `key` stale, if it is still that of its
handle. -/
def ServiceDiscovery.markStale (sd : ServiceDiscovery) (key : List UInt8)
    (i : Nat) : ServiceDiscovery :=
  match sd.cache[key]? with
  | some entry =>
      if entry.handle = i then
        { sd with cache := sd.cache.insert key { entry with stale := true } }
      else sd
  | none => sd

def ServiceDiscovery.ambient (sd : ServiceDiscovery) (i : Nat)
    (h : ProxyHandle) : HandleEvent → Option ServiceDiscovery
  | .lapse =>
      if h.stopped then none
      else some (sd.update i fun h => { h with lapsed := true })
  | .report =>
      if h.lapsed || h.stopped then
        some (sd.update i fun h => { h with lost := true })
      else none
  | .mark =>
      match h.watch, h.lost with
      | .running key, true =>
          some ((sd.markStale key i).update i fun h => { h with watch := .done })
      | _, _ => none
  | .quit =>
      match h.watch, h.stopped with
      | .running _, true =>
          some (sd.update i fun h => { h with watch := .done })
      | _, _ => none

abbrev DiscoveryAct := PoolAct GetPc GetChoice (Nat × HandleEvent)

abbrev DiscoveryProc := Pool ServiceDiscovery GetPc Unit

/-- Any number of `Get` calls over one `ServiceDiscovery`. -/
def discovery :
    Program ServiceDiscovery GetPc Unit GetChoice (Nat × HandleEvent) where
  entry
    | .check _ => true
    | _ => false
  advance := GetPc.advance
  ambient sd event :=
    match sd.handles[event.1]? with
    | none => none
    | some h => (sd.ambient event.1 h event.2).map (·, [])

def DiscoveryProc.new : DiscoveryProc where
  shared := .new
  tasks := []
  log := []

/-! ## Moves -/

/-- The key of a template, whatever the order of the iteration. -/
def keyOf (tmpl : SdkTemplate UInt8) : List UInt8 :=
  joinParts 0x3d 0x2c tmpl.toList

theorem templateKey_eq_keyOf (it : Iteration (List UInt8) (List UInt8))
    (tmpl : SdkTemplate UInt8) : templateKey it tmpl = keyOf tmpl :=
  sortedTemplateKey_eq _ _ it tmpl

/-- What one move of the call `task` can do. -/
inductive GetMove (task : Nat) (sd : ServiceDiscovery) :
    GetPc → ServiceDiscovery → GetPc → Prop where
  | hit {tmpl : SdkTemplate UInt8} {entry : CachedConn}
      (hentry : sd.cache[keyOf tmpl]? = some entry) :
      GetMove task sd (.check tmpl) sd (.returned (.ok entry.handle))
  | miss {tmpl : SdkTemplate UInt8} :
      GetMove task sd (.check tmpl) sd (.openProxy (keyOf tmpl) tmpl)
  | opened {key : List UInt8} {tmpl : SdkTemplate UInt8} :
      GetMove task sd (.openProxy key tmpl)
        { sd with handles := sd.handles ++ [.opened tmpl task] }
        (.dial key sd.handles.length)
  | openFailed {key : List UInt8} {tmpl : SdkTemplate UInt8} {err : String} :
      GetMove task sd (.openProxy key tmpl) sd (.returned (.error err))
  | dialled {key : List UInt8} {i : Nat} :
      GetMove task sd (.dial key i) sd (.replace key i)
  | dialFailed {key : List UInt8} {i : Nat} {err : String} :
      GetMove task sd (.dial key i) (sd.release i) (.returned (.error err))
  | replaced {key : List UInt8} {i : Nat} :
      GetMove task sd (.replace key i) (sd.install key i) (.returned (.ok i))

theorem GetMove.of_advance {task : Nat} {sd sd' : ServiceDiscovery}
    {pc pc' : GetPc} {choice : GetChoice} {events : List Unit}
    (h : pc.advance task sd choice = some (sd', pc', events)) :
    GetMove task sd pc sd' pc' := by
  unfold GetPc.advance at h
  split at h
  · next tmpl it =>
    simp only [templateKey_eq_keyOf] at h
    split at h
    · next entry hentry =>
      split at h <;> cases h
      · exact .hit hentry
      · exact .miss
    · cases h
      exact .miss
  · cases h
    exact .opened
  · cases h
    exact .openFailed
  · cases h
    exact .dialled
  · cases h
    exact .dialFailed
  · cases h
    exact .dialFailed
  · cases h
    exact .replaced
  · cases h

/-! ## Whose connection a `Get` returns -/

/-- The templates of the calls, in the order in which they were made. -/
def asked (acts : List DiscoveryAct) : List (SdkTemplate UInt8) :=
  acts.filterMap fun
    | .call (.check tmpl) => some tmpl
    | _ => none

/-- The proxy was opened for a template with the key. -/
def Filed (sd : ServiceDiscovery) (key : List UInt8) (i : Nat) : Prop :=
  ∃ h, sd.handles[i]? = some h ∧ keyOf h.tmpl = key

/-- No proxy is forgotten, and each keeps its template. -/
def Grows (sd sd' : ServiceDiscovery) : Prop :=
  ∀ (i : Nat) h, sd.handles[i]? = some h →
    ∃ h', sd'.handles[i]? = some h' ∧ h'.tmpl = h.tmpl

/-- The proxy of a call for `tmpl` stands under the key of `tmpl`. -/
def GetPc.Serves (sd : ServiceDiscovery) (tmpl : SdkTemplate UInt8) :
    GetPc → Prop
  | .check t => t = tmpl
  | .openProxy key t => key = keyOf tmpl ∧ t = tmpl
  | .dial key i | .replace key i => key = keyOf tmpl ∧ Filed sd key i
  | .returned (.ok i) => Filed sd (keyOf tmpl) i
  | .returned (.error _) => True

/-- Every entry stands under the key of its proxy's template. -/
def CacheFiled (sd : ServiceDiscovery) : Prop :=
  ∀ key entry, sd.cache[key]? = some entry → Filed sd key entry.handle

section Serving

variable {sd sd' : ServiceDiscovery} {key : List UInt8} {i j task : Nat}
  {h' : ProxyHandle} {pc pc' : GetPc} {tmpl : SdkTemplate UInt8}

namespace ServiceDiscovery

theorem get_update {f : ProxyHandle → ProxyHandle} :
    (sd.update i f).handles[j]? = some h' ↔
      ∃ h, sd.handles[j]? = some h ∧ h' = if i = j then f h else h := by
  simp only [update, List.getElem?_modify]
  cases sd.handles[j]? with
  | none => simp
  | some h => simp [eq_comm]

@[simp] theorem cache_install :
    (sd.install key i).cache = sd.cache.insert key ⟨i, false⟩ := by
  unfold install tearDown update
  split <;> rfl

theorem handles_markStale (key : List UInt8) (i : Nat) :
    (sd.markStale key i).handles = sd.handles := by
  unfold markStale
  split
  · split <;> rfl
  · rfl

theorem grows_update {f : ProxyHandle → ProxyHandle}
    (hf : ∀ h, (f h).tmpl = h.tmpl) : Grows sd (sd.update i f) := by
  intro j h hj
  refine ⟨_, get_update.mpr ⟨h, hj, rfl⟩, ?_⟩
  split
  · exact hf h
  · rfl

theorem grows_install : Grows sd (sd.install key i) := by
  have htear : Grows sd (sd.tearDown key) := by
    unfold tearDown
    split
    · exact grows_update fun _ => rfl
    · exact fun _ h hj => ⟨h, hj, rfl⟩
  intro j h hj
  obtain ⟨h₁, hh₁, htmpl₁⟩ := htear j h hj
  have hupdate : Grows { sd.tearDown key with
      cache := (sd.tearDown key).cache.insert key ⟨i, false⟩ }
      (sd.install key i) := grows_update fun _ => rfl
  obtain ⟨h₂, hh₂, htmpl₂⟩ := hupdate j h₁ hh₁
  exact ⟨h₂, hh₂, htmpl₂.trans htmpl₁⟩

end ServiceDiscovery

open ServiceDiscovery

theorem Filed.grows (h : Filed sd key i) (hgrows : Grows sd sd') :
    Filed sd' key i := by
  obtain ⟨h₀, hh₀, rfl⟩ := h
  obtain ⟨h₁, hh₁, htmpl⟩ := hgrows i h₀ hh₀
  exact ⟨h₁, hh₁, congrArg keyOf htmpl⟩

theorem GetPc.Serves.grows (h : pc.Serves sd tmpl) (hgrows : Grows sd sd') :
    pc.Serves sd' tmpl := by
  cases pc with
  | check | openProxy => exact h
  | dial | replace => exact ⟨h.1, h.2.grows hgrows⟩
  | returned result =>
      cases result with
      | ok i => exact Filed.grows h hgrows
      | error err => trivial

/-- An entry after a step has the proxy of one before it, or one that stands
under the key. -/
theorem CacheFiled.grows (h : CacheFiled sd) (hgrows : Grows sd sd')
    (hcache : ∀ key entry, sd'.cache[key]? = some entry →
      (∃ old, sd.cache[key]? = some old ∧ old.handle = entry.handle) ∨
        Filed sd key entry.handle) : CacheFiled sd' := by
  intro key entry hentry
  rcases hcache key entry hentry with ⟨old, hold, heq⟩ | hfiled
  · exact heq ▸ (h key old hold).grows hgrows
  · exact hfiled.grows hgrows

theorem GetMove.serves (hmove : GetMove task sd pc sd' pc') (hsd : CacheFiled sd)
    (hpc : pc.Serves sd tmpl) :
    Grows sd sd' ∧ CacheFiled sd' ∧ pc'.Serves sd' tmpl := by
  have hrefl : Grows sd sd := fun _ h hh => ⟨h, hh, rfl⟩
  cases hmove with
  | hit hentry =>
      obtain rfl := hpc
      exact ⟨hrefl, hsd, hsd _ _ hentry⟩
  | miss =>
      obtain rfl := hpc
      exact ⟨hrefl, hsd, rfl, rfl⟩
  | @opened key t =>
      obtain ⟨rfl, rfl⟩ := hpc
      have hgrows : Grows sd
          { sd with handles := sd.handles ++ [.opened t task] } := by
        intro i h hi
        have hlt := (List.getElem?_eq_some_iff.mp hi).1
        exact ⟨h, (List.getElem?_append_left hlt).trans hi, rfl⟩
      exact ⟨hgrows, hsd.grows hgrows fun _ e he => .inl ⟨e, he, rfl⟩, rfl, _,
        List.getElem?_concat_length, rfl⟩
  | openFailed => exact ⟨hrefl, hsd, trivial⟩
  | dialled => exact ⟨hrefl, hsd, hpc⟩
  | @dialFailed key i =>
      have hgrows : Grows sd (sd.release i) := grows_update fun _ => rfl
      exact ⟨hgrows, hsd.grows hgrows fun _ e he => .inl ⟨e, he, rfl⟩, trivial⟩
  | @replaced key i =>
      obtain ⟨rfl, hfiled⟩ := hpc
      refine ⟨grows_install, hsd.grows grows_install fun key e he => ?_,
        hfiled.grows grows_install⟩
      rw [cache_install, get_insert] at he
      split at he
      · next heq =>
        obtain rfl := Option.some.inj he
        exact .inr (heq ▸ hfiled)
      · exact .inl ⟨e, he, rfl⟩

theorem ServiceDiscovery.ambient_grows {h : ProxyHandle} {event : HandleEvent}
    (hsd : CacheFiled sd) (hamb : sd.ambient i h event = some sd') :
    Grows sd sd' ∧ CacheFiled sd' := by
  have hupdate : ∀ f : ProxyHandle → ProxyHandle, (∀ h, (f h).tmpl = h.tmpl) →
      Grows sd (sd.update i f) ∧ CacheFiled (sd.update i f) := fun f hf =>
    ⟨grows_update hf, hsd.grows (grows_update hf) fun _ e he => .inl ⟨e, he, rfl⟩⟩
  cases event with
  | lapse | report | quit =>
      simp only [ServiceDiscovery.ambient] at hamb
      split at hamb <;> cases hamb
      exact hupdate _ fun _ => rfl
  | mark =>
      simp only [ServiceDiscovery.ambient] at hamb
      split at hamb <;> cases hamb
      next key _ _ =>
      have hgrows : Grows sd ((sd.markStale key i).update i
          fun h => { h with watch := .done }) := by
        intro j h hj
        rw [← handles_markStale key i] at hj
        exact grows_update (fun _ => by rfl) j h hj
      refine ⟨hgrows, hsd.grows hgrows fun key' e he => .inl ?_⟩
      change (sd.markStale key i).cache[key']? = some e at he
      unfold markStale at he
      split at he
      · next entry hentry =>
        split at he
        · dsimp only at he
          rw [get_insert] at he
          split at he
          · next heq =>
            obtain rfl := Option.some.inj he
            exact ⟨entry, heq ▸ hentry, rfl⟩
          · exact ⟨e, he, rfl⟩
        · exact ⟨e, he, rfl⟩
      · exact ⟨e, he, rfl⟩

end Serving

/-- Every call serves the template it was made with. -/
structure Serving (acts : List DiscoveryAct) (s : DiscoveryProc) : Prop where
  filed : CacheFiled s.shared
  calls : (asked acts).length = s.tasks.length
  serves : ∀ (i : Nat) pc tmpl, s.tasks[i]? = some pc →
    (asked acts)[i]? = some tmpl → pc.Serves s.shared tmpl

theorem Serving.step {acts : List DiscoveryAct} {s s' : DiscoveryProc}
    {act : DiscoveryAct} (h : Serving acts s)
    (hstep : discovery.step s act = some s') : Serving (acts ++ [act]) s' := by
  cases act with
  | call pc =>
      obtain ⟨hentry, rfl⟩ := Program.step_call.mp hstep
      cases pc with
      | check tmpl =>
          have hasked : asked (acts ++ [.call (.check tmpl)]) =
              asked acts ++ [tmpl] := by simp [asked]
          refine ⟨h.filed, by simp [hasked, h.calls], fun i pc t hpc ht => ?_⟩
          rw [hasked, List.getElem?_append, h.calls] at ht
          dsimp only at hpc
          rw [List.getElem?_append] at hpc
          split at hpc
          · next hlt =>
            rw [if_pos hlt] at ht
            exact h.serves i pc t hpc ht
          · next hge =>
            rw [if_neg hge] at ht
            obtain rfl := List.mem_singleton.mp (List.mem_of_getElem? hpc)
            exact (List.mem_singleton.mp (List.mem_of_getElem? ht)).symm
      | _ => cases hentry
  | step i choice =>
      obtain ⟨pc, sd', pc', events, hi, hadv, rfl⟩ := Program.step_step.mp hstep
      have hasked : asked (acts ++ [.step i choice]) = asked acts := by
        simp [asked]
      have hlt := (List.getElem?_eq_some_iff.mp hi).1
      obtain ⟨tmpl, htmpl⟩ : ∃ tmpl, (asked acts)[i]? = some tmpl :=
        ⟨_, List.getElem?_eq_getElem (h.calls.symm ▸ hlt)⟩
      obtain ⟨hgrows, hfiled, hserves⟩ := (GetMove.of_advance hadv).serves
        h.filed (h.serves i pc tmpl hi htmpl)
      refine ⟨hfiled, by simp [hasked, h.calls], fun j pcj t hpcj ht => ?_⟩
      rw [hasked] at ht
      rcases getElem?_set_cases hpcj with ⟨rfl, rfl⟩ | ⟨-, hpcj⟩
      · obtain rfl := Option.some.inj (htmpl.symm.trans ht)
        exact hserves
      · exact (h.serves j pcj t hpcj ht).grows hgrows
  | ambient event =>
      obtain ⟨sd', spawned, hamb, rfl⟩ := Program.step_ambient.mp hstep
      have hasked : asked (acts ++ [.ambient event]) = asked acts := by
        simp [asked]
      simp only [discovery] at hamb
      split at hamb
      · cases hamb
      · simp only [Option.map_eq_some_iff, Prod.mk.injEq] at hamb
        obtain ⟨_, hamb, rfl, rfl⟩ := hamb
        obtain ⟨hgrows, hfiled⟩ := ServiceDiscovery.ambient_grows h.filed hamb
        refine ⟨hfiled, by simp [hasked, h.calls], fun j pcj t hpcj ht => ?_⟩
        rw [hasked] at ht
        dsimp only at hpcj
        rw [List.append_nil] at hpcj
        exact (h.serves j pcj t hpcj ht).grows hgrows

theorem Serving.of_run {acts : List DiscoveryAct} {s : DiscoveryProc}
    (hrun : run discovery.step DiscoveryProc.new acts = some s) :
    Serving acts s := by
  refine run_invariant ⟨?_, rfl, ?_⟩ (fun _ _ _ _ _ => Serving.step) hrun
  · simp [CacheFiled, DiscoveryProc.new, ServiceDiscovery.new]
  · simp [DiscoveryProc.new]

end Coordin8.Go

namespace Coordin8

open Support

/-- In each SDK a template shares its key with no other one, if and only if it is
empty or has one entry without an equals sign.  Two templates without the signs
of the key, but for equals signs in their values, have one key only if they are
equal; and among such templates, a `Get` of the Go SDK returns only proxies that
were opened for the template it was called with. -/
theorem templateKey_determines_iff (go : SdkTemplate UInt8)
    (node java : SdkTemplate UInt16) :
    ((∀ it it' t, Go.templateKey it go = Go.templateKey it' t → go = t) ↔
      go.Plain 0x3d) ∧
    ((∀ it it' t, Node.templateKey it node = Node.templateKey it' t →
      node = t) ↔ node.Plain 0x3d) ∧
    ((∀ t, Java.templateKey java = Java.templateKey t → java = t) ↔
      java.Plain 0x3d) ∧
    (∀ it it' t, go.Separated 0x3d 0x2c → t.Separated 0x3d 0x2c →
      Go.templateKey it go = Go.templateKey it' t → go = t) ∧
    (∀ it it' t, node.Separated 0x3d 0x2c → t.Separated 0x3d 0x2c →
      Node.templateKey it node = Node.templateKey it' t → node = t) ∧
    (∀ t, java.Separated 0x3d 0x2c → t.Separated 0x3d 0x2c →
      Java.templateKey java = Java.templateKey t → java = t) ∧
    ∀ acts s, run Go.discovery.step Go.DiscoveryProc.new acts = some s →
      ∀ (i k : Nat) handle, (Go.asked acts)[i]? = some go →
        s.tasks[i]? = some (.returned (.ok k)) →
        s.shared.handles[k]? = some handle → go.Separated 0x3d 0x2c →
        handle.tmpl.Separated 0x3d 0x2c → handle.tmpl = go := by
  refine ⟨?_, ?_, SdkTemplate.plain_iff 0x3d 0x2c java, ?_, ?_,
    fun t hs ht => hs.unique ht (by decide), ?_⟩
  · rw [← SdkTemplate.plain_iff 0x3d 0x2c go]
    simp only [Go.templateKey, sortedTemplateKey_eq]
    exact ⟨fun h => h .sorted .sorted, fun h _ _ => h⟩
  · rw [← SdkTemplate.plain_iff 0x3d 0x2c node]
    simp only [Node.templateKey, sortedTemplateKey_eq]
    exact ⟨fun h => h .sorted .sorted, fun h _ _ => h⟩
  · simp only [Go.templateKey, sortedTemplateKey_eq]
    exact fun _ _ t hs ht => hs.unique ht (by decide)
  · simp only [Node.templateKey, sortedTemplateKey_eq]
    exact fun _ _ t hs ht => hs.unique ht (by decide)
  · intro acts s hrun i k handle hasked hreturned hhandle hs ht
    obtain ⟨h, hh, hkey⟩ :=
      (Go.Serving.of_run hrun).serves i _ go hreturned hasked
    obtain rfl := Option.some.inj (hh.symm.trans hhandle)
    exact ht.unique hs (by decide) hkey

def twoFields : SdkTemplate UInt8 :=
  ((∅ : SdkTemplate UInt8).insert [0x61] [0x31]).insert [0x62] [0x32]

def oneField : SdkTemplate UInt8 :=
  (∅ : SdkTemplate UInt8).insert [0x61] [0x31, 0x2c, 0x62, 0x3d, 0x32]

/-- Both have the key `a=1,b=2`. -/
theorem templateKey_collision :
    twoFields ≠ oneField ∧
      ∀ it it', Go.templateKey it twoFields = Go.templateKey it' oneField := by
  simp only [Go.templateKey, sortedTemplateKey_eq]
  exact ⟨by decide +kernel, fun _ _ => by decide +kernel⟩

end Coordin8
