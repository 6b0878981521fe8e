import Coordin8.Proxy.Moves

/-!
# What holds of proxies along a run

The lease of a proxy, its listener and its entry in the map are to end together.
This module says when nothing is under way in the Proxy's process, under which
conditions on a run the three agree then, and which invariant shows it: a part
about the shared state and the log of what happened, and a part about each call.
The invariant is proved for every move in `Coordin8.Proxy.Lifetime`.
-/

namespace Coordin8

open Support Support.DashMap

namespace ProxyLog

/-- The task that did it. -/
def task : ProxyLog → Nat
  | .granted i _ _ | .inserted i _ | .removed i _ | .lost i _ => i

end ProxyLog

namespace ProxyPc

/-- The proxy that an `open` has a lease for and has not entered in the map. -/
def opening : ProxyPc → Option String
  | .spawn id _ _ | .insert id _ _ => some id
  | _ => none

/-- The proxy taken out of the map whose signal is still to be sent. -/
def signalling : ProxyPc → Option String
  | .closeSignal id _ | .handleSignal id _ _ => some id
  | _ => none

/-- The lease that a `close` is still to cancel. -/
def closing : ProxyPc → Option String
  | .closeSignal _ entry => some entry.leaseId
  | .closeCancel _ (.cancel l) | .closeCancel _ (.cancelStore l _) => some l
  | _ => none

/-- The leases that a call has removed and not announced yet. -/
def owed : ProxyPc → List String
  | .closeCancel _ pc | .lease pc => pc.owed
  | _ => []

/-- No `open` or `close`, no event being handled, and no reclaimed lease still
to be announced. -/
def Idle : ProxyPc → Prop
  | .cascade .. | .returned _ => True
  | .lease pc => pc.owed = []
  | _ => False

instance : DecidablePred Idle
  | .cascade .. | .returned _ => .isTrue trivial
  | .lease pc => inferInstanceAs (Decidable (pc.owed = []))
  | .openProxy .. | .bind _ | .grant .. | .spawn .. | .insert .. | .close _
  | .closeSignal .. | .closeCancel .. | .handle .. | .handleSignal .. =>
      .isFalse nofun

theorem Idle.nothing {pc : ProxyPc} (hidle : pc.Idle) :
    pc.opening = none ∧ pc.signalling = none ∧ pc.closing = none ∧
      pc.owed = [] := by
  cases pc with
  | lease lpc => exact ⟨rfl, rfl, rfl, hidle⟩
  | cascade | returned => exact ⟨rfl, rfl, rfl, rfl⟩
  | _ => exact False.elim hidle

end ProxyPc

/-- Nothing is under way: every reclaimed lease was announced and handled, and
every shutdown signal too. -/
structure ProxyProc.Settled (s : ProxyProc) : Prop where
  calls : ∀ pc ∈ s.tasks, pc.Idle
  cascade : s.tasks[0]? = some (.cascade s.shared.landlord.sent.length 0)
  signals : ∀ id ∈ s.shared.signals, s.shared.listeners[id]? = none

/-- The lease of a proxy is in the lease store. -/
def ProxyShared.Leased (h : ProxyShared) (id : String) : Prop :=
  ∃ (l : String) (r : LeaseRecord), h.landlord.leases.leases[l]? = some r ∧
    r.resourceId = proxyResource id

/-! ## The conditions on a run -/

/-- Clients cancel leases that have been granted. -/
def cancelsGranted (s : ProxyProc) : ProxyAct → Bool
  | .call (.lease (.cancel l)) => l ∈ s.shared.landlord.uuids
  | _ => true

/-- No socket of a listener fails, and the cascade handles a proxy only when no
`open` is about to enter it in the map. -/
def staysOpen (s : ProxyProc) : ProxyAct → Bool
  | .ambient (.acceptError _) => false
  | .step i _ =>
      match s.tasks[i]? with
      | some (.handle id _ _) => s.tasks.all fun pc => pc.opening ≠ some id
      | _ => true
  | _ => true

/-! ## The invariant -/

/-- The lease `l` is for the resource `r`: for a proxy exactly when it was
granted for it. -/
def ProxyLease (log : List ProxyLog) (l r : String) : Prop :=
  ∀ id, r = proxyResource id ↔ ∃ i, ProxyLog.granted i id l ∈ log

/-- The proxy was entered in the map. -/
def Inserted (log : List ProxyLog) (id : String) : Prop :=
  ∃ i, ProxyLog.inserted i id ∈ log

/-- What holds of the shared state. -/
structure ProxyGlob (h : ProxyShared) (log : List ProxyLog) (n : Nat) :
    Prop where
  tasks : ∀ e ∈ log, e.task < n
  sound : h.landlord.Sound (ProxyLease log)
  uuids : ∀ {i id l}, .granted i id l ∈ log →
    id ∈ h.landlord.uuids ∧ l ∈ h.landlord.uuids
  once : ∀ {i j id l l'}, .granted i id l ∈ log → .granted j id l' ∈ log →
    i = j ∧ l = l'
  lost : ∀ {i id l}, .granted i id l ∈ log →
    (∃ r, h.landlord.leases.leases[l]? = some r) ∨ ∃ j, .lost j l ∈ log
  mapped : ∀ {id e}, h.proxies[id]? = some e → Inserted log id ∧
    (∃ i, .granted i id e.leaseId ∈ log) ∧
    h.listeners[id]? = some .accepting ∧ id ∉ h.signals
  there : ∀ {id}, Inserted log id →
    (∃ e, h.proxies[id]? = some e) ∨ ∃ j, .removed j id ∈ log
  known : ∀ {id}, Inserted log id → ∃ i l, .granted i id l ∈ log
  removed : ∀ {i id}, .removed i id ∈ log → Inserted log id
  listening : ∀ {id st}, h.listeners[id]? = some st →
    ∃ i l, .granted i id l ∈ log
  leaving : ∀ {id}, h.listeners[id]? = some .leaving → id ∈ h.signals
  signals : ∀ {id}, id ∈ h.signals → Inserted log id

/-- The event was handled: its proxy was entered in the map, and is not there
any more. -/
def Handled (h : ProxyShared) (log : List ProxyLog) (e : LeaseReclaimed) :
    Prop :=
  ∀ id, e.record.resourceId = proxyResource id →
    Inserted log id ∧ h.proxies[id]? = none

/-- A client is granted no lease of a proxy; a cancellation is of a lease that
was granted, and finds it or comes too late. -/
def LeasePc.NamesDrawn (l : Landlord) : LeasePc → Prop
  | .grant resourceId _ => ∀ id, resourceId ≠ proxyResource id
  | .cancel leaseId => leaseId ∈ l.uuids
  | .cancelStore leaseId none => l.Gone leaseId
  | .cancelStore leaseId (some _) => leaseId ∈ l.uuids
  | _ => True

/-- What a call knows. -/
def ProxyPc.Own (h : ProxyShared) (log : List ProxyLog) (i : Nat) :
    ProxyPc → Prop
  | .spawn id _ granted =>
      .granted i id granted.leaseId ∈ log ∧ ¬ Inserted log id
  | .insert id _ granted =>
      .granted i id granted.leaseId ∈ log ∧ ¬ Inserted log id ∧
        h.listeners[id]? = some .accepting
  | .closeSignal id entry =>
      Inserted log id ∧ h.proxies[id]? = none ∧
        ∃ j, .granted j id entry.leaseId ∈ log
  | .closeCancel _ pc =>
      pc.Cancelling ∧ pc.Sound (ProxyLease log) h.landlord ∧
        pc.NamesDrawn h.landlord
  | .cascade cursor missed =>
      cursor ≤ h.landlord.sent.length ∧
        (missed = 0 → ∀ e ∈ h.landlord.sent.take cursor, Handled h log e)
  | .handle id cursor missed =>
      cursor ≤ h.landlord.sent.length ∧
        (∃ j l, .granted j id l ∈ log ∧ h.landlord.Gone l) ∧
        (missed = 0 → ∀ e ∈ h.landlord.sent.take cursor,
          Handled h log e ∨ e.record.resourceId = proxyResource id)
  | .handleSignal id cursor missed =>
      cursor ≤ h.landlord.sent.length ∧ Inserted log id ∧
        h.proxies[id]? = none ∧
        (missed = 0 → ∀ e ∈ h.landlord.sent.take cursor, Handled h log e)
  | .lease pc =>
      pc.Sound (ProxyLease log) h.landlord ∧ pc.NamesDrawn h.landlord
  | _ => True

/-- What holds of the call `i`. -/
structure ProxyLoc (h : ProxyShared) (log : List ProxyLog) (i : Nat)
    (pc : ProxyPc) : Prop where
  own : pc.Own h log i
  granted : ∀ {id l}, .granted i id l ∈ log →
    Inserted log id ∨ pc.opening = some id
  signals : ∀ {id}, .removed i id ∈ log →
    id ∈ h.signals ∨ pc.signalling = some id
  leases : ∀ {j id l}, .removed i id ∈ log → .granted j id l ∈ log →
    h.landlord.Gone l ∨ pc.closing = some l
  lost : ∀ {l}, .lost i l ∈ log → l ∈ h.landlord.announced ∨ l ∈ pc.owed

/-! ## What holds when nothing is under way -/

theorem proxyResource_inj {id id' : String} :
    proxyResource id = proxyResource id' ↔ id = id' := by
  constructor
  · intro heq
    have hstrip : ∀ id, stripPrefix "proxy:" (proxyResource id) = some id :=
      fun id => stripPrefix_eq_some_iff.mpr rfl
    exact Option.some.inj ((hstrip id).symm.trans (heq ▸ hstrip id'))
  · rintro rfl
    rfl

/-- Lease, listener and entry of a proxy are there together. -/
theorem ProxyProc.Settled.agree {s : ProxyProc} (hsettled : s.Settled)
    (hglob : ProxyGlob s.shared s.log s.tasks.length)
    (hloc : ∀ i pc, s.tasks[i]? = some pc → ProxyLoc s.shared s.log i pc)
    (id : String) :
    (s.shared.Leased id ↔ ∃ st, s.shared.listeners[id]? = some st) ∧
      ((∃ st, s.shared.listeners[id]? = some st) ↔
        ∃ e, s.shared.proxies[id]? = some e) := by
  -- the task behind an event of the log, where it stands now
  have htask : ∀ e ∈ s.log, ∃ pc, s.tasks[e.task]? = some pc ∧ pc.Idle ∧
      ProxyLoc s.shared s.log e.task pc := by
    intro e he
    have hlt := hglob.tasks e he
    have hpc := List.getElem?_eq_getElem hlt
    exact ⟨_, hpc, hsettled.calls _ (List.getElem_mem hlt), hloc _ _ hpc⟩
  have hinserted : ∀ {i id l}, .granted i id l ∈ s.log → Inserted s.log id := by
    intro i id l hgranted
    obtain ⟨pc, -, hidle, hpc⟩ := htask _ hgranted
    exact (hpc.granted hgranted).resolve_right (by simp [hidle.nothing.1])
  have hremoved : ∀ {i id}, .removed i id ∈ s.log →
      id ∈ s.shared.signals ∧
        ∀ {j l}, .granted j id l ∈ s.log → s.shared.landlord.Gone l := by
    intro i id hmem
    obtain ⟨pc, -, hidle, hpc⟩ := htask _ hmem
    obtain ⟨-, hsignalling, hclosing, -⟩ := hidle.nothing
    exact ⟨(hpc.signals hmem).resolve_right (by simp [hsignalling]),
      fun hgranted =>
        (hpc.leases hmem hgranted).resolve_right (by simp [hclosing])⟩
  have hentry_listener : (∃ e, s.shared.proxies[id]? = some e) →
      ∃ st, s.shared.listeners[id]? = some st := fun ⟨e, he⟩ =>
    ⟨_, (hglob.mapped he).2.2.1⟩
  have hlistener_entry : (∃ st, s.shared.listeners[id]? = some st) →
      ∃ e, s.shared.proxies[id]? = some e := by
    rintro ⟨st, hst⟩
    obtain ⟨i, l, hgranted⟩ := hglob.listening hst
    refine (hglob.there (hinserted hgranted)).resolve_right ?_
    rintro ⟨j, hmem⟩
    have hnone := hsettled.signals id (hremoved hmem).1
    rw [hnone] at hst
    cases hst
  have hlease_entry : s.shared.Leased id → ∃ e, s.shared.proxies[id]? = some e := by
    rintro ⟨l, r, hr, hresource⟩
    obtain ⟨-, -, hproxy⟩ := hglob.sound.stored l r hr
    obtain ⟨i, hgranted⟩ := (hproxy id).mp hresource
    refine (hglob.there (hinserted hgranted)).resolve_right ?_
    rintro ⟨j, hmem⟩
    have hgone := (hremoved hmem).2 hgranted
    rw [hgone.2] at hr
    cases hr
  have hentry_lease : (∃ e, s.shared.proxies[id]? = some e) →
      s.shared.Leased id := by
    rintro ⟨e, he⟩
    obtain ⟨-, ⟨i, hgranted⟩, -, -⟩ := hglob.mapped he
    rcases hglob.lost hgranted with ⟨r, hr⟩ | ⟨j, hlost⟩
    · obtain ⟨-, -, hproxy⟩ := hglob.sound.stored _ r hr
      exact ⟨_, r, hr, (hproxy id).mpr ⟨i, hgranted⟩⟩
    · -- the lease was announced, and the cascade has handled it
      exfalso
      obtain ⟨pc, -, hidle, hpc⟩ := htask _ hlost
      have hannounced := (hpc.lost hlost).resolve_right
        (by simp [hidle.nothing.2.2.2])
      obtain ⟨sent, hsent, hid⟩ := List.mem_map.mp hannounced
      have hproxy := (hglob.sound.sent sent hsent).2
      rw [hid] at hproxy
      have hown := (hloc 0 _ hsettled.cascade).own
      have hhandled := hown.2 rfl sent (by rwa [List.take_length])
      have hnone := (hhandled id ((hproxy id).mpr ⟨i, hgranted⟩)).2
      rw [hnone] at he
      cases he
  exact ⟨⟨fun h => hentry_listener (hlease_entry h),
    fun h => hentry_lease (hlistener_entry h)⟩,
    ⟨hlistener_entry, hentry_listener⟩⟩

/-! ## The lease manager -/

section Lease

variable {config : LeaseConfig} {l l' : Landlord} {pc pc' : LeasePc}
  {Q : String → String → Prop} {leaseId : String}

theorem LeaseMove.sent_prefix (hmove : LeaseMove config l pc l' pc') :
    l.sent <+: l'.sent := by
  cases hmove with
  | grant hu hgrant =>
      obtain ⟨-, -, rfl⟩ := Landlord.grant_eq_ok hgrant
      exact List.prefix_rfl
  | cancelSent | announced => exact List.prefix_append _ _
  | _ => exact List.prefix_rfl

theorem LeasePc.NamesDrawn.later (h : pc.NamesDrawn l) (hlater : l.Later l') :
    pc.NamesDrawn l' := by
  cases pc with
  | grant => exact h
  | cancel leaseId => exact hlater.uuids h
  | cancelStore leaseId record =>
      cases record with
      | none => exact hlater.gone _ h
      | some record => exact hlater.uuids h
  | _ => trivial

theorem LeaseMove.namesDrawn (hmove : LeaseMove config l pc l' pc')
    (h : pc.NamesDrawn l) : pc'.NamesDrawn l' := by
  cases hmove with
  | @cancelRead leaseId =>
      cases hget : l.leases.leases[leaseId]? with
      | none => exact ⟨h, hget⟩
      | some record => exact h
  | _ => trivial

theorem LeaseMove.owes_lost (hmove : LeaseMove config l pc l' pc')
    (hsound : pc.Sound Q l) (hnames : pc.NamesDrawn l)
    (hlost : l.lost l' leaseId = true) :
    pc.target = some leaseId ∧ leaseId ∈ pc'.owed := by
  obtain ⟨⟨old, hold⟩, hnone⟩ := Landlord.lost_iff.mp hlost
  have hsame : l'.leases = l.leases → False := by
    intro heq
    rw [heq, hold] at hnone
    cases hnone
  have hinserted : ∀ {k : String} {r : LeaseRecord},
      l'.leases = ⟨l.leases.leases.insert k r⟩ → False := by
    intro k r heq
    rw [heq, get_insert] at hnone
    split at hnone
    · cases hnone
    · rw [hold] at hnone
      cases hnone
  -- what an erase takes out is the lease erased
  have herased : ∀ {k : String}, l'.leases = ⟨l.leases.leases.erase k⟩ →
      k = leaseId := by
    intro k heq
    rw [heq, get_erase] at hnone
    split at hnone
    · next hk => exact hk
    · rw [hold] at hnone
      cases hnone
  cases hmove with
  | grant hu hgrant =>
      obtain ⟨-, -, rfl⟩ := Landlord.grant_eq_ok hgrant
      exact (hinserted rfl).elim
  | renewed => exact (hinserted rfl).elim
  | cancelled =>
      obtain rfl := herased rfl
      exact ⟨rfl, List.mem_singleton.mpr (hsound _ rfl).1.symm⟩
  | cancelledUnknown =>
      obtain rfl := herased rfl
      have hgone : l.Gone _ := hnames
      rw [hgone.2] at hold
      cases hold
  | removed =>
      obtain rfl := herased rfl
      exact ⟨rfl, by simp [LeasePc.owed]⟩
  | _ => exact (hsame rfl).elim

theorem LeaseMove.owed_cases (hmove : LeaseMove config l pc l' pc')
    (howed : leaseId ∈ pc.owed) :
    leaseId ∈ l'.announced ∨ leaseId ∈ pc'.owed := by
  cases hmove with
  | @cancelSent record =>
      obtain rfl := List.mem_singleton.mp howed
      exact .inl (by simp [Landlord.announced, Landlord.send])
  | @announced record removed =>
      rcases List.mem_cons.mp howed with rfl | howed
      · exact .inl (by simp [Landlord.announced, Landlord.send])
      · exact .inr howed
  | removed =>
      refine .inr ?_
      simp only [LeasePc.owed, List.map_append, List.mem_append]
      exact .inl howed
  | kept | drained => exact .inr howed
  | swept => cases howed
  | _ => cases howed

end Lease

/-! ## What stays true as the process goes on -/

structure ProxyLater (h : ProxyShared) (log : List ProxyLog) (h' : ProxyShared)
    (log' : List ProxyLog) : Prop where
  landlord : h.landlord.Later h'.landlord
  sent : h.landlord.sent <+: h'.landlord.sent
  past : log ⊆ log'
  lease : ∀ u r, u ∈ h.landlord.uuids → ProxyLease log u r → ProxyLease log' u r
  signals : h.signals ⊆ h'.signals
  out : ∀ id, Inserted log id → h.proxies[id]? = none → h'.proxies[id]? = none
  accepting : ∀ id, ¬ Inserted log id → h.listeners[id]? = some .accepting →
    h'.listeners[id]? = some .accepting

section Later

variable {h h' : ProxyShared} {log log' events : List ProxyLog} {i : Nat}
  {pc : ProxyPc}

theorem Inserted.mono {id : String} (hin : Inserted log id) (hsub : log ⊆ log') :
    Inserted log' id := by
  obtain ⟨i, hi⟩ := hin
  exact ⟨i, hsub hi⟩

theorem ProxyLease.append {u r : String} (hlease : ProxyLease log u r)
    (hnew : ∀ i id, .granted i id u ∉ events) : ProxyLease (log ++ events) u r := by
  intro id
  rw [hlease id]
  constructor
  · rintro ⟨i, hi⟩
    exact ⟨i, List.mem_append_left _ hi⟩
  · rintro ⟨i, hi⟩
    exact ⟨i, (List.mem_append.mp hi).resolve_right (hnew i id)⟩

theorem Handled.later {e : LeaseReclaimed} (hhandled : Handled h log e)
    (hlater : ProxyLater h log h' log') : Handled h' log' e := by
  intro id hid
  obtain ⟨hin, hnone⟩ := hhandled id hid
  exact ⟨hin.mono hlater.past, hlater.out id hin hnone⟩

theorem ProxyLater.take {cursor : Nat} (hlater : ProxyLater h log h' log')
    (hle : cursor ≤ h.landlord.sent.length) :
    cursor ≤ h'.landlord.sent.length ∧
      h'.landlord.sent.take cursor = h.landlord.sent.take cursor := by
  obtain ⟨more, hmore⟩ := hlater.sent
  rw [← hmore, List.take_append_of_le_length hle, List.length_append]
  exact ⟨Nat.le_add_right_of_le hle, rfl⟩

theorem ProxyPc.Own.later (hown : pc.Own h log i)
    (hlater : ProxyLater h log h' log')
    (hopening : ∀ id, pc.opening = some id → ¬ Inserted log' id) :
    pc.Own h' log' i := by
  cases pc with
  | spawn id port granted => exact ⟨hlater.past hown.1, hopening id rfl⟩
  | insert id port granted =>
      exact ⟨hlater.past hown.1, hopening id rfl,
        hlater.accepting id hown.2.1 hown.2.2⟩
  | closeSignal id entry =>
      obtain ⟨hin, hnone, j, hj⟩ := hown
      exact ⟨hin.mono hlater.past, hlater.out id hin hnone, j, hlater.past hj⟩
  | closeCancel id lpc =>
      exact ⟨hown.1, hown.2.1.later hlater.landlord hlater.lease,
        hown.2.2.later hlater.landlord⟩
  | cascade cursor missed =>
      obtain ⟨hle, htake⟩ := hlater.take hown.1
      refine ⟨hle, fun hmissed e he => ?_⟩
      rw [htake] at he
      exact (hown.2 hmissed e he).later hlater
  | handle id cursor missed =>
      obtain ⟨hle, ⟨j, l, hj, hgone⟩, hhandled⟩ := hown
      obtain ⟨hle, htake⟩ := hlater.take hle
      refine ⟨hle, ⟨j, l, hlater.past hj, hlater.landlord.gone l hgone⟩,
        fun hmissed e he => ?_⟩
      rw [htake] at he
      exact (hhandled hmissed e he).imp_left fun hdone => hdone.later hlater
  | handleSignal id cursor missed =>
      obtain ⟨hle, hin, hnone, hhandled⟩ := hown
      obtain ⟨hle, htake⟩ := hlater.take hle
      refine ⟨hle, hin.mono hlater.past, hlater.out id hin hnone,
        fun hmissed e he => ?_⟩
      rw [htake] at he
      exact (hhandled hmissed e he).later hlater
  | lease lpc =>
      exact ⟨hown.1.later hlater.landlord hlater.lease,
        hown.2.later hlater.landlord⟩
  | _ => trivial

theorem ProxyLoc.later (hloc : ProxyLoc h log i pc)
    (hlater : ProxyLater h log h' log')
    (hmine : ∀ e ∈ log', e.task = i → e ∈ log)
    (hgranted : ∀ {j id l}, .granted j id l ∈ log' → .removed i id ∈ log →
      ∃ j, .granted j id l ∈ log)
    (hopening : ∀ id, pc.opening = some id → ¬ Inserted log' id) :
    ProxyLoc h' log' i pc where
  own := hloc.own.later hlater hopening
  granted hmem :=
    (hloc.granted (hmine _ hmem rfl)).imp_left fun hin => hin.mono hlater.past
  signals hmem :=
    (hloc.signals (hmine _ hmem rfl)).imp_left fun hsig => hlater.signals hsig
  leases hmem hmem' := by
    have hremoved := hmine _ hmem rfl
    obtain ⟨j, hj⟩ := hgranted hmem' hremoved
    exact (hloc.leases hremoved hj).imp_left (hlater.landlord.gone _)
  lost hmem := by
    refine (hloc.lost (hmine _ hmem rfl)).imp_left fun hann => ?_
    exact List.map_subset _ hlater.landlord.sent hann

end Later

theorem ProxyLoc.opens {h : ProxyShared} {log : List ProxyLog} {i : Nat}
    {pc : ProxyPc} {id : String} (hloc : ProxyLoc h log i pc)
    (hopening : pc.opening = some id) :
    (∃ l, .granted i id l ∈ log) ∧ ¬ Inserted log id := by
  have hown := hloc.own
  cases pc with
  | spawn | insert =>
      obtain rfl := Option.some.inj hopening
      exact ⟨⟨_, hown.1⟩, by first | exact hown.2 | exact hown.2.1⟩
  | _ => cases hopening

end Coordin8
