import Coordin8.Proxy.Invariant

/-!
# Leases, listeners and entries of proxies

The lease of a proxy, its listener and its entry in the map are to end together.
They do not when a listener ends by itself: it removes its entry and leaves the
lease, which its holder goes on renewing.  Nor do they when the cascade handles
the lease of a proxy whose `open` has not entered it in the map.

When no listener's socket fails, and the cascade handles a proxy only when its
`open` has entered it, whatever is in order is in order again as soon as nothing
is under way.
-/

namespace Coordin8

open Support Support.DashMap

/-! ## The moves -/

variable {j : Nat} {id l : String}

section Moves

variable {config : ProxyConfig} {h h' : ProxyShared} {log events : List ProxyLog}
  {i n : Nat} {pc pc' : ProxyPc}

theorem ProxyPc.mem_lostEvents {l l' : Landlord} {lpc : LeasePc} {e : ProxyLog} :
    e ∈ lostEvents i l l' lpc ↔ ∃ leaseId, e = .lost i leaseId ∧
      lpc.target = some leaseId ∧ l.lost l' leaseId = true := by
  simp only [lostEvents, List.mem_map, List.mem_filter, Option.mem_toList]
  constructor
  · rintro ⟨leaseId, ⟨htarget, hlost⟩, rfl⟩
    exact ⟨leaseId, rfl, htarget, hlost⟩
  · rintro ⟨leaseId, rfl, htarget, hlost⟩
    exact ⟨leaseId, ⟨htarget, hlost⟩, rfl⟩

theorem ProxyGlob.client_lease (hglob : ProxyGlob h log n) {u r : String}
    (hu : u ∉ h.landlord.uuids) (hr : ∀ id, r ≠ proxyResource id)
    (l l' : Landlord) (lpc : LeasePc) :
    ProxyLease (log ++ ProxyPc.lostEvents i l l' lpc) u r := by
  intro id
  refine ⟨fun heq => absurd heq (hr id), ?_⟩
  rintro ⟨j, hj⟩
  rcases List.mem_append.mp hj with hj | hj
  · exact absurd (hglob.uuids hj).2 hu
  · obtain ⟨leaseId, heq, -⟩ := ProxyPc.mem_lostEvents.mp hj
    cases heq

namespace ProxyMove

theorem task_of_mem (hmove : ProxyMove config i h pc h' pc' events)
    {e : ProxyLog} (he : e ∈ events) : e.task = i := by
  cases hmove with
  | closeCancel | lease =>
      obtain ⟨leaseId, rfl, -⟩ := ProxyPc.mem_lostEvents.mp he
      rfl
  | grant | insert | close | handle =>
      obtain rfl := List.mem_singleton.mp he
      rfl
  | _ => cases he

theorem of_granted (hmove : ProxyMove config i h pc h' pc' events) (he : .granted j id l ∈ events) :
    events = [.granted i id l] ∧ j = i ∧ pc'.opening = some id ∧
      (id ∉ h.landlord.uuids ∧ l ∉ h.landlord.uuids) ∧
      (id ∈ h'.landlord.uuids ∧ l ∈ h'.landlord.uuids) ∧
      ∃ r, h'.landlord.leases.leases[l]? = some r := by
  cases hmove with
  | @grant _ _ _ _ granted _ hid hl hgrant =>
      obtain ⟨rfl, rfl, rfl⟩ := ProxyLog.granted.inj (List.mem_singleton.mp he)
      obtain ⟨-, -, rfl⟩ := Landlord.grant_eq_ok hgrant
      exact ⟨rfl, rfl, rfl, ⟨hid, fun hmem => hl (List.mem_cons_of_mem _ hmem)⟩,
        by simp, granted, by simp⟩
  | closeCancel | lease =>
      obtain ⟨leaseId, heq, -⟩ := ProxyPc.mem_lostEvents.mp he
      cases heq
  | insert | close | handle => cases List.mem_singleton.mp he
  | _ => cases he

theorem inserted_cases (hmove : ProxyMove config i h pc h' pc' events) (hin : Inserted (log ++ events) id) :
    Inserted log id ∨ pc.opening = some id := by
  obtain ⟨j, hj⟩ := hin
  rcases List.mem_append.mp hj with hj | hj
  · exact .inl ⟨j, hj⟩
  · cases hmove with
    | insert =>
        obtain ⟨-, rfl⟩ := ProxyLog.inserted.inj (List.mem_singleton.mp hj)
        exact .inr rfl
    | closeCancel | lease =>
        obtain ⟨leaseId, heq, -⟩ := ProxyPc.mem_lostEvents.mp hj
        cases heq
    | grant | close | handle => cases List.mem_singleton.mp hj
    | _ => cases hj

theorem landlord_later (hmove : ProxyMove config i h pc h' pc' events) :
    h.landlord.Later h'.landlord ∧ h.landlord.sent <+: h'.landlord.sent := by
  cases hmove with
  | grant hid hl hgrant =>
      refine ⟨(Landlord.Later.draw _ _).trans (.grant hl hgrant), ?_⟩
      obtain ⟨-, -, rfl⟩ := Landlord.grant_eq_ok hgrant
      exact List.prefix_rfl
  | grantFailed => exact ⟨.draw _ _, List.prefix_rfl⟩
  | closeCancel hstep | lease hstep =>
      have hlease := LeaseMove.of_advance hstep
      exact ⟨hlease.later, hlease.sent_prefix⟩
  | _ => exact ⟨.refl _, List.prefix_rfl⟩

theorem later (hmove : ProxyMove config i h pc h' pc' events)
    (hown : pc.Own h log i) : ProxyLater h log h' (log ++ events) where
  landlord := hmove.landlord_later.1
  sent := hmove.landlord_later.2
  past := List.subset_append_left _ _
  lease u r hu hlease := hlease.append fun j id hmem =>
    (hmove.of_granted hmem).2.2.2.1.2 hu
  signals := by
    cases hmove with
    | closeSignal | handleSignal => exact List.subset_append_left _ _
    | _ => exact List.Subset.refl _
  out id hin hnone := by
    cases hmove with
    | insert =>
        simp only [get_insert]
        rw [if_neg]
        · exact hnone
        · rintro rfl
          exact hown.2.1 hin
    | close | handle => simp [get_erase, hnone]
    | _ => exact hnone
  accepting id hin haccepting := by
    cases hmove with
    | spawn =>
        simp only [get_insert]
        split
        · rfl
        · exact haccepting
    | _ => exact haccepting

/-! The landlord's part of the invariant. -/

theorem sound (hmove : ProxyMove config i h pc h' pc' events)
    (hglob : ProxyGlob h log n) (hown : pc.Own h log i) :
    h'.landlord.Sound (ProxyLease (log ++ events)) := by
  have hweak := hglob.sound.weaken (hmove.later hown).lease
  have hlate := (hmove.later hown).lease
  cases hmove with
  | @grant port ttlSecs id l granted landlord hid hl hgrant =>
      refine (hweak.draw id).grant hl hgrant fun id' => ?_
      rw [proxyResource_inj]
      constructor
      · rintro rfl
        exact ⟨i, by simp⟩
      · rintro ⟨j, hj⟩
        rcases List.mem_append.mp hj with hj | hj
        · exact absurd (List.mem_cons_of_mem _ (hglob.uuids hj).2) hl
        · obtain ⟨-, rfl, -⟩ := ProxyLog.granted.inj (List.mem_singleton.mp hj)
          rfl
  | grantFailed => exact hweak.draw _
  | closeCancel hstep =>
      refine ((LeaseMove.of_advance hstep).sound_of_fresh hweak
        (hown.2.1.later (.refl _) hlate) ?_).1
      rintro resourceId ttlSecs u rfl
      exact False.elim hown.1
  | lease hstep =>
      refine ((LeaseMove.of_advance hstep).sound_of_fresh hweak
        (hown.1.later (.refl _) hlate) ?_).1
      rintro resourceId ttlSecs u rfl hu -
      exact hglob.client_lease hu hown.2 _ _ _
  | _ => exact hweak

theorem uuids (hmove : ProxyMove config i h pc h' pc' events)
    (hglob : ProxyGlob h log n)
    (hmem : .granted j id l ∈ log ++ events) :
    id ∈ h'.landlord.uuids ∧ l ∈ h'.landlord.uuids := by
  have huuids := hmove.landlord_later.1.uuids
  rcases List.mem_append.mp hmem with hmem | hmem
  · exact ⟨huuids (hglob.uuids hmem).1, huuids (hglob.uuids hmem).2⟩
  · exact (hmove.of_granted hmem).2.2.2.2.1

theorem once (hmove : ProxyMove config i h pc h' pc' events)
    (hglob : ProxyGlob h log n) {k : Nat} {l' : String}
    (hj : .granted j id l ∈ log ++ events)
    (hk : .granted k id l' ∈ log ++ events) : j = k ∧ l = l' := by
  rcases List.mem_append.mp hj with hj' | hj' <;>
    rcases List.mem_append.mp hk with hk' | hk'
  · exact hglob.once hj' hk'
  · exact absurd (hglob.uuids hj').1 (hmove.of_granted hk').2.2.2.1.1
  · exact absurd (hglob.uuids hk').1 (hmove.of_granted hj').2.2.2.1.1
  · obtain ⟨hevents, rfl, -⟩ := hmove.of_granted hj'
    rw [hevents] at hk'
    obtain ⟨rfl, -, rfl⟩ := ProxyLog.granted.inj (List.mem_singleton.mp hk')
    exact ⟨rfl, rfl⟩

theorem lost (hmove : ProxyMove config i h pc h' pc' events)
    (hown : pc.Own h log i) {l : String} {r : LeaseRecord}
    (hr : h.landlord.leases.leases[l]? = some r) :
    (∃ r, h'.landlord.leases.leases[l]? = some r) ∨ .lost i l ∈ events := by
  -- a move of the lease manager
  have hlease : ∀ {lpc lpc' : LeasePc} {landlord : Landlord},
      LeaseMove config.lease h.landlord lpc landlord lpc' →
      lpc.Sound (ProxyLease log) h.landlord → lpc.NamesDrawn h.landlord →
      (∃ r, landlord.leases.leases[l]? = some r) ∨
        .lost i l ∈ ProxyPc.lostEvents i h.landlord landlord lpc := by
    intro lpc lpc' landlord hmove hsound hnames
    cases hget : landlord.leases.leases[l]? with
    | some r => exact .inl ⟨r, rfl⟩
    | none =>
        have hlost : h.landlord.lost landlord l = true :=
          Landlord.lost_iff.mpr ⟨⟨r, hr⟩, hget⟩
        exact .inr (ProxyPc.mem_lostEvents.mpr
          ⟨l, rfl, (hmove.owes_lost hsound hnames hlost).1, hlost⟩)
  cases hmove with
  | grant hid hl hgrant =>
      obtain ⟨-, -, rfl⟩ := Landlord.grant_eq_ok hgrant
      left
      simp only [get_insert]
      split
      · exact ⟨_, rfl⟩
      · exact ⟨r, hr⟩
  | closeCancel hstep =>
      exact hlease (LeaseMove.of_advance hstep) hown.2.1 hown.2.2
  | lease hstep => exact hlease (LeaseMove.of_advance hstep) hown.1 hown.2
  | _ => exact .inl ⟨r, hr⟩

theorem of_removed (hmove : ProxyMove config i h pc h' pc' events) (he : .removed j id ∈ events) :
    (∃ e, h.proxies[id]? = some e ∧
      (pc'.closing = some e.leaseId ∨ ∃ c m, pc = .handle id c m)) ∧
      pc'.signalling = some id := by
  cases hmove with
  | close hget =>
      obtain ⟨-, rfl⟩ := ProxyLog.removed.inj (List.mem_singleton.mp he)
      exact ⟨⟨_, hget, .inl rfl⟩, rfl⟩
  | handle hget =>
      obtain ⟨-, rfl⟩ := ProxyLog.removed.inj (List.mem_singleton.mp he)
      exact ⟨⟨_, hget, .inr ⟨_, _, rfl⟩⟩, rfl⟩
  | closeCancel | lease =>
      obtain ⟨leaseId, heq, -⟩ := ProxyPc.mem_lostEvents.mp he
      cases heq
  | insert | grant => cases List.mem_singleton.mp he
  | _ => cases he

theorem mapped (hmove : ProxyMove config i h pc h' pc' events)
    (hglob : ProxyGlob h log n) (hown : pc.Own h log i)
    {e : ProxyEntry} (he : h'.proxies[id]? = some e) :
    Inserted (log ++ events) id ∧
      (∃ j, .granted j id e.leaseId ∈ log ++ events) ∧
      h'.listeners[id]? = some .accepting ∧ id ∉ h'.signals := by
  have hpast := (hmove.later hown).past
  have hold : h.proxies[id]? = some e → Inserted (log ++ events) id ∧
      (∃ j, .granted j id e.leaseId ∈ log ++ events) ∧
      h.listeners[id]? = some .accepting ∧ id ∉ h.signals := by
    intro he
    obtain ⟨hin, ⟨j, hj⟩, hrest⟩ := hglob.mapped he
    exact ⟨hin.mono hpast, ⟨j, hpast hj⟩, hrest⟩
  have hsignal : ∀ {id'}, h.proxies[id']? = none → id ∉ h.signals →
      h.proxies[id]? = some e → id ∉ h.signals ++ [id'] := by
    intro id' hnone hnot he hmem
    rcases List.mem_append.mp hmem with hmem | hmem
    · exact hnot hmem
    · rw [← List.mem_singleton.mp hmem, he] at hnone
      cases hnone
  cases hmove with
  | insert =>
      simp only [get_insert] at he
      split at he
      · next heq =>
        obtain rfl := Option.some.inj he
        subst heq
        exact ⟨⟨i, by simp⟩, ⟨i, hpast hown.1⟩, hown.2.2,
          fun hsig => hown.2.1 (hglob.signals hsig)⟩
      · exact hold he
  | spawn =>
      obtain ⟨hin, hgranted, haccepting, hnot⟩ := hold he
      refine ⟨hin, hgranted, ?_, hnot⟩
      simp only [get_insert]
      split
      · rfl
      · exact haccepting
  | close | handle =>
      simp only [get_erase] at he
      split at he
      · cases he
      · exact hold he
  | closeSignal =>
      obtain ⟨hin, hgranted, haccepting, hnot⟩ := hold he
      exact ⟨hin, hgranted, haccepting, hsignal hown.2.1 hnot he⟩
  | handleSignal =>
      obtain ⟨hin, hgranted, haccepting, hnot⟩ := hold he
      exact ⟨hin, hgranted, haccepting, hsignal hown.2.2.1 hnot he⟩
  | _ => exact hold he

theorem there (hmove : ProxyMove config i h pc h' pc' events)
    (hglob : ProxyGlob h log n)
    (hin : Inserted (log ++ events) id) :
    (∃ e, h'.proxies[id]? = some e) ∨ ∃ j, .removed j id ∈ log ++ events := by
  have hcases := hmove.inserted_cases hin
  have hold : Inserted log id → (∃ e, h.proxies[id]? = some e) ∨
      ∃ j, .removed j id ∈ log ++ events := fun hin =>
    (hglob.there hin).imp_right fun ⟨j, hj⟩ => ⟨j, List.mem_append_left _ hj⟩
  cases hmove with
  | insert =>
      simp only [get_insert]
      split
      · exact .inl ⟨_, rfl⟩
      · next hne =>
        refine hold (hcases.resolve_right fun heq => ?_)
        exact hne (Option.some.inj heq)
  | @close id' entry | @handle id' cursor missed entry =>
      rcases hold (hcases.resolve_right nofun) with ⟨e, he⟩ | hremoved
      · by_cases heq : id' = id
        · exact .inr ⟨i, by simp [heq]⟩
        · exact .inl ⟨e, by simp [get_erase, heq, he]⟩
      · exact .inr hremoved
  | begin | spawn =>
      obtain ⟨j, hj⟩ := hin
      rw [List.append_nil] at hj
      exact hold ⟨j, hj⟩
  | _ => exact hold (hcases.resolve_right nofun)

theorem glob (hmove : ProxyMove config i h pc h' pc' events)
    (hglob : ProxyGlob h log n) (hi : i < n) (hown : pc.Own h log i) :
    ProxyGlob h' (log ++ events) n := by
  have hlater := hmove.later hown
  have hinserted : ∀ {id}, Inserted (log ++ events) id →
      ∃ j l, .granted j id l ∈ log := by
    intro id hin
    rcases hmove.inserted_cases hin with hin | hopening
    · exact hglob.known hin
    · cases pc with
      | spawn id' port granted | insert id' port granted =>
          cases hopening
          exact ⟨i, _, hown.1⟩
      | _ => cases hopening
  refine {
    tasks := ?_
    sound := hmove.sound hglob hown
    uuids := fun hmem => hmove.uuids hglob hmem
    once := fun hj hk => hmove.once hglob hj hk
    lost := ?_
    mapped := fun he => hmove.mapped hglob hown he
    there := fun hin => hmove.there hglob hin
    known := ?_
    removed := ?_
    listening := ?_
    leaving := ?_
    signals := ?_ }
  · intro e he
    rcases List.mem_append.mp he with he | he
    · exact hglob.tasks e he
    · rwa [hmove.task_of_mem he]
  · intro j id l hmem
    rcases List.mem_append.mp hmem with hmem | hmem
    · rcases hglob.lost hmem with ⟨r, hr⟩ | ⟨k, hk⟩
      · exact (hmove.lost hown hr).imp_right fun hlost =>
          ⟨i, List.mem_append_right _ hlost⟩
      · exact .inr ⟨k, List.mem_append_left _ hk⟩
    · exact .inl (hmove.of_granted hmem).2.2.2.2.2
  · intro id hin
    obtain ⟨j, l, hj⟩ := hinserted hin
    exact ⟨j, l, hlater.past hj⟩
  · intro j id hmem
    rcases List.mem_append.mp hmem with hmem | hmem
    · exact (hglob.removed hmem).mono hlater.past
    · obtain ⟨⟨e, he, -⟩, -⟩ := hmove.of_removed hmem
      exact (hglob.mapped he).1.mono hlater.past
  · intro id st hst
    have hold : h.listeners[id]? = some st →
        ∃ j l, .granted j id l ∈ log ++ events := fun hst => by
      obtain ⟨j, l, hj⟩ := hglob.listening hst
      exact ⟨j, l, hlater.past hj⟩
    cases hmove with
    | spawn =>
        simp only [get_insert] at hst
        split at hst
        · next heq => exact ⟨i, _, heq ▸ hlater.past hown.1⟩
        · exact hold hst
    | _ => exact hold hst
  · intro id hst
    refine hlater.signals ?_
    cases hmove with
    | spawn =>
        simp only [get_insert] at hst
        split at hst
        · cases hst
        · exact hglob.leaving hst
    | _ => exact hglob.leaving hst
  · intro id hsig
    have hold : id ∈ h.signals → Inserted (log ++ events) id := fun hsig =>
      (hglob.signals hsig).mono hlater.past
    cases hmove with
    | closeSignal =>
        rcases List.mem_append.mp hsig with hsig | hsig
        · exact hold hsig
        · exact List.mem_singleton.mp hsig ▸ hown.1.mono hlater.past
    | handleSignal =>
        rcases List.mem_append.mp hsig with hsig | hsig
        · exact hold hsig
        · exact List.mem_singleton.mp hsig ▸ hown.2.1.mono hlater.past
    | _ => exact hold hsig

/-! The call's own part. -/

theorem own (hmove : ProxyMove config i h pc h' pc' events)
    (hglob : ProxyGlob h log n) (hown : pc.Own h log i)
    (hopened : ∀ id cursor missed, pc = .handle id cursor missed →
      Inserted log id) : pc'.Own h' (log ++ events) i := by
  have hlater := hmove.later hown
  have hcases := fun id (hin : Inserted (log ++ events) id) =>
    hmove.inserted_cases hin
  cases hmove with
  | begin hbegins => cases hbegins <;> trivial
  | @grant port ttlSecs id l granted landlord hid hl hgrant =>
      refine ⟨by simp [(Landlord.grant_eq_ok hgrant).1], fun hin => ?_⟩
      obtain ⟨j, l', hj⟩ := hglob.known ((hcases id hin).resolve_right nofun)
      exact hid (hglob.uuids hj).1
  | spawn =>
      refine ⟨hlater.past hown.1, ?_, by simp⟩
      rw [List.append_nil]
      exact hown.2
  | close hget =>
      obtain ⟨hin, ⟨j, hj⟩, -⟩ := hglob.mapped hget
      exact ⟨hin.mono hlater.past, by simp, j, hlater.past hj⟩
  | closeSignal =>
      obtain ⟨-, -, j, hj⟩ := hown
      exact ⟨trivial, trivial, (hglob.uuids hj).2⟩
  | @closeCancel id lpc lpc' c landlord hstep =>
      have hlease := LeaseMove.of_advance hstep
      obtain ⟨hcancelling, hsound, hnames⟩ := hown
      rcases hlease.cancelling hcancelling with hcancelling' | ⟨result, rfl⟩
      · have hsound' := (hlease.sound_of_fresh (hglob.sound.weaken hlater.lease)
          (hsound.later (.refl _) hlater.lease) (by
            rintro resourceId ttlSecs u rfl
            exact False.elim hcancelling)).2
        have hkeeps : ProxyPc.afterCancel id lpc' = .closeCancel id lpc' := by
          cases lpc' <;> first | rfl | exact False.elim hcancelling'
        rw [hkeeps]
        exact ⟨hcancelling', hsound', hlease.namesDrawn hnames⟩
      · trivial
  | @lag cursor cursor' missed missing hrecv =>
      refine ⟨(recv_bounds hrecv).2, fun hzero => ?_⟩
      have hpos := recv_lagged_pos hrecv
      omega
  | skip hnext hother =>
      have hlt := (List.getElem?_eq_some_iff.mp hnext).1
      refine ⟨hlt, fun hmissed e he => ?_⟩
      rw [List.append_nil]
      rw [List.take_add_one, hnext] at he
      rcases List.mem_append.mp he with he | he
      · exact hown.2 hmissed e he
      · obtain rfl := List.mem_singleton.mp he
        exact fun id hid => absurd hid (hother id)
  | @take cursor missed e id hnext hproxy =>
      have hlt := (List.getElem?_eq_some_iff.mp hnext).1
      obtain ⟨hgone, hlease⟩ := hglob.sound.sent e (List.mem_of_getElem? hnext)
      obtain ⟨j, hj⟩ := (hlease id).mp hproxy
      rw [List.append_nil]
      refine ⟨hlt, ⟨j, _, hj, hgone⟩, fun hmissed e' he' => ?_⟩
      rw [List.take_add_one, hnext] at he'
      rcases List.mem_append.mp he' with he' | he'
      · exact .inl (hown.2 hmissed e' he')
      · obtain rfl := List.mem_singleton.mp he'
        exact .inr hproxy
  | handleNone hget =>
      refine ⟨hown.1, fun hmissed e he => ?_⟩
      rw [List.append_nil]
      rcases hown.2.2 hmissed e he with hhandled | hproxy
      · exact hhandled
      · intro id hid
        obtain rfl := proxyResource_inj.mp (hproxy.symm.trans hid)
        exact ⟨hopened _ _ _ rfl, hget⟩
  | handle hget =>
      have hin := hopened _ _ _ rfl
      refine ⟨hown.1, hin.mono hlater.past, by simp, fun hmissed e he => ?_⟩
      rcases hown.2.2 hmissed e he with hhandled | hproxy
      · exact hhandled.later hlater
      · intro id hid
        obtain rfl := proxyResource_inj.mp (hproxy.symm.trans hid)
        exact ⟨hin.mono hlater.past, by simp⟩
  | handleSignal =>
      exact ⟨hown.1, fun hmissed e he =>
        (hown.2.2.2 hmissed e he).later hlater⟩
  | lease hstep =>
      have hlease := LeaseMove.of_advance hstep
      refine ⟨(hlease.sound_of_fresh (hglob.sound.weaken hlater.lease)
        (hown.1.later (.refl _) hlater.lease) ?_).2, hlease.namesDrawn hown.2⟩
      rintro resourceId ttlSecs u rfl hu -
      exact hglob.client_lease hu hown.2 _ _ _
  | grantFailed | insert | closeNone => trivial

theorem opening_eq (hmove : ProxyMove config i h pc h' pc' events)
    (hopening : pc.opening = some id) :
    Inserted (log ++ events) id ∨ pc'.opening = some id := by
  cases hmove with
  | begin hbegins => cases hbegins <;> cases hopening
  | spawn => exact .inr hopening
  | insert =>
      obtain rfl := Option.some.inj hopening
      exact .inl ⟨i, by simp⟩
  | _ => cases hopening

theorem signalling_eq (hmove : ProxyMove config i h pc h' pc' events) (hsignalling : pc.signalling = some id) : id ∈ h'.signals := by
  cases hmove with
  | begin hbegins => cases hbegins <;> cases hsignalling
  | closeSignal | handleSignal =>
      obtain rfl := Option.some.inj hsignalling
      simp
  | _ => cases hsignalling

theorem closing_eq (hmove : ProxyMove config i h pc h' pc' events)
    (hown : pc.Own h log i) (hclosing : pc.closing = some l) :
    h'.landlord.Gone l ∨ pc'.closing = some l := by
  cases hmove with
  | begin hbegins => cases hbegins <;> cases hclosing
  | closeSignal => exact .inr hclosing
  | @closeCancel id lpc lpc' c landlord hstep =>
      obtain ⟨-, -, hnames⟩ := hown
      have hlease := LeaseMove.of_advance hstep
      cases lpc with
      | cancel leaseId =>
          obtain rfl := Option.some.inj hclosing
          cases hlease
          exact .inr rfl
      | cancelStore leaseId record =>
          obtain rfl := Option.some.inj hclosing
          cases hlease with
          | cancelled => exact .inl ⟨hnames, by simp⟩
          | cancelledUnknown =>
              have hgone : h.landlord.Gone leaseId := hnames
              exact .inl ⟨hgone.1, by simp⟩
      | _ => cases hclosing
  | _ => cases hclosing

theorem owed_afterCancel (id : String) (lpc : LeasePc) :
    (ProxyPc.afterCancel id lpc).owed = lpc.owed := by
  cases lpc <;> rfl

theorem owed_cases (hmove : ProxyMove config i h pc h' pc' events)
    (hown : pc.Own h log i)
    (howed : l ∈ pc.owed ∨ .lost i l ∈ events) :
    l ∈ h'.landlord.announced ∨ l ∈ pc'.owed := by
  have hlease : ∀ {lpc lpc' : LeasePc} {landlord : Landlord},
      LeaseMove config.lease h.landlord lpc landlord lpc' →
      lpc.Sound (ProxyLease log) h.landlord → lpc.NamesDrawn h.landlord →
      l ∈ lpc.owed ∨ .lost i l ∈ ProxyPc.lostEvents i h.landlord landlord lpc →
      l ∈ landlord.announced ∨ l ∈ lpc'.owed := by
    rintro lpc lpc' landlord hmove hsound hnames (howed | hlost)
    · exact hmove.owed_cases howed
    · obtain ⟨leaseId, heq, -, hlost⟩ := ProxyPc.mem_lostEvents.mp hlost
      obtain ⟨-, rfl⟩ := ProxyLog.lost.inj heq
      exact .inr (hmove.owes_lost hsound hnames hlost).2
  cases hmove with
  | closeCancel hstep =>
      rw [owed_afterCancel]
      exact hlease (LeaseMove.of_advance hstep) hown.2.1 hown.2.2 howed
  | lease hstep =>
      exact hlease (LeaseMove.of_advance hstep) hown.1 hown.2 howed
  | begin hbegins => cases hbegins <;> simp [ProxyPc.owed] at howed
  | _ => simp [ProxyPc.owed] at howed

theorem loc (hmove : ProxyMove config i h pc h' pc' events)
    (hglob : ProxyGlob h log n) (hloc : ProxyLoc h log i pc)
    (hopened : ∀ id cursor missed, pc = .handle id cursor missed →
      Inserted log id) : ProxyLoc h' (log ++ events) i pc' := by
  have hlater := hmove.later hloc.own
  refine ⟨hmove.own hglob hloc.own hopened, fun hmem => ?_, fun hmem => ?_,
    fun {j id l} hmem hgranted => ?_, fun hmem => ?_⟩
  · rcases List.mem_append.mp hmem with hmem | hmem
    · rcases hloc.granted hmem with hin | hopening
      · exact .inl (hin.mono hlater.past)
      · exact hmove.opening_eq hopening
    · exact .inr (hmove.of_granted hmem).2.2.1
  · rcases List.mem_append.mp hmem with hmem | hmem
    · rcases hloc.signals hmem with hsig | hsignalling
      · exact .inl (hlater.signals hsig)
      · exact .inl (hmove.signalling_eq hsignalling)
    · exact .inr (hmove.of_removed hmem).2
  · rcases List.mem_append.mp hgranted with hgranted | hgranted
    · rcases List.mem_append.mp hmem with hmem | hmem
      · rcases hloc.leases hmem hgranted with hgone | hclosing
        · exact .inl (hlater.landlord.gone l hgone)
        · exact hmove.closing_eq hloc.own hclosing
      · obtain ⟨⟨e, he, hwho⟩, -⟩ := hmove.of_removed hmem
        obtain ⟨-, ⟨k, hk⟩, -⟩ := hglob.mapped he
        rcases hwho with hclosing | ⟨cursor, missed, rfl⟩
        · rw [hclosing, (hglob.once hk hgranted).2]
          exact .inr rfl
        · obtain ⟨-, ⟨k', l', hk', hgone⟩, -⟩ := hloc.own
          rw [(hglob.once hgranted hk').2]
          exact .inl (hlater.landlord.gone l' hgone)
    · -- what is granted just now was not there to be removed
      exfalso
      have hfresh := (hmove.of_granted hgranted).2.2.2.1.1
      have hin : Inserted log id := by
        rcases List.mem_append.mp hmem with hmem | hmem
        · exact hglob.removed hmem
        · obtain ⟨⟨e, he, -⟩, -⟩ := hmove.of_removed hmem
          exact (hglob.mapped he).1
      obtain ⟨k, l', hk⟩ := hglob.known hin
      exact hfresh (hglob.uuids hk).1
  · rcases List.mem_append.mp hmem with hmem | hmem
    · rcases hloc.lost hmem with hann | howed
      · exact .inl (List.map_subset _ hlater.landlord.sent hann)
      · exact hmove.owed_cases hloc.own (.inl howed)
    · exact hmove.owed_cases hloc.own (.inr hmem)

theorem undisturbed (hmove : ProxyMove config i h pc h' pc' events)
    (hglob : ProxyGlob h log n) (hloc : ProxyLoc h log i pc)
    {other : ProxyPc} (hne : j ≠ i) (hother : ProxyLoc h log j other) :
    ProxyLoc h' (log ++ events) j other := by
  refine hother.later (hmove.later hloc.own) ?_ ?_ ?_
  · intro e he htask
    refine (List.mem_append.mp he).resolve_right fun he => hne ?_
    exact htask.symm.trans (hmove.task_of_mem he)
  · intro k id l hgranted hremoved
    rcases List.mem_append.mp hgranted with hgranted | hgranted
    · exact ⟨k, hgranted⟩
    · obtain ⟨k', l', hk'⟩ := hglob.known (hglob.removed hremoved)
      exact absurd (hglob.uuids hk').1 (hmove.of_granted hgranted).2.2.2.1.1
  · intro id hopening hin
    have hmine := hother.opens hopening
    rcases hmove.inserted_cases hin with hin | hopening'
    · exact hmine.2 hin
    · obtain ⟨l, hl⟩ := (hother.opens hopening).1
      obtain ⟨l', hl'⟩ := (hloc.opens hopening').1
      exact hne (hglob.once hl hl').1

end ProxyMove

/-! ## The clock and the listeners -/

theorem ProxyShared.ambient_cases {event : ProxyAmbient} {spawned : List ProxyPc}
    (hamb : h.ambient event = some (h', spawned))
    (hfails : ∀ id, event ≠ .acceptError id) :
    spawned = [] ∧
      ((∃ now, h' = { h with landlord := { h.landlord with now := now } }) ∨
      (∃ id ∈ h.signals,
        h' = { h with listeners := h.listeners.insert id .leaving } ∧
          ∃ st, h.listeners[id]? = some st) ∨
      ∃ id, h.listeners[id]? = some .leaving ∧
        h' = { h with
          listeners := h.listeners.erase id
          proxies := h.proxies.erase id }) := by
  cases event with
  | acceptError id => exact absurd rfl (hfails id)
  | tick d =>
      cases hamb
      exact ⟨rfl, .inl ⟨_, rfl⟩⟩
  | shutdown id =>
      simp only [ambient] at hamb
      split at hamb
      · next hsig =>
        cases hamb
        exact ⟨rfl, .inr (.inl ⟨id, hsig.2, rfl, _, hsig.1⟩)⟩
      · cases hamb
  | leave id =>
      simp only [ambient] at hamb
      split at hamb
      · next hleaving =>
        cases hamb
        exact ⟨rfl, .inr (.inr ⟨id, hleaving, rfl⟩)⟩
      · cases hamb

/-- A listener that ends was told to, and is not in the map any more. -/
theorem ProxyGlob.leaving_out (hglob : ProxyGlob h log n)
    (hleaving : h.listeners[id]? = some .leaving) : h.proxies[id]? = none := by
  cases he : h.proxies[id]? with
  | none => rfl
  | some e => exact absurd (hglob.leaving hleaving) (hglob.mapped he).2.2.2

/-- Only the listener of a proxy that has been signalled changes, and a listener
that leaves has been signalled. -/
theorem ProxyGlob.set_listeners (hglob : ProxyGlob h log n)
    {listeners : DashMap String ListenerState}
    (hkeep : ∀ id, id ∉ h.signals → listeners[id]? = h.listeners[id]?)
    (hleave : ∀ id : String, listeners[id]? = some .leaving → id ∈ h.signals)
    (hold : ∀ (id : String) st, listeners[id]? = some st →
      ∃ st', h.listeners[id]? = some st') :
    ProxyGlob { h with listeners := listeners } log n ∧
      ProxyLater h log { h with listeners := listeners } log := by
  refine ⟨{ hglob with
    mapped := ?_
    listening := ?_
    leaving := ?_ }, .refl _, List.prefix_rfl, List.Subset.refl _,
    fun _ _ _ hlease => hlease, List.Subset.refl _, fun _ _ hnone => hnone, ?_⟩
  · intro id e he
    obtain ⟨hin, hgranted, haccepting, hnot⟩ := hglob.mapped he
    exact ⟨hin, hgranted, (hkeep id hnot).trans haccepting, hnot⟩
  · intro id st hst
    obtain ⟨st', hst'⟩ := hold id st hst
    exact hglob.listening hst'
  · intro id hst
    exact hleave id hst
  · intro id hnot haccepting
    have hnot' : id ∉ h.signals := fun hmem => hnot (hglob.signals hmem)
    exact (hkeep id hnot').trans haccepting

theorem ProxyGlob.ambient (hglob : ProxyGlob h log n) {event : ProxyAmbient}
    {spawned : List ProxyPc} (hamb : h.ambient event = some (h', spawned))
    (hfails : ∀ id, event ≠ .acceptError id) :
    spawned = [] ∧ ProxyGlob h' log n ∧ ProxyLater h log h' log := by
  obtain ⟨hspawned, hcases⟩ := ProxyShared.ambient_cases hamb hfails
  refine ⟨hspawned, ?_⟩
  rcases hcases with ⟨now, rfl⟩ | ⟨id, hsig, rfl, st, hst⟩ | ⟨id, hleaving, rfl⟩
  · refine ⟨{ hglob with
      sound := ⟨hglob.sound.stored, hglob.sound.sent⟩ }, ?_⟩
    exact ⟨.of_eq rfl rfl rfl, List.prefix_rfl, List.Subset.refl _,
      fun _ _ _ hlease => hlease, List.Subset.refl _, fun _ _ hnone => hnone,
      fun _ _ hst => hst⟩
  · refine hglob.set_listeners (fun id' hnot => ?_) (fun id' hst' => ?_)
      fun id' st' hst' => ?_
    · rw [get_insert, if_neg]
      rintro rfl
      exact hnot hsig
    · rw [get_insert] at hst'
      split at hst'
      · next heq => exact heq ▸ hsig
      · exact hglob.leaving hst'
    · rw [get_insert] at hst'
      split at hst'
      · next heq => exact ⟨st, heq ▸ hst⟩
      · exact ⟨st', hst'⟩
  · have hproxies : h.proxies.erase id = h.proxies :=
      erase_of_get_none (hglob.leaving_out hleaving)
    rw [hproxies]
    have hstays : ∀ {id' : String} {st'}, (h.listeners.erase id)[id']? = some st' →
        h.listeners[id']? = some st' := by
      intro id' st' hst'
      rw [get_erase] at hst'
      split at hst'
      · cases hst'
      · exact hst'
    refine hglob.set_listeners (fun id' hnot => ?_)
      (fun id' hst' => hglob.leaving (hstays hst'))
      fun id' st' hst' => ⟨st', hstays hst'⟩
    rw [get_erase, if_neg]
    rintro rfl
    exact hnot (hglob.leaving hleaving)

/-! ## Every run -/

theorem ProxyLoc.of_entry {s : ProxyProc} (hentry : pc.entry = true)
    (hcancel : cancelsGranted s (.call pc) = true)
    (hglob : ProxyGlob s.shared s.log s.tasks.length) :
    ProxyLoc s.shared s.log s.tasks.length pc := by
  have hmine : ∀ e ∈ s.log, e.task ≠ s.tasks.length := fun e he =>
    (hglob.tasks e he).ne
  refine ⟨?_, fun hmem => absurd rfl (hmine _ hmem),
    fun hmem => absurd rfl (hmine _ hmem),
    fun hmem => absurd rfl (hmine _ hmem), fun hmem => absurd rfl (hmine _ hmem)⟩
  cases pc with
  | lease lpc =>
      cases lpc with
      | grant resourceId ttlSecs =>
          refine ⟨trivial, fun id heq => ?_⟩
          have hstrip : stripPrefix "proxy:" resourceId = some id :=
            stripPrefix_eq_some_iff.mpr heq
          simp [ProxyPc.entry, hstrip] at hentry
      | cancel l =>
          have hdrawn : l ∈ s.shared.landlord.uuids := of_decide_eq_true hcancel
          exact ⟨trivial, hdrawn⟩
      | renew | drainExpired => exact ⟨trivial, trivial⟩
      | _ => cases hentry
  | openProxy | close => trivial
  | _ => cases hentry

theorem inserted_of_staysOpen {s : ProxyProc} {choice : ProxyChoice}
    (hstays : staysOpen s (.step i choice) = true) (hpc : s.tasks[i]? = some pc)
    (hglob : ProxyGlob s.shared s.log s.tasks.length)
    (hloc : ∀ j pc, s.tasks[j]? = some pc → ProxyLoc s.shared s.log j pc)
    (id : String) (cursor missed : Nat) (heq : pc = .handle id cursor missed) :
    Inserted s.log id := by
  subst heq
  obtain ⟨-, ⟨j, l, hgranted, -⟩, -⟩ := (hloc i _ hpc).own
  have hlt := hglob.tasks _ hgranted
  have hj := List.getElem?_eq_getElem hlt
  refine ((hloc j _ hj).granted hgranted).resolve_right fun hopening => ?_
  simp only [staysOpen, hpc, List.all_eq_true, decide_eq_true_eq] at hstays
  exact hstays _ (List.getElem_mem hlt) hopening

theorem proxyKeeps (config : ProxyConfig) :
    (proxyProgram config).KeepsUnder
      (fun s act => cancelsGranted s act = true ∧ staysOpen s act = true)
      ProxyProc.new ProxyGlob ProxyLoc where
  init := by
    refine ⟨?_, ?_⟩
    · refine ⟨?_, ⟨?_, ?_⟩, ?_, ?_, ?_, ?_, ?_, ?_, ?_, ?_, ?_, ?_⟩
      all_goals
        simp [ProxyProc.new, ProxyShared.new, Landlord.new,
          InMemoryLeaseStore.new, Inserted]
    · intro i pc hpc
      obtain rfl : pc = .cascade 0 0 := by
        simpa [ProxyProc.new] using List.mem_of_getElem? hpc
      refine ⟨⟨Nat.zero_le _, ?_⟩, ?_, ?_, ?_, ?_⟩
      all_goals simp [ProxyProc.new]
  call := fun _ hcond hentry hglob =>
    ⟨{ hglob with tasks := fun e he => Nat.lt_succ_of_lt (hglob.tasks e he) },
      .of_entry hentry hcond.1 hglob⟩
  step := by
    intro s i pc choice h' pc' events _ hcond hpc hadv hglob hloc
    have hmove := ProxyMove.of_advance hadv
    have hlt := (List.getElem?_eq_some_iff.mp hpc).1
    have hmine := hloc i pc hpc
    have hopened := inserted_of_staysOpen hcond.2 hpc hglob hloc
    exact ⟨hmove.glob hglob hlt hmine.own, hmove.loc hglob hmine hopened,
      fun j pcj hne hj => hmove.undisturbed hglob hmine hne (hloc j pcj hj)⟩
  ambient := by
    intro s event h' spawned _ hcond hamb hglob hloc
    have hfails : ∀ id, event ≠ .acceptError id := by
      rintro id rfl
      cases hcond.2
    obtain ⟨rfl, hglob', hlater⟩ := hglob.ambient hamb hfails
    refine ⟨hglob', by simp, fun j pc hj => ?_⟩
    exact (hloc j pc hj).later hlater (fun _ he _ => he)
      (fun hgranted _ => ⟨_, hgranted⟩) fun id hopening =>
        ((hloc j pc hj).opens hopening).2

/-- In every run in which no socket of a listener fails and the cascade handles
no proxy that an `open` is about to enter in the map: when nothing is under way,
the lease of a proxy is in the store iff its listener runs iff it is in the map.
-/
theorem settled_proxies_agree {acts : List ProxyAct} {s : ProxyProc}
    (hrun : run (proxyProgram config).step ProxyProc.new acts = some s)
    (hcancels : StepsMeet (proxyProgram config).step
      (fun s act => cancelsGranted s act = true) ProxyProc.new acts)
    (hstays : StepsMeet (proxyProgram config).step
      (fun s act => staysOpen s act = true) ProxyProc.new acts)
    (hsettled : s.Settled) (id : String) :
    (s.shared.Leased id ↔ ∃ st, s.shared.listeners[id]? = some st) ∧
      ((∃ st, s.shared.listeners[id]? = some st) ↔
        ∃ e, s.shared.proxies[id]? = some e) := by
  obtain ⟨hglob, hloc⟩ := (proxyKeeps config).holds hrun
    (hcancels.and (fun _ _ hC hD => ⟨hC, hD⟩) hstays)
  exact hsettled.agree hglob hloc id

end Moves

/-! ## Two runs -/

def proxyDefaults : ProxyConfig where
  lease := .default
  capacity := 256

def upstream : RegistryEntry where
  capabilityId := "c"
  leaseId := "r"
  interface := "Greeter"
  attrs := ∅
  transport := some ⟨"grpc",
    ((∅ : Attrs).insert "host" "10.0.0.7").insert "port" "9000"⟩

/-- The call `i` opens the proxy `id` with the lease `l`. -/
def openAs (i : Nat) (id l : String) : List ProxyAct :=
  [.call (.openProxy ∅ 60), .step i (.resolved (.ok (some upstream))),
    .step i (.bound (.ok 9100)), .step i (.uuids id l), .step i .go, .step i .go]


/-- Two proxies are opened and one of them is closed; the cascade handles the
cancelled lease, and the listener its signal. -/
def openTwoCloseOne : List ProxyAct :=
  openAs 1 "p" "l" ++ openAs 2 "q" "m" ++
    [.call (.close "q"), .step 3 .go, .step 3 .go, .step 3 (.lease .go),
      .step 3 (.lease .go), .step 3 (.lease .go), .step 0 .go, .step 0 .go,
      .ambient (.shutdown "q"), .ambient (.leave "q")]

def oneLeftOpen : ProxyProc :=
  (run (proxyProgram proxyDefaults).step ProxyProc.new openTwoCloseOne).get
    (by decide +kernel)

theorem settled_proxies_agree_one_closed :
    (∃ st, oneLeftOpen.shared.listeners["p"]? = some st) ∧
      oneLeftOpen.shared.Leased "p" ∧
      (∀ st, oneLeftOpen.shared.listeners["q"]? ≠ some st) ∧
      ¬ oneLeftOpen.shared.Leased "q" := by
  have hrun : run (proxyProgram proxyDefaults).step ProxyProc.new
      openTwoCloseOne = some oneLeftOpen := (Option.some_get _).symm
  have hsettled : oneLeftOpen.Settled :=
    ⟨by decide +kernel, by decide +kernel, by decide +kernel⟩
  have hagree := settled_proxies_agree hrun (by decide +kernel)
    (by decide +kernel) hsettled
  have hp : oneLeftOpen.shared.listeners["p"]? = some .accepting := by
    decide +kernel
  have hq : oneLeftOpen.shared.listeners["q"]? = none := by decide +kernel
  refine ⟨⟨_, hp⟩, (hagree "p").1.mpr ⟨_, hp⟩, by simp [hq], fun hleased => ?_⟩
  obtain ⟨st, hst⟩ := (hagree "q").1.mp hleased
  rw [hq] at hst
  cases hst

/-- A proxy is opened, its socket fails and its listener ends; then the holder
renews the lease. -/
def renewAfterFailure : List ProxyAct :=
  openAs 1 "p" "l" ++
    [.ambient (.acceptError "p"), .ambient (.leave "p"),
      .call (.lease (.renew "l" 60)), .step 2 (.lease .go),
      .step 2 (.lease .go)]

def renewedDeadProxy : ProxyProc :=
  (run (proxyProgram proxyDefaults).step ProxyProc.new renewAfterFailure).get
    (by decide +kernel)

/-- The renewal succeeds, and nothing listens. -/
theorem dead_proxy_renewed :
    run (proxyProgram proxyDefaults).step ProxyProc.new renewAfterFailure =
        some renewedDeadProxy ∧
      renewedDeadProxy.Settled ∧
      (∃ record, renewedDeadProxy.tasks[2]? =
        some (.lease (.returned (.ok (some record))))) ∧
      renewedDeadProxy.shared.Leased "p" ∧
      renewedDeadProxy.shared.listeners["p"]? = none ∧
      renewedDeadProxy.shared.proxies["p"]? = none := by
  have hsettled : renewedDeadProxy.Settled :=
    ⟨by decide +kernel, by decide +kernel, by decide +kernel⟩
  let record := (renewedDeadProxy.shared.landlord.leases.leases["l"]?).get
    (by decide +kernel)
  refine ⟨(Option.some_get _).symm, hsettled, ⟨record, by decide +kernel⟩,
    ⟨"l", record, (Option.some_get _).symm, by decide +kernel⟩,
    by decide +kernel, by decide +kernel⟩

end Coordin8
