import Coordin8.Djinn.Handlers

/-!
# The Space enlisted more than once

Operations of one transaction that run side by side may each enlist the Space,
so the coordinator's list of participants may hold the Space's endpoint several
times.  With one entry the coordinator makes one call, `PrepareAndCommit`; with
more it makes a `Prepare` for each entry, and then a `Commit` for each vote to
commit.  This module follows the calls of such a commit to their handlers.
-/

namespace Coordin8

open Support Support.DashMap SpacePc

/-- The transaction of the record `r`, with the participants `ps`, is about to
be committed; nothing else is under way. -/
def Djinn.committing (t : TxnHost) (h : SpaceHost) (r : TransactionRecord)
    (ps : List ParticipantRecord) : Djinn where
  txn := ⟨{ t with txns := t.txns.create { r with participants := ps } },
    [.commit r.txnId], []⟩
  space := ⟨h, [], []⟩
  calls := []

/-- A step of the commit or of a call it makes.  No client calls, no clock
moves, nothing is swept or cascaded, and no call fails in transport. -/
def DjinnAct.ofCommit : DjinnAct → Bool
  | .txn (.step ..) | .space (.step ..) | .send .. | .deliver _ | .answer _ =>
      true
  | _ => false

/-- What the commit has returned. -/
def Djinn.result (s : Djinn) : Option TxnResult :=
  match (s.txn.tasks[0]? : Option TxnPc) with
  | some (.returned result) => some result
  | _ => none

/-! ## Calls and their handlers -/

/-- The handler of the call has returned. -/
def SpaceCall.Answered (call : SpaceCall) (s : SpaceProc) : Prop :=
  ∃ j answer, call.handler = some j ∧ s.tasks[j]? = some (.returned answer)

/-- All calls are for the transaction `x`; the tasks of the Space are their
handlers, of the given kinds. -/
structure Linked (h₀ : SpaceHost) (x : String) (kinds : List CallKind)
    (calls : List SpaceCall) (space : SpaceProc) : Prop where
  owned : ∀ call ∈ calls, call.task = 0 ∧ call.txnId = x
  unique : (calls.map fun call => (call.kind, call.slot)).Nodup
  handled : ∀ call ∈ calls, ∀ j, call.handler = some j →
    kinds[j]? = some call.kind
  known : ∀ j < kinds.length, ∃ call ∈ calls, call.handler = some j
  length : kinds.length = space.tasks.length
  serving : Serving h₀ x kinds space

/-- The calls of one batch: those sent are on record, and an answer has come in
only after the handler returned.  All answers are `a`. -/
structure Calling {ρ : Type*} (endpoint : String) (kind : CallKind) (a : ρ)
    (b : Batch String ρ) (s : Djinn) : Prop where
  targets : ∀ (k : Nat) (ep : String) (slot : Slot ρ),
    b[k]? = some (ep, slot) → ep = endpoint
  answers : ∀ (k : Nat) (ep : String) (r : ρ),
    b[k]? = some (ep, .done r) → r = a
  made : ∀ (k : Nat) (ep : String) (slot : Slot ρ),
    b[k]? = some (ep, slot) → slot ≠ .ready →
    ∃ call ∈ s.calls, call.kind = kind ∧ call.slot = k
  slots : ∀ call ∈ s.calls, call.kind = kind →
    ∃ ep, b[call.slot]? = some (ep, .sent) ∨
      (∃ r, b[call.slot]? = some (ep, .done r)) ∧ call.Answered s.space

section Calls

variable {config : DjinnConfig} {s s' : Djinn} {act : DjinnAct} {x : String}
  {h₀ : SpaceHost} {kinds : List CallKind} {kind : CallKind}

theorem SpaceCall.Answered.step {call : SpaceCall}
    (hanswered : call.Answered s.space) (hmove : DjinnMove config s act s') :
    call.Answered s'.space := by
  obtain ⟨j, answer, hj, hpc⟩ := hanswered
  exact ⟨j, answer, hj, hmove.returned hpc⟩

theorem mem_calls_deliver {calls : List SpaceCall} {c j : Nat}
    {call₀ call : SpaceCall} (hc : calls[c]? = some call₀)
    (hcall : call ∈ calls) :
    ∃ call' ∈ calls.set c { call₀ with handler := some j },
      call'.kind = call.kind ∧ call'.slot = call.slot ∧
        (call' = call ∨ call = call₀) := by
  obtain ⟨m, hm⟩ := List.mem_iff_getElem?.mp hcall
  by_cases hmc : c = m
  · subst hmc
    obtain rfl := Option.some.inj (hc.symm.trans hm)
    exact ⟨_, List.mem_set (List.getElem?_eq_some_iff.mp hc).1 _, rfl, rfl,
      Or.inr rfl⟩
  · exact ⟨call, List.mem_of_getElem? ((List.getElem?_set_ne hmc).trans hm), rfl,
      rfl, Or.inl rfl⟩

namespace Calling

variable {ρ : Type*} {endpoint : String} {a : ρ} {b : Batch String ρ}

theorem start {eps : List String} (heps : ∀ ep ∈ eps, ep = endpoint)
    (hcalls : ∀ call ∈ s.calls, call.kind ≠ kind) :
    Calling endpoint kind a (Batch.start eps) s where
  targets := by
    intro k ep slot hk
    obtain ⟨ep', hep', heq⟩ := List.mem_map.mp (List.mem_of_getElem? hk)
    obtain ⟨rfl, -⟩ := Prod.mk.inj heq
    exact heps ep' hep'
  answers := by
    intro k ep r hk
    obtain ⟨ep', -, heq⟩ := List.mem_map.mp (List.mem_of_getElem? hk)
    cases heq
  made := by
    intro k ep slot hk hne
    obtain ⟨ep', -, heq⟩ := List.mem_map.mp (List.mem_of_getElem? hk)
    exact absurd (Prod.mk.inj heq).2.symm hne
  slots := fun call hcall hkind => absurd hkind (hcalls call hcall)

theorem space (hb : Calling endpoint kind a b s)
    (hmove : DjinnMove config s act s') (hcalls : s'.calls = s.calls) :
    Calling endpoint kind a b s' where
  targets := hb.targets
  answers := hb.answers
  made := hcalls ▸ hb.made
  slots := by
    intro call hcall hkind
    rw [hcalls] at hcall
    obtain ⟨ep, hsent | ⟨hdone, hanswered⟩⟩ := hb.slots call hcall hkind
    · exact ⟨ep, Or.inl hsent⟩
    · exact ⟨ep, Or.inr ⟨hdone, hanswered.step hmove⟩⟩

theorem deliver {c j : Nat} {call₀ : SpaceCall}
    (hb : Calling endpoint kind a b s) (hmove : DjinnMove config s act s')
    (hc : s.calls[c]? = some call₀) (hnew : call₀.handler = none)
    (hcalls : s'.calls = s.calls.set c { call₀ with handler := some j }) :
    Calling endpoint kind a b s' where
  targets := hb.targets
  answers := hb.answers
  made := by
    intro k ep slot hk hne
    obtain ⟨call, hcall, hkind, hslot⟩ := hb.made k ep slot hk hne
    obtain ⟨call', hcall', hkind', hslot', -⟩ := mem_calls_deliver hc hcall
    exact ⟨call', hcalls ▸ hcall', hkind'.trans hkind, hslot'.trans hslot⟩
  slots := by
    intro call hcall hkind
    rw [hcalls] at hcall
    rcases List.mem_or_eq_of_mem_set hcall with hcall | rfl
    · obtain ⟨ep, hsent | ⟨hdone, hanswered⟩⟩ := hb.slots call hcall hkind
      · exact ⟨ep, Or.inl hsent⟩
      · exact ⟨ep, Or.inr ⟨hdone, hanswered.step hmove⟩⟩
    · obtain ⟨ep, hsent | ⟨-, j', answer, hj', -⟩⟩ :=
        hb.slots call₀ (List.mem_of_getElem? hc) hkind
      · exact ⟨ep, Or.inl hsent⟩
      · rw [hnew] at hj'
        cases hj'

theorem notMem_of_ready {k : Nat} {ep : String}
    (hb : Calling endpoint kind a b s) (hk : b[k]? = some (ep, .ready)) :
    ∀ call ∈ s.calls, call.kind = kind → call.slot ≠ k := by
  rintro call hcall hkind rfl
  obtain ⟨ep', hsent | ⟨⟨r, hdone⟩, -⟩⟩ := hb.slots call hcall hkind
  · rw [hsent] at hk
    cases hk
  · rw [hdone] at hk
    cases hk

theorem targets_set {k : Nat} {ep : String} {slot slot' : Slot ρ}
    (hb : Calling endpoint kind a b s) (hk : b[k]? = some (ep, slot))
    (k' : Nat) (ep' : String) (slot'' : Slot ρ)
    (hk' : (b.set k (ep, slot'))[k']? = some (ep', slot'')) : ep' = endpoint := by
  rcases getElem?_set_cases hk' with ⟨-, heq⟩ | ⟨-, hk'⟩
  · obtain ⟨rfl, -⟩ := Prod.mk.inj heq
    exact hb.targets k ep' slot hk
  · exact hb.targets k' ep' slot'' hk'

theorem send {k i : Nat} {ep : String} (hb : Calling endpoint kind a b s)
    (hk : b[k]? = some (ep, .ready)) (hspace : s'.space = s.space)
    (hcalls : s'.calls = s.calls ++ [⟨i, k, kind, x, none⟩]) :
    Calling endpoint kind a (b.set k (ep, .sent)) s' where
  targets := hb.targets_set hk
  answers := by
    intro k' ep' r hk'
    rcases getElem?_set_cases hk' with ⟨-, heq⟩ | ⟨-, hk'⟩
    · cases heq
    · exact hb.answers k' ep' r hk'
  made := by
    intro k' ep' slot hk' hne
    rw [hcalls]
    rcases getElem?_set_cases hk' with ⟨rfl, -⟩ | ⟨-, hk'⟩
    · exact ⟨_, List.mem_append_right _ (List.mem_singleton_self _), rfl, rfl⟩
    · obtain ⟨call, hcall, hkind⟩ := hb.made k' ep' slot hk' hne
      exact ⟨call, List.mem_append_left _ hcall, hkind⟩
  slots := by
    intro call hcall hkind
    rw [hcalls] at hcall
    rw [hspace]
    rcases List.mem_append.mp hcall with hcall | hcall
    · rw [List.getElem?_set_ne (hb.notMem_of_ready hk call hcall hkind).symm]
      exact hb.slots call hcall hkind
    · obtain rfl := List.mem_singleton.mp hcall
      exact ⟨ep, Or.inl (List.getElem?_set_self
        (List.getElem?_eq_some_iff.mp hk).1)⟩

theorem answer {ep : String} {call : SpaceCall}
    (hb : Calling endpoint kind a b s)
    (hunique : (s.calls.map fun call => (call.kind, call.slot)).Nodup)
    (hcall : call ∈ s.calls) (hkind : call.kind = kind)
    (hanswered : call.Answered s.space)
    (hk : b[call.slot]? = some (ep, .sent)) (hspace : s'.space = s.space)
    (hcalls : s'.calls = s.calls) :
    Calling endpoint kind a (b.set call.slot (ep, .done a)) s' where
  targets := hb.targets_set hk
  answers := by
    intro k' ep' r hk'
    rcases getElem?_set_cases hk' with ⟨-, heq⟩ | ⟨-, hk'⟩
    · exact Slot.done.inj (Prod.mk.inj heq).2
    · exact hb.answers k' ep' r hk'
  made := by
    intro k' ep' slot hk' hne
    rw [hcalls]
    rcases getElem?_set_cases hk' with ⟨rfl, -⟩ | ⟨-, hk'⟩
    · exact ⟨call, hcall, hkind, rfl⟩
    · exact hb.made k' ep' slot hk' hne
  slots := by
    intro call' hcall' hkind'
    rw [hcalls] at hcall'
    rw [hspace]
    by_cases hslot : call.slot = call'.slot
    · obtain rfl : call' = call := List.inj_on_of_nodup_map hunique hcall' hcall
        (by rw [hkind, hkind', hslot])
      exact ⟨ep, Or.inr ⟨⟨a, List.getElem?_set_self
        (List.getElem?_eq_some_iff.mp hk).1⟩, hanswered⟩⟩
    · rw [List.getElem?_set_ne hslot]
      exact hb.slots call' hcall' hkind'

theorem complete {rs : List (String × ρ)} (hb : Calling endpoint kind a b s)
    (hrs : Batch.results b = some rs) :
    rs = List.replicate b.length (endpoint, a) ∧
      (∀ call ∈ s.calls, call.kind = kind → call.Answered s.space) ∧
      (b ≠ [] → ∃ call ∈ s.calls, call.kind = kind) := by
  obtain rfl := Batch.eq_map_of_results hrs
  have hdone : ∀ (k : Nat) (p : String × ρ), rs[k]? = some p →
      (rs.map fun p => (p.1, Slot.done p.2))[k]? = some (p.1, .done p.2) := by
    intro k p hk
    rw [List.getElem?_map, hk]
    rfl
  refine ⟨?_, fun call hcall hkind => ?_, fun hne => ?_⟩
  · refine List.eq_replicate_iff.mpr ⟨by simp, fun p hp => ?_⟩
    obtain ⟨k, hk⟩ := List.mem_iff_getElem?.mp hp
    exact Prod.ext (hb.targets k _ _ (hdone k p hk))
      (hb.answers k _ _ (hdone k p hk))
  · obtain ⟨ep, hsent | ⟨-, hanswered⟩⟩ := hb.slots call hcall hkind
    · obtain ⟨p, -, heq⟩ := List.mem_map.mp (List.mem_of_getElem? hsent)
      cases heq
    · exact hanswered
  · obtain ⟨p, rs, rfl⟩ := List.exists_cons_of_ne_nil
      (fun h => hne (congrArg (List.map _) h))
    obtain ⟨call, hcall, hkind, -⟩ :=
      hb.made 0 _ _ (hdone 0 p rfl) (by simp)
    exact ⟨call, hcall, hkind⟩

end Calling

namespace Linked

variable {calls : List SpaceCall} {space space' : SpaceProc}

theorem kinds_of_calls (hl : Linked h₀ x kinds calls space)
    {P : CallKind → Prop} (hcalls : ∀ call ∈ calls, P call.kind) :
    ∀ kind ∈ kinds, P kind := by
  intro kind hkind
  obtain ⟨j, hj⟩ := List.mem_iff_getElem?.mp hkind
  obtain ⟨call, hcall, hhandler⟩ :=
    hl.known j (List.getElem?_eq_some_iff.mp hj).1
  rw [hl.handled call hcall j hhandler] at hj
  exact Option.some.inj hj ▸ hcalls call hcall

theorem returned {j : Nat} {pc : SpacePc} {P : CallKind → Prop}
    (hl : Linked h₀ x kinds calls space)
    (hanswered : ∀ call ∈ calls, P call.kind → call.Answered space)
    (hkind : kinds[j]? = some kind) (hP : P kind)
    (hpc : space.tasks[j]? = some pc) : ∃ answer, pc = .returned answer := by
  obtain ⟨call, hcall, hhandler⟩ :=
    hl.known j (List.getElem?_eq_some_iff.mp hkind).1
  rw [hl.handled call hcall j hhandler] at hkind
  obtain ⟨j', answer, hj', hreturned⟩ :=
    hanswered call hcall (Option.some.inj hkind ▸ hP)
  obtain rfl := Option.some.inj (hhandler.symm.trans hj')
  exact ⟨answer, Option.some.inj (hpc.symm.trans hreturned)⟩

theorem all_returned (hl : Linked h₀ x kinds calls space)
    (hanswered : ∀ call ∈ calls, call.Answered space) :
    ∀ pc ∈ space.tasks, ∃ answer, pc = .returned answer := by
  intro pc hpc
  obtain ⟨j, hj⟩ := List.mem_iff_getElem?.mp hpc
  have hlt := hl.length ▸ (List.getElem?_eq_some_iff.mp hj).1
  exact hl.returned (P := fun _ => True) (fun call hcall _ => hanswered call hcall)
    (List.getElem?_eq_getElem hlt) trivial hj

theorem outcome (hl : Linked h₀ x kinds calls space)
    (hanswered : ∀ call ∈ calls, call.Answered space)
    (hcommit : h₀.store.hasTxn x = true →
      ∃ call ∈ calls, call.kind ≠ .prepare) :
    space.shared = h₀.committed x := by
  refine hl.serving.outcome hl.length (hl.all_returned hanswered) fun hhas => ?_
  obtain ⟨call, hcall, hne⟩ := hcommit hhas
  obtain ⟨j, answer, hj, -⟩ := hanswered call hcall
  exact ⟨call.kind, List.mem_of_getElem? (hl.handled call hcall j hj), hne⟩

theorem space_step {j : Nat} {choice : SpaceChoice}
    (hl : Linked h₀ x kinds calls space)
    (hstep : (spaceProgram config.space).step space (.step j choice) =
      some space') : Linked h₀ x kinds calls space' :=
  have hserved := hl.serving.step hl.length hstep
  { hl with
    length := hl.length.trans hserved.2.1.symm
    serving := hserved.1 }

theorem send {k : Nat} (hl : Linked h₀ x kinds calls space)
    (hnew : ∀ call ∈ calls, call.kind = kind → call.slot ≠ k) :
    Linked h₀ x kinds (calls ++ [⟨0, k, kind, x, none⟩]) space where
  owned := by
    intro call hcall
    rcases List.mem_append.mp hcall with hcall | hcall
    · exact hl.owned call hcall
    · obtain rfl := List.mem_singleton.mp hcall
      exact ⟨rfl, rfl⟩
  unique := by
    rw [List.map_append, List.map_singleton]
    refine List.nodup_append.mpr ⟨hl.unique, List.nodup_singleton _, ?_⟩
    rintro p hp q hq rfl
    obtain ⟨call, hcall, rfl⟩ := List.mem_map.mp hp
    obtain ⟨hkind, hslot⟩ := Prod.mk.inj (List.mem_singleton.mp hq)
    exact hnew call hcall hkind hslot
  handled := by
    intro call hcall j hj
    rcases List.mem_append.mp hcall with hcall | hcall
    · exact hl.handled call hcall j hj
    · obtain rfl := List.mem_singleton.mp hcall
      cases hj
  known := by
    intro j hj
    obtain ⟨call, hcall, hhandler⟩ := hl.known j hj
    exact ⟨call, List.mem_append_left _ hcall, hhandler⟩
  length := hl.length
  serving := hl.serving

theorem deliver {c : Nat} {call₀ : SpaceCall} {pc : SpacePc}
    (hl : Linked h₀ x kinds calls space) (hc : calls[c]? = some call₀)
    (hnew : call₀.handler = none)
    (hserving : Serving h₀ x (kinds ++ [call₀.kind])
      { space with tasks := space.tasks ++ [pc] }) :
    Linked h₀ x (kinds ++ [call₀.kind])
      (calls.set c { call₀ with handler := some space.tasks.length })
      { space with tasks := space.tasks ++ [pc] } where
  owned := by
    intro call hcall
    rcases List.mem_or_eq_of_mem_set hcall with hcall | rfl
    · exact hl.owned call hcall
    · exact hl.owned call₀ (List.mem_of_getElem? hc)
  unique := by
    have hsame : (calls.set c { call₀ with
        handler := some space.tasks.length }).map
          (fun call => (call.kind, call.slot)) =
        calls.map fun call => (call.kind, call.slot) := by
      refine List.ext_getElem? fun m => ?_
      rw [List.getElem?_map, List.getElem?_map, List.getElem?_set]
      split
      · next hm =>
        subst hm
        rw [if_pos (List.getElem?_eq_some_iff.mp hc).1, hc]
        rfl
      · rfl
    rw [hsame]
    exact hl.unique
  handled := by
    intro call hcall j hj
    rcases List.mem_or_eq_of_mem_set hcall with hcall | rfl
    · have hkind := hl.handled call hcall j hj
      rw [List.getElem?_append_left (List.getElem?_eq_some_iff.mp hkind).1]
      exact hkind
    · obtain rfl := Option.some.inj hj
      rw [← hl.length]
      exact List.getElem?_concat_length
  known := by
    intro j hj
    rw [List.length_append, List.length_singleton] at hj
    rcases Nat.lt_or_eq_of_le (Nat.le_of_lt_succ hj) with hlt | rfl
    · obtain ⟨call, hcall, hhandler⟩ := hl.known j hlt
      obtain ⟨call', hcall', -, -, rfl | rfl⟩ :=
        mem_calls_deliver (j := space.tasks.length) hc hcall
      · exact ⟨call', hcall', hhandler⟩
      · rw [hnew] at hhandler
        cases hhandler
    · exact ⟨_, List.mem_set (List.getElem?_eq_some_iff.mp hc).1 _,
        congrArg some hl.length.symm⟩
  length := by simp [hl.length]
  serving := hserving

end Linked

end Calls

end Coordin8
