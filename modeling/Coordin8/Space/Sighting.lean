import Coordin8.Space.Wakeup

/-!
# What a blocking read returns

A `read` returns what its search finds in the store, or what it receives on the
broadcast.  It does not look at the store again for a tuple it has received, as
`take` does.  Between the moment a tuple becomes visible and its broadcast
somebody may take the tuple, and a `read` that starts in between returns a tuple
that was gone before it started.
-/

namespace Coordin8

open Support Support.DashMap SpacePc

/-- The call is a `read` outside any transaction that has subscribed, and would
return the tuple `r`. -/
def SpacePc.listens (r : TupleRecord) : SpacePc → Bool
  | .query .read q _ | .wait .read q _ =>
      decide (q.txnId = none ∧ q.Matches r)
  | _ => false

/-- A tuple that is broadcast while a `read` outside any transaction listens for
it is visible at that moment. -/
def SendsStanding (s : SpaceProc) : SpaceAct → Prop
  | .step i _ =>
      ∀ r ∈ (s.tasks[i]?).bind sending,
        s.shared.store.tuples[r.tupleId]? = some r ∨
          ∀ pc ∈ s.tasks, pc.listens r = false
  | _ => True

instance (s : SpaceProc) : ∀ act, Decidable (SendsStanding s act)
  | .step _ _ => inferInstanceAs (Decidable (∀ _ ∈ _, _ ∨ ∀ _ ∈ _, _ = _))
  | .call _ | .ambient _ => .isTrue trivial

/-- The record is visible at some moment of the run `acts` from `s`, its ends
included. -/
def Sighted (config : SpaceConfig) (s : SpaceProc) (acts : List SpaceAct)
    (r : TupleRecord) : Prop :=
  ∃ as m, as <+: acts ∧ run (spaceProgram config).step s as = some m ∧
    ∃ t : String, m.shared.store.tuples[t]? = some r

/-- Where the `read` for `q` stands: all it may still receive, and what it
returns, satisfies `P`. -/
inductive ReaderAt (q : Query) (P : TupleRecord → Prop)
    (tupleTx : List TupleRecord) : SpacePc → Prop where
  | subscribe : ReaderAt q P tupleTx (.subscribe .read q)
  | query {c : Nat} (hle : c ≤ tupleTx.length)
      (hcoming : ∀ r ∈ tupleTx.drop c, q.Matches r → P r) :
      ReaderAt q P tupleTx (.query .read q c)
  | wait {c : Nat} (hle : c ≤ tupleTx.length)
      (hcoming : ∀ r ∈ tupleTx.drop c, q.Matches r → P r) :
      ReaderAt q P tupleTx (.wait .read q c)
  | found {r : TupleRecord} (hr : P r) :
      ReaderAt q P tupleTx (.returned (.ok (.tuple (some r))))
  | nothing : ReaderAt q P tupleTx (.returned (.ok (.tuple none)))

section Reader

variable {config : SpaceConfig} {q : Query} {P P' : TupleRecord → Prop}
  {tupleTx tupleTx' : List TupleRecord} {i : Nat} {h h' : SpaceHost}
  {pc pc' : SpacePc} {events : List SpaceEvent} {c : Nat}

theorem ReaderAt.mono (hat : ReaderAt q P tupleTx pc)
    (hweaken : ∀ r, P r → P' r) : ReaderAt q P' tupleTx pc := by
  cases hat with
  | subscribe => exact .subscribe
  | query hle hcoming =>
      exact .query hle fun r hr hmatch => hweaken r (hcoming r hr hmatch)
  | wait hle hcoming =>
      exact .wait hle fun r hr hmatch => hweaken r (hcoming r hr hmatch)
  | found hr => exact .found (hweaken _ hr)
  | nothing => exact .nothing

theorem ReaderAt.send {r : TupleRecord} (hq : q.txnId = none)
    (hat : ReaderAt q P tupleTx pc) (hr : pc.listens r = true → P r) :
    ReaderAt q P (tupleTx ++ [r]) pc := by
  have hmore : ∀ {c : Nat}, c ≤ tupleTx.length →
      (∀ r ∈ tupleTx.drop c, q.Matches r → P r) → (q.Matches r → P r) →
      c ≤ (tupleTx ++ [r]).length ∧
        ∀ r' ∈ (tupleTx ++ [r]).drop c, q.Matches r' → P r' := by
    intro c hle hcoming hnew
    refine ⟨by simp; omega, fun r' hr' hmatch => ?_⟩
    rw [List.drop_append_of_le_length hle] at hr'
    rcases List.mem_append.mp hr' with hold | hlast
    · exact hcoming r' hold hmatch
    · obtain rfl := List.mem_singleton.mp hlast
      exact hnew hmatch
  cases hat with
  | subscribe => exact .subscribe
  | query hle hcoming =>
      obtain ⟨hle', hcoming'⟩ := hmore hle hcoming fun hmatch =>
        hr (by simp [listens, hq, hmatch])
      exact .query hle' hcoming'
  | wait hle hcoming =>
      obtain ⟨hle', hcoming'⟩ := hmore hle hcoming fun hmatch =>
        hr (by simp [listens, hq, hmatch])
      exact .wait hle' hcoming'
  | found hfound => exact .found hfound
  | nothing => exact .nothing

theorem InMemorySpaceStore.get_of_findMatch {s : InMemorySpaceStore}
    {it : TupleIteration} {template : Attrs} {r : TupleRecord}
    (hfind : s.findMatch it template none = some r) :
    ∃ t : String, s.tuples[t]? = some r := by
  simp only [findMatch] at hfind
  split at hfind
  · next entry hentry =>
    obtain rfl := Option.some.inj hfind
    exact ⟨entry.1, it.mem_entries.mp (List.mem_of_find?_eq_some hentry)⟩
  · cases hfind

theorem ReaderAt.move (hq : q.txnId = none) (hat : ReaderAt q P h.tupleTx pc)
    (hmove : SpaceMove config i h pc h' pc' events)
    (hnow : ∀ (t : String) r, h.store.tuples[t]? = some r → P r) :
    ReaderAt q P h'.tupleTx pc' := by
  cases hat with
  | subscribe =>
      cases hmove with
      | store hcalls => cases hcalls
      | drawFailed hpc | lease hpc => cases hpc
      | pass hpasses =>
          cases hpasses with
          | subscribed => exact .query (Nat.le_refl _) (by simp)
  | @query c hle hcoming =>
      cases hmove with
      | @store _ _ op hcalls =>
          generalize hresult : (h.store.exec op).1 = result at hcalls
          cases hcalls with
          | findMatch it _ _ found =>
              have hfound := SpaceResult.tuple.inj hresult
              cases found with
              | some r =>
                  rw [hq] at hfound
                  obtain ⟨t, ht⟩ := InMemorySpaceStore.get_of_findMatch hfound
                  exact .found (hnow t r ht)
              | none =>
                  change ReaderAt q P h.tupleTx (if q.wait then _ else _)
                  split
                  · exact .wait hle hcoming
                  · exact .nothing
      | drawFailed hpc | lease hpc => cases hpc
      | pass hpasses => cases hpasses
  | @wait c hle hcoming =>
      cases hmove with
      | store hcalls => cases hcalls
      | drawFailed hpc | lease hpc => cases hpc
      | pass hpasses =>
          cases hpasses with
          | timeout => exact .nothing
          | @received _ _ _ c' received hrecv =>
              obtain ⟨hforward, hle'⟩ := recv_bounds hrecv
              have hcoming' : ∀ r ∈ h.tupleTx.drop c', q.Matches r → P r :=
                fun r hr => hcoming r
                  ((List.drop_sublist_drop_left _ hforward).subset hr)
              unfold afterRecv
              split
              · next r =>
                split
                · next hmatch =>
                  have hget := (recv_eq_message hrecv).1
                  have hr : r ∈ h.tupleTx.drop c :=
                    List.mem_iff_getElem?.mpr ⟨0, by simpa using hget⟩
                  exact .found (hcoming r hr hmatch)
                · exact .wait hle' hcoming'
              · exact .query hle' hcoming'
  | found | nothing =>
      cases hmove with
      | store hcalls => cases hcalls
      | drawFailed hpc | lease hpc => cases hpc
      | pass hpasses => cases hpasses

end Reader

/-! ## Whole calls -/

section Sighted

variable {config : SpaceConfig} {s s' m : SpaceProc} {acts : List SpaceAct}
  {act : SpaceAct} {q : Query} {i j : Nat} {r : TupleRecord}

theorem Sighted.snoc (act : SpaceAct) (hsighted : Sighted config s acts r) :
    Sighted config s (acts ++ [act]) r := by
  obtain ⟨as, m, has, hrun, hvisible⟩ := hsighted
  exact ⟨as, m, has.trans (List.prefix_append _ _), hrun, hvisible⟩

theorem ReaderAt.step {pc : SpacePc} (hq : q.txnId = none)
    (hrun : run (spaceProgram config).step s acts = some m)
    (hpc : m.tasks[i]? = some pc)
    (hat : ReaderAt q (Sighted config s acts) m.shared.tupleTx pc)
    (hstanding : SendsStanding m act)
    (hstep : (spaceProgram config).step m act = some s') :
    ∃ pc', s'.tasks[i]? = some pc' ∧
      ReaderAt q (Sighted config s (acts ++ [act])) s'.shared.tupleTx pc' := by
  have hnow : ∀ (t : String) r, m.shared.store.tuples[t]? = some r →
      Sighted config s (acts ++ [act]) r :=
    fun t r ht => ⟨acts, m, List.prefix_append _ _, hrun, t, ht⟩
  have hat' := hat.mono fun r hr => Sighted.snoc act hr
  have hi : i < m.tasks.length := (List.getElem?_eq_some_iff.mp hpc).1
  cases act with
  | call pc₁ =>
      obtain ⟨-, rfl⟩ := Program.step_call.mp hstep
      exact ⟨pc, (List.getElem?_append_left hi).trans hpc, hat'⟩
  | ambient event =>
      obtain ⟨shared, spawned, hamb, rfl⟩ := Program.step_ambient.mp hstep
      obtain ⟨-, -, -, htx, -, -⟩ := SpaceHost.ambient_cases hamb
      exact ⟨pc, (List.getElem?_append_left hi).trans hpc, htx ▸ hat'⟩
  | step j choice =>
      obtain ⟨pcj, shared, pcj', events, hj, hadv, rfl⟩ :=
        Program.step_step.mp hstep
      have hmove := SpaceMove.of_advance hadv
      by_cases heq : j = i
      · subst heq
        obtain rfl := Option.some.inj (hpc.symm.trans hj)
        exact ⟨pcj', List.getElem?_set_self hi, hat'.move hq hmove hnow⟩
      · refine ⟨pc, (List.getElem?_set_ne heq).trans hpc, ?_⟩
        -- Another task moves; it may send a tuple the reader listens for.
        rcases hmove.tupleTx_cases with hsame | ⟨r, hr, hsent⟩
        · exact hsame ▸ hat'
        · dsimp only
          rw [hsent]
          refine hat'.send hq fun hlistens => ?_
          rcases hstanding r (by simp [hj, hr]) with hvisible | hdeaf
          · exact hnow r.tupleId r hvisible
          · have hnone := hdeaf pc (List.mem_of_getElem? hpc)
            rw [hlistens] at hnone
            cases hnone

theorem ReaderAt.run (hq : q.txnId = none)
    (hpc : s.tasks[i]? = some (.subscribe .read q))
    (hrun : Support.run (spaceProgram config).step s acts = some m)
    (hmeet : StepsMeet (spaceProgram config).step SendsStanding s acts) :
    ∃ pc, m.tasks[i]? = some pc ∧
      ReaderAt q (Sighted config s acts) m.shared.tupleTx pc := by
  refine run_invariant (P := fun acts m =>
    StepsMeet (spaceProgram config).step SendsStanding s acts →
      ∃ pc, m.tasks[i]? = some pc ∧
        ReaderAt q (Sighted config s acts) m.shared.tupleTx pc)
    (fun _ => ⟨_, hpc, .subscribe⟩) ?_ hrun hmeet
  intro acts m act m' hrun ih hstep hmeet
  obtain ⟨hmeet, hstanding, -⟩ := (stepsMeet_append hrun).mp hmeet
  obtain ⟨pc, hpc, hat⟩ := ih hmeet
  exact hat.step hq hrun hpc hstanding hstep

end Sighted

/-- A `read` outside any transaction that returns a tuple: if every tuple that is
broadcast during the call, while a `read` listens for it, is visible at that
moment, then the tuple returned was visible at some moment of the call. -/
theorem read_sighted {config : SpaceConfig} {during : List SpaceAct}
    {s₀ s₁ s : SpaceProc} {q : Query} {r : TupleRecord}
    (hcall : (spaceProgram config).step s₀ (.call (.subscribe .read q)) =
      some s₁)
    (hq : q.txnId = none)
    (hduring : run (spaceProgram config).step s₁ during = some s)
    (hreturn : s.tasks[s₀.tasks.length]? =
      some (.returned (.ok (.tuple (some r)))))
    (hmeet : StepsMeet (spaceProgram config).step SendsStanding s₁ during) :
    ∃ as m, as <+: during ∧ run (spaceProgram config).step s₁ as = some m ∧
      ∃ t : String, m.shared.store.tuples[t]? = some r := by
  obtain ⟨-, rfl⟩ := Program.step_call.mp hcall
  obtain ⟨pc, hpc, hat⟩ := ReaderAt.run (i := s₀.tasks.length) hq (by simp)
    hduring hmeet
  obtain rfl := Option.some.inj (hreturn.symm.trans hpc)
  cases hat with
  | found hr => exact hr

/-- Soup is served and taken before it is announced. -/
def soupTaken : List SpaceAct :=
  [.call (.write (dish "soup" none)), .step 0 (.uuids "1" "l"), .step 0 .go,
    .call (.take (soup none)), .step 1 .go, .step 1 .go,
    .step 1 (.order .sorted)]

/-- A read finds no soup; then the announcement comes, and the read returns. -/
def soupAnnounced : List SpaceAct :=
  [.step 2 .go, .step 2 (.order .sorted), .step 0 .go, .step 2 .go]

/-- The soup that the read returns was gone before the read started. -/
theorem read_of_gone_tuple :
    ∃ s₀ s₁ s r,
      run (spaceProgram quietSpace).step SpaceProc.new soupTaken = some s₀ ∧
      (spaceProgram quietSpace).step s₀ (.call (.subscribe .read (soup none))) =
        some s₁ ∧
      run (spaceProgram quietSpace).step s₁ soupAnnounced = some s ∧
      s.tasks[s₀.tasks.length]? = some (.returned (.ok (.tuple (some r)))) ∧
      ∀ as m, as <+: soupAnnounced →
        run (spaceProgram quietSpace).step s₁ as = some m →
        ∀ t : String, m.shared.store.tuples[t]? ≠ some r := by
  refine ⟨_, _, _, _, rfl, rfl, rfl, rfl, ?_⟩
  intro as m has hrun t ht
  have hempty : (soupAnnounced.inits.all fun as =>
      (run (spaceProgram quietSpace).step SpaceProc.new
        (soupTaken ++ [.call (.subscribe .read (soup none))] ++ as)).all
          fun m => m.shared.store.tuples.isEmpty) = true := by
    decide
  have hm := List.all_eq_true.mp hempty as ((List.mem_inits _ _).mpr has)
  rw [run_append] at hm
  rw [show run (spaceProgram quietSpace).step SpaceProc.new
    (soupTaken ++ [.call (.subscribe .read (soup none))]) = some _ from rfl,
    Option.bind_some, hrun, Option.all_some, Std.ExtTreeMap.isEmpty_iff] at hm
  simp [hm] at ht

/-- A read waits for soup, which is served and announced. -/
def soupServed : List SpaceAct :=
  [.step 0 .go, .step 0 (.order .sorted), .call (.write (dish "soup" none)),
    .step 1 (.uuids "1" "l"), .step 1 .go, .step 1 .go, .step 0 .go]

def soupAwaited : SpaceProc :=
  ((spaceProgram quietSpace).step SpaceProc.new
    (.call (.subscribe .read (soup none)))).get (by decide)

theorem soupServed_meets :
    StepsMeet (spaceProgram quietSpace).step SendsStanding soupAwaited
      soupServed := by
  decide +kernel

theorem read_sighted_soup :
    ∃ s r, run (spaceProgram quietSpace).step soupAwaited soupServed = some s ∧
      s.tasks[0]? = some (.returned (.ok (.tuple (some r)))) ∧
      ∃ as m, as <+: soupServed ∧
        run (spaceProgram quietSpace).step soupAwaited as = some m ∧
        ∃ t : String, m.shared.store.tuples[t]? = some r :=
  ⟨_, _, rfl, rfl, read_sighted
    (show (spaceProgram quietSpace).step SpaceProc.new
      (.call (.subscribe .read (soup none))) = some soupAwaited from rfl)
    rfl rfl rfl soupServed_meets⟩

end Coordin8
