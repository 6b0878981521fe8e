import Coordin8.Core.Records
import Coordin8.Dynamo.Service

/-!
# Calls that make several requests

A provider's operation is a client of DynamoDB: a sequence of requests with an
error exit after each.  This module has the ways in which the providers make
requests, and for each of them the rule by which a call is proved, when it runs
alone and any request may fail.
-/

namespace Coordin8.Dynamo

open Support

variable {T S : Type}

/-- An operation of a provider. -/
abbrev Call (T S : Type) := Fallible (Request T S) Request.Answer Error

/-- Make a request and look at its answer. -/
def attempt (r : Request T S) : Call T S r.Answer :=
  ExceptT.lift (Client.ask r)

/-- `?` on a value computed without a request. -/
def propagate {α : Type} (x : Except Error α) : Call T S α :=
  ExceptT.mk (pure x)

/-- The error of a request that failed. -/
def failed (what text : String) : Error :=
  .storage (what ++ " failed: " ++ text)

/-- Make a request; if it fails, so does the call. -/
def send (r : Request T S) (what : String) : Call T S r.Output := do
  match ← attempt r with
  | .ok output => pure output
  | .error e => throw (failed what e.display)

/-- A loop over the pages of a scan or a query: `onPage` takes each page into
the loop's variable, and the loop goes on while the variable asks for `more` and
there is a key to go on from. -/
def readPages {β : Type} (t : T) (selection : Selection S) (what : String)
    (limit : β → Option Nat) (more : β → Bool)
    (onPage : β → List Item → Call T S β) (b : β) : Call T S β :=
  ExceptT.mk (Client.loop
    (fun loop : β × Option (Key S) =>
      .readPage t selection loop.2 (limit loop.1))
    (fun loop answer =>
      match answer with
      | .error e => .ret (.inr (.error (failed what e.display)))
      | .ok page =>
          (onPage loop.1 page.items).run.bind fun
            | .error e => .ret (.inr (.error e))
            | .ok b =>
                match page.lastKey with
                | some k =>
                    if more b then .ret (.inl (b, some k))
                    else .ret (.inr (.ok b))
                | none => .ret (.inr (.ok b)))
    (b, none))

/-- Read all pages of a scan or a query. -/
def readAll (t : T) (selection : Selection S) (what : String) :
    Call T S (List Item) :=
  readPages t selection what (fun _ => none) (fun _ => true)
    (fun read items => pure (read ++ items)) []

/-! ## Rules -/

variable {r : Request T S} {what : String} {t : T} {selection : Selection S}

section Contracts

open Fallible

variable {Γ : Type*} {C : Client.Contract (Request T S) Request.Answer Γ}
  {total : Bool} {g : Γ} {α : Type} {E : Error → Γ → Prop}

theorem yields_propagate {x : Except Error α} {Q : α → Γ → Prop}
    (hok : ∀ a, x = .ok a → Q a g) (herror : ∀ e, x = .error e → E e g) :
    Yields C total (propagate x) Q E g := by
  cases x with
  | ok a => exact hok a rfl
  | error e => exact herror e rfl

theorem yields_attempt_of {Q : r.Answer → Γ → Prop}
    (hallowed : C.allowed g r) (hanswer : ∀ a g', C.answers g r a g' → Q a g') :
    Yields C total (attempt r) Q E g :=
  ⟨hallowed, hanswer⟩

theorem yields_send_of
    {Q : r.Output → Γ → Prop} (hallowed : C.allowed g r)
    (hok : ∀ output g', C.answers g r (.ok output) g' → Q output g')
    (herror : ∀ e g', C.answers g r (.error e) g' →
      E (failed what e.display) g') :
    Yields C total (send r what) Q E g := by
  refine yields_bind (yields_attempt_of hallowed fun a g' ha => ?_)
  cases a with
  | ok output => exact yields_pure (hok output g' ha)
  | error e => exact yields_throw (herror e g' ha)

/-- A loop over pages keeps an invariant of its variable and of the key it goes
on from; in a `total` proof its rank goes down. -/
theorem yields_readPages {β : Type} {limit : β → Option Nat} {more : β → Bool}
    {onPage : β → List Item → Call T S β} {Q : β → Γ → Prop}
    (Inv : Nat → β → Option (Key S) → Γ → Prop)
    (hallowed : ∀ n b start g, Inv n b start g →
      C.allowed g (.readPage t selection start (limit b)))
    (herror : ∀ n b start g e g', Inv n b start g →
      C.answers g (.readPage t selection start (limit b)) (.error e) g' →
      E (failed what e.display) g')
    (hpage : ∀ n b start g page g', Inv n b start g →
      C.answers g (.readPage t selection start (limit b)) (.ok page) g' →
      Yields C total (onPage b page.items) (fun b' g'' =>
        (∀ k, page.lastKey = some k → more b' = true →
          ∃ m, (total = true → m < n) ∧ Inv m b' (some k) g'') ∧
        (page.lastKey = none ∨ more b' = false → Q b' g'')) E g')
    {n : Nat} {b : β} (hinit : Inv n b none g) :
    Yields C total (readPages t selection what limit more onPage b) Q E g := by
  refine ⟨fun n loop g => Inv n loop.1 loop.2 g, ⟨n, hinit⟩, ?_⟩
  rintro n ⟨b, start⟩ g hInv
  refine ⟨hallowed n b start g hInv, fun answer g' hanswer => ?_⟩
  cases answer with
  | error e => exact herror n b start g e g' hInv hanswer
  | ok page =>
      refine Client.meets_bind
        (Client.meets_mono (hpage n b start g page g' hInv hanswer) ?_)
      intro d g'' hd
      cases d with
      | error e => exact hd
      | ok b' =>
          obtain ⟨hgo, hend⟩ := hd
          cases hlast : page.lastKey with
          | none => exact hend (Or.inl hlast)
          | some k =>
              by_cases hmore : more b' = true
              · simp only [if_pos hmore]
                exact hgo k hlast hmore
              · simp only [if_neg hmore]
                exact hend (Or.inr (Bool.eq_false_iff.mpr hmore))

theorem yields_readAll_of
    {Q : List Item → Γ → Prop}
    (hallowed : ∀ start, C.allowed g (.readPage t selection start none))
    (hanswer : ∀ start a g', C.answers g (.readPage t selection start none) a g' →
      g' = g)
    (hok : ∀ items, Q items g) (herror : ∀ e, E e g) :
    Yields C false (readAll t selection what) Q E g := by
  refine yields_readPages (fun _ _ _ g' => g' = g) ?_ ?_ ?_ (n := 0) rfl
  · rintro n items start g' rfl
    exact hallowed start
  · rintro n items start g' e g'' rfl ha
    exact hanswer start _ g'' ha ▸ herror _
  · rintro n items start g' page g'' rfl ha
    obtain rfl := hanswer start _ g'' ha
    exact yields_pure ⟨fun k _ _ => ⟨0, by simp, rfl⟩, fun _ => hok _⟩

end Contracts

section Rules

open Fallible

variable [Ord S] [Std.TransOrd S] [Std.LawfulEqOrd S] [DecidableEq S]
  [DecidableEq T] {schema : Schema T S} {order : T → Listing (Key S) Item}
  {ok : Choice → Prop} {total : Bool} {s : Tables schema}
  {last : Option (Request T S × Choice)} {α : Type}

/-- The tables, and the last request made. -/
abbrev State (schema : Schema T S) :=
  Tables schema × Option (Request T S × Choice)

/-- The call runs alone, with choices that are `ok`. -/
abbrev alone (schema : Schema T S) (order : T → Listing (Key S) Item)
    (ok : Choice → Prop) :
    Client.Contract (Request T S) Request.Answer (State schema) :=
  Client.alone (Client.noting (serve order)) ok

variable {E : Error → State schema → Prop}

theorem yields_attempt
    {Q : r.Answer → State schema → Prop}
    (h : ∀ i, ok i → Q (serve order s r i).2 ((serve order s r i).1, some (r, i))) :
    Yields (alone schema order ok) total (attempt r) Q E (s, last) := by
  refine ⟨trivial, ?_⟩
  rintro a g ⟨i, hi, hserve⟩
  obtain ⟨rfl, rfl⟩ := Prod.mk.inj hserve
  exact h i hi

theorem yields_send
    {Q : r.Output → State schema → Prop}
    (hfault : ∀ i text, ok i → i.fault = some text →
      E (failed what text) (s, some (r, i)))
    (hperform : ∀ i, ok i → i.fault = none →
      match perform order s i r with
      | (s', .ok output) => Q output (s', some (r, i))
      | (s', .error e) => E (failed what e.display) (s', some (r, i))) :
    Yields (alone schema order ok) total (send r what) Q E (s, last) := by
  refine yields_bind (yields_attempt fun i hi => ?_)
  cases hi' : i.fault with
  | some text =>
      rw [serve_of_fault hi']
      exact hfault i text hi hi'
  | none =>
      have hres := hperform i hi hi'
      rw [serve_of_none hi']
      generalize perform order s i r = out at hres ⊢
      obtain ⟨s', answer⟩ := out
      cases answer with
      | ok output | error e => exact hres

theorem yields_put {item : Item} {k : Key S}
    {Q : Unit → State schema → Prop}
    (hkey : schema.keyOf t item = some k)
    (hfault : ∀ i text, ok i → i.fault = some text →
      E (failed what text) (s, some (.putItem t item .always, i)))
    (hput : ∀ i, ok i → i.fault = none →
      Q () (s.insert t item, some (.putItem t item .always, i))) :
    Yields (alone schema order ok) total
      (send (.putItem t item .always) what) Q E (s, last) := by
  refine yields_send hfault fun i hi hi' => ?_
  simp only [perform, hkey, Condition.holds, if_true]
  exact hput i hi hi'

theorem yields_delete {k : Key S}
    {Q : Option Item → State schema → Prop}
    (hfault : ∀ i text, ok i → i.fault = some text →
      E (failed what text) (s, some (.deleteItem t k .always, i)))
    (hdelete : ∀ i, ok i → i.fault = none →
      Q (s.get t k) (s.erase t k, some (.deleteItem t k .always, i))) :
    Yields (alone schema order ok) total
      (send (.deleteItem t k .always) what) Q E (s, last) := by
  refine yields_send hfault fun i hi hi' => ?_
  simp only [perform, Condition.holds, if_true]
  exact hdelete i hi hi'

/-- The items of a scan or a query, when nothing changes meanwhile. -/
def selected (order : T → Listing (Key S) Item) (s : Tables schema) (t : T)
    (selection : Selection S) : List (Key S × Item) :=
  ((selection.listing (order t)).rowsAfter selection.reads none
    (s.rows t)).filter selection.keeps

omit [DecidableEq S] [DecidableEq T] in
theorem mem_selected {e : Key S × Item} :
    e ∈ selected order s t selection ↔ s.get t e.1 = some e.2 ∧
      selection.reads e = true ∧ selection.keeps e = true := by
  obtain ⟨k, item⟩ := e
  simp only [selected, Listing.rowsAfter, List.mem_filter, and_assoc,
    Iteration.mem_entries, Tables.get]

/-- A loop over all pages, when nothing changes meanwhile.  The invariant is
about the items read so far; at the end these are all that are selected. -/
theorem yields_allPages {β : Type} {limit : Option Nat}
    {onPage : β → List Item → Except Error β} {Q : β → State schema → Prop}
    (hlimit : limit ≠ some 0)
    (hfault : ∀ i text start, ok i → i.fault = some text →
      E (failed what text) (s, some (.readPage t selection start limit, i)))
    (Inv : List Item → β → Prop)
    (hpage : ∀ read items later b, Inv read b →
      read ++ items ++ later = (selected order s t selection).map Prod.snd →
      ∃ b', onPage b items = .ok b' ∧ Inv (read ++ items) b')
    (hend : ∀ b i start, ok i →
      Inv ((selected order s t selection).map Prod.snd) b →
      Q b (s, some (.readPage t selection start limit, i)))
    {b : β} (hinit : Inv [] b) :
    Yields (alone schema order ok) total
      (readPages t selection what (fun _ => limit) (fun _ => true)
        (fun b items => propagate (onPage b items)) b) Q E (s, last) := by
  let listing := selection.listing (order t)
  let rest := fun start => listing.rowsAfter selection.reads start (s.rows t)
  -- What has been read and what is still to come are the whole selection, and
  -- what is still to come gets less.
  refine yields_readPages (fun n b start g => g.1 = s ∧ (rest start).length = n ∧
    ∃ read, Inv read b ∧
      read ++ ((rest start).filter selection.keeps).map Prod.snd =
        (selected order s t selection).map Prod.snd)
    (fun _ _ _ _ _ => trivial) ?_ ?_ (n := (rest none).length)
    ⟨rfl, rfl, [], hinit, rfl⟩
  · rintro n b start ⟨s', last'⟩ e g' ⟨rfl, -⟩ ⟨i, hi, hserve⟩
    obtain ⟨rfl, hanswer⟩ := Prod.mk.inj hserve
    cases hi' : i.fault with
    | some text =>
        rw [serve_of_fault hi'] at hanswer ⊢
        exact Except.error.inj hanswer ▸ hfault i text start hi hi'
    | none =>
        rw [serve_of_none hi'] at hanswer
        cases hanswer
  · rintro n b start ⟨s', last'⟩ page g' ⟨rfl, hn, read, hInv, hread⟩
      ⟨i, hi, hserve⟩
    obtain ⟨rfl, hanswer⟩ := Prod.mk.inj hserve
    cases hi' : i.fault with
    | some text =>
        rw [serve_of_fault hi'] at hanswer
        cases hanswer
    | none =>
        simp only [serve_of_none hi', perform] at hanswer ⊢
        obtain rfl := Except.ok.inj hanswer
        rcases hcut : i.cut.page limit (rest start) with ⟨shown, lastKey⟩
        obtain ⟨hshows, hne⟩ := Cut.shows_page hlimit hcut
        have hrows := hshows.rows
        change rest start = _ at hrows
        rw [hrows, List.filter_append, List.map_append, ← List.append_assoc] at hread
        obtain ⟨b', hb', hInv'⟩ := hpage read _ _ b hInv hread
        refine yields_propagate (fun a ha => ?_) fun e he => ?_
        · obtain rfl := Except.ok.inj (hb'.symm.trans ha)
          refine ⟨fun k hk _ => ?_, fun hdone => ?_⟩
          · obtain rfl : lastKey = some k := hk
            refine ⟨_, fun _ => ?_, rfl, rfl, _, hInv', hread⟩
            rw [← hn, hrows, List.length_append]
            exact Nat.lt_add_of_pos_left (List.length_pos_iff.mpr (hne rfl))
          · obtain rfl : lastKey = none := hdone.resolve_right (by simp)
            rw [List.filter_nil, List.map_nil, List.append_nil] at hread
            exact hend _ i start hi (hread ▸ hInv')
        · cases hb'.symm.trans he

theorem yields_readAll
    {Q : List Item → State schema → Prop}
    (hfault : ∀ i text start, ok i → i.fault = some text →
      E (failed what text) (s, some (.readPage t selection start none, i)))
    (hread : ∀ i start, ok i → Q ((selected order s t selection).map Prod.snd)
      (s, some (.readPage t selection start none, i))) :
    Yields (alone schema order ok) total (readAll t selection what) Q E
      (s, last) := by
  refine yields_allPages (by simp) hfault (fun read b => b = read) ?_ ?_ rfl
  · rintro read items later b rfl -
    exact ⟨b ++ items, rfl, rfl⟩
  · rintro b i start hi rfl
    exact hread i start hi

end Rules

/-! ## Pages cut anywhere -/

section Pages

variable [Ord S] [Std.TransOrd S] {schema : Schema T S}

/-- Requests for pages of tables that do not change.  A page may be cut anywhere;
not more than `spare` pages are empty and yet have a key to go on from, so there
is a last page. -/
def pages (order : T → Listing (Key S) Item) (s : Tables schema) :
    Client.Contract (Request T S) Request.Answer Nat where
  allowed _ r :=
    match r with
    | .readPage _ _ _ limit => limit ≠ some 0
    | _ => False
  answers spare r answer spare' :=
    match r, answer with
    | .readPage t selection start limit, answer =>
        ∃ shown lastKey,
          answer = .ok ⟨(shown.filter selection.keeps).map Prod.snd, lastKey⟩ ∧
          (selection.listing (order t)).Shows selection.reads (s.rows t) start
            limit shown lastKey ∧
          ((lastKey.isSome → shown ≠ []) ∧ spare' = spare ∨ spare' < spare)
    | _, _ => False

theorem exists_page (order : T → Listing (Key S) Item) (s : Tables schema)
    (spare : Nat) (r : Request T S) (hallowed : (pages order s).allowed spare r) :
    ∃ answer spare', (pages order s).answers spare r answer spare' := by
  cases r with
  | readPage t selection start limit =>
      rcases hpage : Cut.page ⟨0, false⟩ limit
        ((selection.listing (order t)).rowsAfter selection.reads start
          (s.rows t)) with ⟨shown, lastKey⟩
      obtain ⟨hshows, hne⟩ := Cut.shows_page hallowed hpage
      exact ⟨_, spare, shown, lastKey, rfl, hshows, .inl ⟨hne, rfl⟩⟩
  | _ => exact hallowed.elim

end Pages

end Coordin8.Dynamo
