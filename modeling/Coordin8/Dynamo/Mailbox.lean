import Coordin8.Dynamo.EventStore

/-!
# Reading a mailbox page by page

`peek` of the DynamoDB event store asks for pages until it has enough entries.
However the pages are cut, it comes to an end and returns what `peek` of the
in-memory store returns on the same entries: the first `limit` of those with a
number above `after_seq`, in the order of the numbers.
-/

namespace Coordin8

open Support Dynamo Fallible

/-- The entries of a registration's mailbox. -/
def InMemoryEventStore.mailbox (s : InMemoryEventStore) (registrationId : String) :
    DashMap Nat EventRecord :=
  match s.mailboxes[registrationId]? with
  | some box => box.entries
  | none => ∅

variable {n after : Nat} {e : Nat × EventRecord}

namespace DynamoEventStore

variable {fmt : Rfc3339} {t : EventTables} {s : InMemoryEventStore}
  {reg : String}

/-- The row of an entry. -/
def rowOf (fmt : Rfc3339) (reg : String) (e : Nat × EventRecord) :
    Key Int × Item :=
  ((reg, some (e.1 : Int)), eventToItem fmt reg e.1 e.2)

/-- The mailbox table holds the entries of the in-memory mailbox, and an entry
has the number it is filed under. -/
structure SameMailbox (fmt : Rfc3339) (t : EventTables) (s : InMemoryEventStore)
    (reg : String) : Prop where
  rows : ∀ (k : Key Int) item, k.1 = reg →
    (t.get .mailbox k = some item ↔
      ∃ n event, (s.mailbox reg)[n]? = some event ∧
        (k, item) = rowOf fmt reg (n, event))
  numbered : ∀ n event, (s.mailbox reg)[n]? = some event →
    event.seqNum = n ∧ n < 2 ^ 64

theorem eq_of_key_eq {m : Nat}
    (h : ((reg, some (n : Int)) : Key Int) = (reg, some (m : Int))) : n = m :=
  Int.ofNat.inj (Option.some.inj (Prod.mk.inj h).2)

theorem sameMailbox_empty (fmt : Rfc3339) {s : InMemoryEventStore}
    (hempty : s.mailbox reg = ∅) : SameMailbox fmt Tables.empty s reg where
  rows k item _ := by simp [hempty, Tables.get, Tables.empty]
  numbered n event hget := by simp [hempty] at hget

/-- The two stores stay alike when the entry of an event is written under the
number that `enqueue` in memory gives it. -/
theorem SameMailbox.enqueue (h : SameMailbox fmt t s reg) {event : EventRecord} {s' : InMemoryEventStore}
    (henqueue : s.enqueue reg event = (.ok n, s')) (hn : n < 2 ^ 64) :
    SameMailbox fmt (t.insert .mailbox (eventToItem fmt reg n event)) s' reg := by
  have hbox : s'.mailbox reg =
      (s.mailbox reg).insert n { event with seqNum := n } := by
    unfold InMemoryEventStore.enqueue at henqueue
    split at henqueue
    · next box hget =>
      obtain ⟨hn, rfl⟩ := Prod.mk.inj henqueue
      obtain rfl := Except.ok.inj hn
      simp [InMemoryEventStore.mailbox, hget, Mailbox.push]
    · cases (Prod.mk.inj henqueue).1
  have hget : ∀ m e, (s'.mailbox reg)[m]? = some e ↔
      n = m ∧ { event with seqNum := n } = e ∨
        n ≠ m ∧ (s.mailbox reg)[m]? = some e := by
    intro m e
    rw [hbox, DashMap.get_insert]
    split <;> simp_all
  constructor
  · intro k item hk
    rw [Tables.get_insert (keyOf_eventToItem fmt reg n event)]
    by_cases hkey : (reg, some (n : Int)) = k
    · subst hkey
      rw [if_pos ⟨rfl, rfl⟩]
      constructor
      · intro hitem
        obtain rfl := Option.some.inj hitem
        exact ⟨n, _, (hget n _).mpr (.inl ⟨rfl, rfl⟩), rfl⟩
      · rintro ⟨m, e, he, hrow⟩
        obtain ⟨hm, rfl⟩ := Prod.mk.inj hrow
        obtain rfl := eq_of_key_eq hm
        rcases (hget n e).mp he with ⟨-, rfl⟩ | ⟨hne, -⟩
        · rfl
        · exact absurd rfl hne
    · rw [if_neg fun hand => hkey hand.2, h.rows k item hk]
      have hne : ∀ m e, (k, item) = rowOf fmt reg (m, e) → n ≠ m := by
        rintro m e hrow rfl
        exact hkey (Prod.mk.inj hrow).1.symm
      constructor
      · rintro ⟨m, e, he, hrow⟩
        exact ⟨m, e, (hget m e).mpr (.inr ⟨hne m e hrow, he⟩), hrow⟩
      · rintro ⟨m, e, he, hrow⟩
        rcases (hget m e).mp he with ⟨heq, -⟩ | ⟨-, he⟩
        · exact absurd heq (hne m e hrow)
        · exact ⟨m, e, he, hrow⟩
  · intro m e he
    rcases (hget m e).mp he with ⟨rfl, rfl⟩ | ⟨-, he⟩
    · exact ⟨rfl, hn⟩
    · exact h.numbered m e he

/-! ## The entries above a number -/

/-- The entries with a number above `after`, in order. -/
def above (s : InMemoryEventStore) (reg : String) (after : Nat) :
    List (Nat × EventRecord) :=
  (s.mailbox reg).toList.filter fun e => after < e.1

theorem mem_above :
    e ∈ above s reg after ↔ (s.mailbox reg)[e.1]? = some e.2 ∧ after < e.1 := by
  obtain ⟨n, event⟩ := e
  rw [above, List.mem_filter, Std.ExtTreeMap.mem_toList_iff_getElem?_eq_some,
    decide_eq_true_eq]

theorem above_sorted (s : InMemoryEventStore) (reg : String) (after : Nat) :
    (above s reg after).Pairwise fun a b => a.1 < b.1 := by
  have hsorted : (s.mailbox reg).toList.Pairwise fun a b =>
      compare a.1 b.1 = .lt := Std.ExtTreeMap.ordered_keys_toList
  exact (hsorted.imp Nat.compare_eq_lt.mp).filter _

theorem peek_eq_above (s : InMemoryEventStore) (reg : String)
    (after limit : Nat) :
    s.peek reg after limit = ((above s reg after).take limit).map Prod.snd := by
  cases hbox : s.mailboxes[reg]? with
  | none => simp [InMemoryEventStore.peek, above, InMemoryEventStore.mailbox, hbox]
  | some box =>
      simp only [InMemoryEventStore.peek, above, InMemoryEventStore.mailbox, hbox,
        Mailbox.after]

/-! ## The rows of the query -/

theorem compare_natCast_lt (a b : Nat) : compare (a : Int) b = .lt ↔ a < b := by
  rw [Int.compare_eq_lt]
  omega

theorem reads_rowOf :
    (Selection.partition reg (some (after : Int))).reads (rowOf fmt reg e) =
      true ↔ after < e.1 := by
  simp [Selection.reads, rowOf, compare_natCast_lt]

/-- The query goes through the rows of the entries above `after`, in order. -/
theorem SameMailbox.rowsAfter (h : SameMailbox fmt t s reg) (after : Nat) :
    Listing.byKey.rowsAfter (Selection.partition reg (some (after : Int))).reads
        none (t.rows .mailbox) =
      (above s reg after).map (rowOf fmt reg) := by
  refine Listing.byKey.rowsAfter_eq ?_ fun row => ?_
  · refine List.pairwise_map.mpr ((above_sorted s reg after).imp ?_)
    intro a b hab
    exact (compare_key reg _ _).trans ((compare_natCast_lt _ _).mpr hab)
  obtain ⟨k, item⟩ := row
  simp only [Listing.rowsAfter, List.mem_filter, Iteration.mem_entries,
    List.mem_map, mem_above]
  constructor
  · rintro ⟨hget, hreads⟩
    have hreg : k.1 = reg := by
      simp only [Selection.reads, Bool.and_eq_true, beq_iff_eq] at hreads
      exact hreads.1
    obtain ⟨n, event, hevent, hrow⟩ := (h.rows k item hreg).mp hget
    rw [hrow, reads_rowOf] at hreads
    exact ⟨(n, event), ⟨hevent, hreads⟩, hrow.symm⟩
  · rintro ⟨⟨n, event⟩, ⟨hevent, hafter⟩, hrow⟩
    have hreg : k.1 = reg := (congrArg (fun row => row.1.1) hrow).symm
    refine ⟨(h.rows k item hreg).mpr ⟨n, event, hevent, hrow.symm⟩, ?_⟩
    rw [← hrow]
    exact reads_rowOf.mpr hafter

theorem SameMailbox.mapM_eventFromItem (h : SameMailbox fmt t s reg) {es : List (Nat × EventRecord)}
    (hes : ∀ e ∈ es, e ∈ above s reg after) :
    ((es.map (rowOf fmt reg)).map Prod.snd).mapM (eventFromItem fmt) =
      .ok (es.map Prod.snd) := by
  have hread : ∀ e ∈ es, eventFromItem fmt (rowOf fmt reg e).2 = .ok e.2 := by
    intro e he
    obtain ⟨hseq, hlt⟩ := h.numbered _ _ (mem_above.mp (hes e he)).1
    rw [rowOf, (eventRow_eventToItem reg e.1 e.2).read hlt, ← hseq]
  induction es with
  | nil => rfl
  | cons e es ih =>
      simp only [List.map_cons, List.mapM_cons, hread e List.mem_cons_self,
        ih (fun x hx => hes x (List.mem_cons_of_mem e hx))
          fun x hx => hread x (List.mem_cons_of_mem e hx)]
      rfl

/-! ## The loop -/

/-- Where the loop of `peek` is: it has read some of the entries, not all that
were asked for, and what the query has not yet shown are the others. -/
structure Paging (fmt : Rfc3339) (t : EventTables) (s : InMemoryEventStore)
    (reg : String) (after limit rank : Nat) (events : List EventRecord)
    (start : Option (Key Int)) (spare : Nat)
    (seen rest : List (Nat × EventRecord)) : Prop where
  entries : above s reg after = seen ++ rest
  events : events = seen.map Prod.snd
  more : seen.length < limit
  rows : Listing.byKey.rowsAfter
      (Selection.partition reg (some (after : Int))).reads start
      (t.rows .mailbox) = rest.map (rowOf fmt reg)
  rank : rank = rest.length + spare

section Page

variable {after limit rank spare spare' : Nat} {events : List EventRecord}
  {start lastKey : Option (Key Int)} {seen rest : List (Nat × EventRecord)}
  {shown : List (Key Int × Item)}

theorem Paging.split
    (h : Paging fmt t s reg after limit rank events start spare seen rest)
    {count : Option Nat}
    (hshows : Listing.byKey.Shows
      (Selection.partition reg (some (after : Int))).reads (t.rows .mailbox)
      start count shown lastKey) :
    ∃ page rest', rest = page ++ rest' ∧ shown = page.map (rowOf fmt reg) ∧
      match lastKey with
      | none => rest' = []
      | some k => Listing.byKey.rowsAfter
          (Selection.partition reg (some (after : Int))).reads (some k)
          (t.rows .mailbox) = rest'.map (rowOf fmt reg) := by
  have hrows := h.rows.symm.trans hshows.rows
  obtain ⟨page, rest', hrest, hpage, hleft⟩ := List.map_eq_append_iff.mp hrows
  refine ⟨page, rest', hrest, hpage.symm, ?_⟩
  cases lastKey with
  | none => exact List.map_eq_nil_iff.mp hleft
  | some k => exact hleft.symm

theorem Paging.next
    (h : Paging fmt t s reg after limit rank events start spare seen rest)
    (hshows : Listing.byKey.Shows
      (Selection.partition reg (some (after : Int))).reads (t.rows .mailbox)
      start (some (min (limit - events.length) maxLimit)) shown lastKey)
    (hspare : (lastKey.isSome → shown ≠ []) ∧ spare' = spare ∨ spare' < spare) :
    ∃ page rest', rest = page ++ rest' ∧ shown = page.map (rowOf fmt reg) ∧
      (∀ k, lastKey = some k → (seen ++ page).length < limit →
        ∃ rank' < rank, Paging fmt t s reg after limit rank'
          (events ++ page.map Prod.snd) (some k) spare' (seen ++ page) rest') ∧
      (lastKey = none ∨ limit ≤ (seen ++ page).length →
        (events ++ page.map Prod.snd).take limit = s.peek reg after limit) := by
  obtain ⟨page, rest', rfl, rfl, hleft⟩ := h.split hshows
  have hentries : above s reg after = (seen ++ page) ++ rest' := by
    rw [h.entries, List.append_assoc]
  have hevents : events ++ page.map Prod.snd = (seen ++ page).map Prod.snd := by
    rw [h.events, List.map_append]
  refine ⟨page, rest', rfl, rfl, ?_, fun hend => ?_⟩
  · rintro k rfl hmore
    refine ⟨rest'.length + spare', ?_, hentries, hevents, hmore, hleft, rfl⟩
    rw [h.rank, List.length_append]
    rcases hspare with ⟨hne, rfl⟩ | hlt
    · have hpos : 0 < page.length :=
        List.length_pos_iff.mpr fun hnil => hne rfl (by rw [hnil]; rfl)
      omega
    · omega
  · rw [hevents, peek_eq_above, hentries, ← List.map_take]
    rcases hend with rfl | hfull
    · rw [hleft, List.append_nil]
    · rw [List.take_append_of_le_length hfull]

end Page

theorem yields_peekPages (h : SameMailbox fmt t s reg)
    (order : EventTable → Listing (Key Int) Item) {limit : Nat}
    (hlimit : 0 < limit) (spare : Nat) :
    Yields (pages order t) true (peekPages fmt reg after limit)
      (fun events _ => events.take limit = s.peek reg after limit)
      (fun _ _ => False) spare := by
  refine yields_readPages
    (fun rank events start spare => ∃ seen rest,
      Paging fmt t s reg after limit rank events start spare seen rest)
    ?_ ?_ ?_ (n := (above s reg after).length + spare)
    ⟨[], above s reg after, rfl, rfl, hlimit, h.rowsAfter after, rfl⟩
  · rintro rank events start spare ⟨seen, rest, hat⟩ hzero
    have hmore := hat.more
    have hmax : 0 < maxLimit := by decide
    rw [hat.events, Option.some.injEq, List.length_map] at hzero
    omega
  · rintro rank events start spare e spare' - ⟨shown, lastKey, hanswer, -⟩
    cases hanswer
  · rintro rank events start spare answer spare' ⟨seen, rest, hat⟩
      ⟨shown, lastKey, hanswer, hshows, hspare⟩
    obtain rfl := Except.ok.inj hanswer
    obtain ⟨page, rest', rfl, rfl, hgo, hend⟩ := hat.next hshows hspare
    have hpage : ∀ e ∈ page, e ∈ above s reg after := by
      intro e he
      rw [hat.entries]
      simp [he]
    have hkeeps : (page.map (rowOf fmt reg)).filter
        (Selection.partition reg (some (after : Int))).keeps =
        page.map (rowOf fmt reg) := List.filter_eq_self.mpr fun _ _ => rfl
    have hlength : (events ++ page.map Prod.snd).length =
        (seen ++ page).length := by
      simp [hat.events]
    simp only [hkeeps, h.mapM_eventFromItem hpage]
    refine ⟨fun k hk hmore => ?_, fun hdone => ?_⟩
    · obtain ⟨rank', hlt, hat'⟩ :=
        hgo k hk (hlength ▸ of_decide_eq_true hmore)
      exact ⟨rank', fun _ => hlt, seen ++ page, rest', hat'⟩
    · refine hend (hdone.imp_right fun hfull => ?_)
      exact hlength ▸ Nat.le_of_not_lt (of_decide_eq_false hfull)

theorem yields_peek (h : SameMailbox fmt t s reg)
    (order : EventTable → Listing (Key Int) Item) (after limit spare : Nat) :
    Yields (pages order t) true (peek fmt reg after limit)
      (fun events _ => events = s.peek reg after limit) (fun _ _ => False)
      spare := by
  unfold peek
  split
  · next hzero =>
    refine yields_pure ?_
    rw [peek_eq_above, hzero, List.take_zero, List.map_nil]
  · next hlimit =>
    refine yields_bind (yields_mono
      (yields_peekPages h order (Nat.pos_of_ne_zero hlimit) spare) ?_ ?_)
    · intro events spare' hevents
      exact yields_pure hevents
    · exact fun _ _ hfalse => hfalse

/-! ## What `peek` returns -/

section Peek

variable {after limit : Nat} {event : EventRecord}

theorem SameMailbox.seqNum_of_mem (h : SameMailbox fmt t s reg) (he : e ∈ above s reg after) : e.2.seqNum = e.1 :=
  (h.numbered e.1 e.2 (mem_above.mp he).1).1

theorem SameMailbox.peek_sorted (h : SameMailbox fmt t s reg) :
    ((s.peek reg after limit).map (·.seqNum)).Pairwise (· < ·) := by
  rw [peek_eq_above, List.map_map, List.pairwise_map]
  refine List.Pairwise.imp_of_mem ?_
    ((above_sorted s reg after).sublist (List.take_sublist limit _))
  intro a b ha hb hab
  have ha' := h.seqNum_of_mem (List.mem_of_mem_take ha)
  have hb' := h.seqNum_of_mem (List.mem_of_mem_take hb)
  simpa [ha', hb'] using hab

theorem SameMailbox.of_mem_peek (h : SameMailbox fmt t s reg)
    (hevent : event ∈ s.peek reg after limit) :
    after < event.seqNum ∧ (s.mailbox reg)[event.seqNum]? = some event := by
  rw [peek_eq_above] at hevent
  obtain ⟨e, he, rfl⟩ := List.mem_map.mp hevent
  have habove := List.mem_of_mem_take he
  obtain ⟨hget, hlt⟩ := mem_above.mp habove
  rw [h.seqNum_of_mem habove]
  exact ⟨hlt, hget⟩

/-- An entry is left out only when enough earlier ones are returned. -/
theorem SameMailbox.mem_peek_or (h : SameMailbox fmt t s reg)
    (hget : (s.mailbox reg)[n]? = some event) (hlt : after < n) :
    event ∈ s.peek reg after limit ∨
      (s.peek reg after limit).length = limit ∧
        ∀ earlier ∈ s.peek reg after limit, earlier.seqNum < n := by
  have hsplit := List.take_append_drop limit (above s reg after)
  have hmem : (n, event) ∈ above s reg after := mem_above.mpr ⟨hget, hlt⟩
  have hsorted := above_sorted s reg after
  rw [← hsplit] at hmem hsorted
  rw [peek_eq_above]
  rcases List.mem_append.mp hmem with htaken | hleft
  · exact .inl (List.mem_map.mpr ⟨_, htaken, rfl⟩)
  · refine .inr ⟨?_, fun earlier hearlier => ?_⟩
    · have hlong := List.length_pos_of_mem hleft
      rw [List.length_drop] at hlong
      rw [List.length_map, List.length_take]
      omega
    · obtain ⟨e, he, rfl⟩ := List.mem_map.mp hearlier
      rw [h.seqNum_of_mem (List.mem_of_mem_take he)]
      exact (List.pairwise_append.mp hsorted).2.2 e he _ hleft

end Peek

/-- However the pages are cut, `peek` comes to its end and returns what the
in-memory store returns: the first `limit` entries with a number above `after`,
in the order of the numbers. -/
theorem peek_any_pages (h : SameMailbox fmt t s reg)
    (order : EventTable → Listing (Key Int) Item) (after limit spare : Nat) :
    Client.Concludes (pages order t)
      (fun result _ => result = .ok (s.peek reg after limit)) spare
      (peek fmt reg after limit).run ∧
    ((s.peek reg after limit).map (·.seqNum)).Pairwise (· < ·) ∧
    (s.peek reg after limit).length ≤ limit ∧
    (∀ event ∈ s.peek reg after limit, after < event.seqNum ∧
      (s.mailbox reg)[event.seqNum]? = some event) ∧
    ∀ n event, (s.mailbox reg)[n]? = some event → after < n →
      event ∈ s.peek reg after limit ∨
        (s.peek reg after limit).length = limit ∧
          ∀ earlier ∈ s.peek reg after limit, earlier.seqNum < n := by
  refine ⟨?_, h.peek_sorted, ?_, fun event => h.of_mem_peek, fun n event => ?_⟩
  · refine (Client.meets_mono (yields_peek h order after limit spare) ?_).concludes
      (exists_page order t)
    intro result spare' hresult
    cases result with
    | ok events => rw [hresult]
    | error e => exact hresult.elim
  · rw [peek_eq_above, List.length_map]
    exact List.length_take_le _ _
  · exact h.mem_peek_or

def ring (eventId : String) : EventRecord where
  eventId := eventId
  source := "door"
  eventType := "ring"
  seqNum := 0
  attrs := ∅
  payload := []
  emittedAt := 0

/-- A mailbox before the first ring, after it and after the second. -/
def silent : InMemoryEventStore :=
  { InMemoryEventStore.new with
    mailboxes := (∅ : DashMap String Mailbox).insert "r" .empty }

def rungOnce : InMemoryEventStore := (silent.enqueue "r" (ring "a")).2

def rungTwice : InMemoryEventStore := (rungOnce.enqueue "r" (ring "b")).2

def rings : EventTables :=
  (Tables.empty.insert .mailbox (eventToItem epochFormat "r" 1 (ring "a"))).insert
    .mailbox (eventToItem epochFormat "r" 2 (ring "b"))

theorem sameMailbox_rings : SameMailbox epochFormat rings rungTwice "r" := by
  have hsilent : SameMailbox epochFormat Tables.empty silent "r" :=
    sameMailbox_empty epochFormat (by decide +kernel)
  have hfirst : silent.enqueue "r" (ring "a") = (.ok 1, rungOnce) :=
    Prod.ext (by decide +kernel) rfl
  have hsecond : rungOnce.enqueue "r" (ring "b") = (.ok 2, rungTwice) :=
    Prod.ext (by decide +kernel) rfl
  exact (hsilent.enqueue hfirst (by decide)).enqueue hsecond (by decide)

theorem peek_any_pages_rings :
    rungTwice.peek "r" 0 1 = [{ ring "a" with seqNum := 1 }] ∧
    Client.Concludes (pages (fun _ => .byKey) rings)
      (fun result _ => result = .ok (rungTwice.peek "r" 0 1)) 3
      (peek epochFormat "r" 0 1).run :=
  ⟨by decide +kernel,
    (peek_any_pages sameMailbox_rings (fun _ => .byKey) 0 1 3).1⟩

end DynamoEventStore

end Coordin8
