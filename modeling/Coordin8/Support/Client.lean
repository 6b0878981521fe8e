import Mathlib.Data.List.Basic

/-!
# Programs that use a service

A client makes requests to a service and goes on with the answers.  Loops are
part of the syntax: an iteration begins with a request, so a client always has a
next request or is done, and a loop needs no bound.

A client can be run alone, against a service that answers every request at once,
or step by step among others.  `Client.Meets` is the proof rule for both: a
contract says which requests are allowed, and what the answers may be, in terms
of a state that the proof keeps; loops are proved by an invariant, and by a rank
when the client is to come to an end.
-/

namespace Coordin8.Support

/-- A program with requests `r : R`, each answered by an `A r`, and a result of
the indexing type. -/
inductive Client (R : Type) (A : R → Type) : Type → Type 1 where
  | ret {α : Type} (a : α) : Client R A α
  | call {α : Type} (r : R) (k : A r → Client R A α) : Client R A α
  /-- Make the request of the loop variable and run the body, which goes on with
  a new loop variable or leaves the loop. -/
  | iter {α β γ : Type} (r : β → R)
      (body : (b : β) → A (r b) → Client R A (β ⊕ γ)) (b : β)
      (k : γ → Client R A α) : Client R A α

namespace Client

variable {R : Type} {A : R → Type} {α β γ : Type}

def bind : {α : Type} → Client R A α → (α → Client R A β) → Client R A β
  | _, .ret a, f => f a
  | _, .call r k, f => .call r fun a => (k a).bind f
  | _, .iter r body b k, f => .iter r body b fun c => (k c).bind f

instance : Monad (Client R A) where
  pure := .ret
  bind := bind

/-- One request. -/
def ask (r : R) : Client R A (A r) :=
  .call r .ret

/-- A loop on its own. -/
def loop (r : β → R) (body : (b : β) → A (r b) → Client R A (β ⊕ γ)) (b : β) :
    Client R A γ :=
  .iter r body b .ret

/-- The result, or the next request and what follows it. -/
def next : {α : Type} → Client R A α → α ⊕ ((r : R) × (A r → Client R A α))
  | _, .ret a => .inl a
  | _, .call r k => .inr ⟨r, k⟩
  | _, .iter r body b k =>
      .inr ⟨r b, fun a => (body b a).bind fun
        | .inl b' => .iter r body b' k
        | .inr c => k c⟩

theorem bind_assoc (c : Client R A α) (f : α → Client R A β)
    (g : β → Client R A γ) : (c.bind f).bind g = c.bind fun a => (f a).bind g := by
  induction c with
  | ret a => rfl
  | call r k ih =>
      exact congrArg (Client.call r) (funext fun a => ih a f)
  | iter r body b k _ ih =>
      exact congrArg (Client.iter r body b) (funext fun c => ih c f)

theorem next_bind (c : Client R A α) (f : α → Client R A β) :
    (c.bind f).next =
      match c.next with
      | .inl a => (f a).next
      | .inr ⟨r, k⟩ => .inr ⟨r, fun a => (k a).bind f⟩ := by
  cases c with
  | ret a | call r k => rfl
  | iter r body b k =>
      simp only [bind, next]
      congr 2
      funext a
      rw [bind_assoc]
      congr 1
      funext d
      cases d <;> rfl

/-! ## Running a client alone -/

section Exec

variable {σ ι : Type*} (serve : σ → (r : R) → ι → σ × A r)

/-- Run a client to its end.  The outside makes one choice for each request, no
more and no less. -/
def exec : σ → Client R A α → List ι → Option (σ × α)
  | s, c, [] =>
      match c.next with
      | .inl a => some (s, a)
      | .inr _ => none
  | s, c, i :: is =>
      match c.next with
      | .inl _ => none
      | .inr ⟨r, k⟩ => exec (serve s r i).1 (k (serve s r i).2) is

/-- The service with a note of the last request and the choice made for it. -/
def noting (st : σ × Option (R × ι)) (r : R) (i : ι) :
    (σ × Option (R × ι)) × A r :=
  (((serve st.1 r i).1, some (r, i)), (serve st.1 r i).2)

end Exec

/-! ## Contracts -/

/-- What a client may ask, and what it may be told, in a state `Γ` that the
proof keeps. -/
structure Contract (R : Type) (A : R → Type) (Γ : Type*) where
  allowed : Γ → R → Prop
  answers : Γ → (r : R) → A r → Γ → Prop

variable {Γ : Type*}

/-- The client keeps to the contract, and its result satisfies `Q`.  A loop has
an invariant with a rank; in a `total` proof the rank goes down. -/
def Meets (C : Contract R A Γ) (total : Bool) :
    {α : Type} → Client R A α → (α → Γ → Prop) → Γ → Prop
  | _, .ret a, Q, g => Q a g
  | _, .call r k, Q, g =>
      C.allowed g r ∧ ∀ a g', C.answers g r a g' → Meets C total (k a) Q g'
  | _, .iter r body b k, Q, g =>
      ∃ Inv : Nat → _ → Γ → Prop, (∃ n, Inv n b g) ∧
        ∀ n b g, Inv n b g → C.allowed g (r b) ∧
          ∀ a g', C.answers g (r b) a g' →
            Meets C total (body b a) (fun d g' =>
              match d with
              | .inl b' => ∃ m, (total = true → m < n) ∧ Inv m b' g'
              | .inr c => Meets C total (k c) Q g') g'

section Rules

variable {C : Contract R A Γ} {total : Bool} {g : Γ}

theorem meets_mono {c : Client R A α} {Q Q' : α → Γ → Prop}
    (h : c.Meets C total Q g) (hQ : ∀ a g, Q a g → Q' a g) :
    c.Meets C total Q' g := by
  induction c generalizing g with
  | ret a => exact hQ a g h
  | call r k ih =>
      obtain ⟨hallowed, hk⟩ := h
      exact ⟨hallowed, fun a g' ha => ih a (hk a g' ha) hQ⟩
  | iter r body b k ihbody ihk =>
      obtain ⟨Inv, hinit, hstep⟩ := h
      refine ⟨Inv, hinit, fun n b g hInv => ?_⟩
      obtain ⟨hallowed, hbody⟩ := hstep n b g hInv
      refine ⟨hallowed, fun a g' ha => ihbody b a (hbody a g' ha) ?_⟩
      intro d g'' hd
      cases d with
      | inl b' => exact hd
      | inr c => exact ihk c hd hQ

theorem meets_bind {c : Client R A α} {f : α → Client R A β}
    {Q : β → Γ → Prop}
    (h : c.Meets C total (fun a g => (f a).Meets C total Q g) g) :
    (c.bind f).Meets C total Q g := by
  induction c generalizing g with
  | ret a => exact h
  | call r k ih =>
      obtain ⟨hallowed, hk⟩ := h
      exact ⟨hallowed, fun a g' ha => ih a (hk a g' ha)⟩
  | iter r body b k ihbody ihk =>
      obtain ⟨Inv, hinit, hstep⟩ := h
      refine ⟨Inv, hinit, fun n b g hInv => ?_⟩
      obtain ⟨hallowed, hbody⟩ := hstep n b g hInv
      refine ⟨hallowed, fun a g' ha => meets_mono (hbody a g' ha) ?_⟩
      intro d g'' hd
      cases d with
      | inl b' => exact hd
      | inr c => exact ihk c hd

theorem Meets.next {c : Client R A α} {Q : α → Γ → Prop}
    (h : c.Meets C total Q g) :
    match c.next with
    | .inl a => Q a g
    | .inr ⟨r, k⟩ => C.allowed g r ∧
        ∀ a g', C.answers g r a g' → (k a).Meets C total Q g' := by
  cases c with
  | ret a | call r k => exact h
  | iter r body b k =>
      obtain ⟨Inv, ⟨n, hInv⟩, hstep⟩ := h
      obtain ⟨hallowed, hbody⟩ := hstep n b g hInv
      refine ⟨hallowed, fun a g' ha => meets_bind (meets_mono (hbody a g' ha) ?_)⟩
      intro d g'' hd
      cases d with
      | inl b' =>
          obtain ⟨m, -, hInv'⟩ := hd
          exact ⟨Inv, ⟨m, hInv'⟩, hstep⟩
      | inr c => exact hd

end Rules

/-! ## Clients that come to an end -/

section Concludes

variable {C : Contract R A Γ} {g : Γ}

/-- Every request can be answered, and however it is answered within the
contract, the client comes to its end with a result that satisfies `Q`. -/
inductive Concludes (C : Contract R A Γ) (Q : α → Γ → Prop) :
    Γ → Client R A α → Prop where
  | done {g : Γ} {c : Client R A α} {a : α} (hnext : c.next = .inl a)
      (hQ : Q a g) : Concludes C Q g c
  | step {g : Γ} {c : Client R A α} {r : R} {k : A r → Client R A α}
      (hnext : c.next = .inr ⟨r, k⟩) (hanswer : ∃ a g', C.answers g r a g')
      (hrest : ∀ a g', C.answers g r a g' → Concludes C Q g' (k a)) :
      Concludes C Q g c

theorem Concludes.bind {c : Client R A α} {f : α → Client R A β}
    {Q : α → Γ → Prop} {Q' : β → Γ → Prop} (h : Concludes C Q g c)
    (hf : ∀ a g, Q a g → Concludes C Q' g (f a)) :
    Concludes C Q' g (c.bind f) := by
  induction h with
  | @done g c a hnext hQ =>
      have hcf : (c.bind f).next = (f a).next := by rw [next_bind, hnext]
      cases hf a g hQ with
      | done hnext' hQ' => exact .done (hcf.trans hnext') hQ'
      | step hnext' hanswer hrest => exact .step (hcf.trans hnext') hanswer hrest
  | @step g c r k hnext hanswer _ ih =>
      have hcf : (c.bind f).next = .inr ⟨r, fun a => (k a).bind f⟩ := by
        rw [next_bind, hnext]
      exact .step hcf hanswer ih

/-- A client proved with ranks comes to its end, when every request that is
allowed can be answered. -/
theorem Meets.concludes {c : Client R A α} {Q : α → Γ → Prop}
    (hlive : ∀ g r, C.allowed g r → ∃ a g', C.answers g r a g')
    (h : c.Meets C true Q g) : Concludes C Q g c := by
  induction c generalizing g with
  | ret a => exact .done rfl h
  | call r k ih =>
      exact .step rfl (hlive g r h.1) fun a g' ha => ih a (h.2 a g' ha)
  | iter r body b k ihbody ihk =>
      obtain ⟨Inv, ⟨n, hInv⟩, hstep⟩ := h
      -- The rank goes down in each round.
      induction n using Nat.strongRecOn generalizing b g with
      | ind n ih =>
          obtain ⟨hallowed, hbody⟩ := hstep n b g hInv
          refine .step rfl (hlive g (r b) hallowed) fun a g' ha => ?_
          refine (ihbody b a (hbody a g' ha)).bind ?_
          intro d g' hd
          cases d with
          | inl b' =>
              obtain ⟨m, hlt, hInv'⟩ := hd
              exact ih m (hlt rfl) b' hInv'
          | inr c => exact ihk c hd

end Concludes

/-! ## Clients that run alone -/

section Alone

variable {σ ι : Type*} {serve : σ → (r : R) → ι → σ × A r} {ok : ι → Prop}
  {total : Bool} {s s' : σ}

/-- Nobody else uses the service; the outside makes choices that are `ok`. -/
def alone (serve : σ → (r : R) → ι → σ × A r) (ok : ι → Prop) :
    Contract R A σ where
  allowed _ _ := True
  answers s r a s' := ∃ i, ok i ∧ serve s r i = (s', a)

theorem Meets.of_exec {c : Client R A α} {Q : α → σ → Prop} {is : List ι}
    {a : α} (h : c.Meets (alone serve ok) total Q s) (hok : ∀ i ∈ is, ok i)
    (hexec : exec serve s c is = some (s', a)) : Q a s' := by
  induction is generalizing s c with
  | nil =>
      have hnext := h.next
      simp only [exec] at hexec
      split at hexec
      · next a' ha' =>
        obtain ⟨rfl, rfl⟩ := Prod.mk.inj (Option.some.inj hexec)
        rw [ha'] at hnext
        exact hnext
      · cases hexec
  | cons i is ih =>
      have hnext := h.next
      simp only [exec] at hexec
      split at hexec
      · cases hexec
      · next r k hrk =>
        rw [hrk] at hnext
        refine ih (hnext.2 _ _ ⟨i, hok i List.mem_cons_self, rfl⟩)
          (fun j hj => hok j (List.mem_cons_of_mem _ hj)) hexec

end Alone

end Client

/-! ## Clients that can fail -/

/-- A client that ends with a result or with an error. -/
abbrev Fallible (R : Type) (A : R → Type) (ε : Type) :=
  ExceptT ε (Client R A)

namespace Fallible

variable {R : Type} {A : R → Type} {ε α β : Type} {Γ : Type*}

/-- The client keeps to the contract; its result satisfies `Q`, its error `E`. -/
def Yields (C : Client.Contract R A Γ) (total : Bool) (x : Fallible R A ε α)
    (Q : α → Γ → Prop) (E : ε → Γ → Prop) (g : Γ) : Prop :=
  x.run.Meets C total (fun d g =>
    match d with
    | .ok a => Q a g
    | .error e => E e g) g

section Rules

variable {C : Client.Contract R A Γ} {total : Bool} {g : Γ}
  {Q Q' : α → Γ → Prop} {E E' : ε → Γ → Prop}

theorem yields_pure {a : α} (h : Q a g) :
    Yields C total (pure a : Fallible R A ε α) Q E g := h

theorem yields_throw {e : ε} (h : E e g) :
    Yields C total (throw e : Fallible R A ε α) Q E g := h

theorem yields_bind {x : Fallible R A ε α} {f : α → Fallible R A ε β}
    {Q : β → Γ → Prop}
    (h : Yields C total x (fun a g => Yields C total (f a) Q E g) E g) :
    Yields C total (x >>= f) Q E g := by
  refine Client.meets_bind (Client.meets_mono h ?_)
  intro d g' hd
  cases d with
  | ok a | error e => exact hd

theorem yields_mono {x : Fallible R A ε α} (h : Yields C total x Q E g)
    (hQ : ∀ a g, Q a g → Q' a g) (hE : ∀ e g, E e g → E' e g) :
    Yields C total x Q' E' g := by
  refine Client.meets_mono h ?_
  intro d g' hd
  cases d with
  | ok a => exact hQ a g' hd
  | error e => exact hE e g' hd

end Rules

end Fallible

end Coordin8.Support
