import Mathlib.Algebra.Order.Ring.Nat
import Mathlib.Tactic.Common

/-!
# Programs that talk to a server

A client is a program that sends requests and goes on with the responses.  A
`Thread` does nothing else.  A `Prog` can also loop, and can leave a choice to its
scheduler; the loop is a constructor, so that a program needs no argument that it
terminates before it can be written down.

A `Pool` keeps a bounded number of threads in flight and takes their results in
the order in which the scheduler delivers them, as a loop over `FuturesUnordered`
does.

## Main definitions

* `Interface` — the requests of a program and their responses.
* `Thread`, `Prog` — programs, both monads.
* `Pool`, `Pool.run` — bounded concurrency.
-/

namespace Interaction

/-- The requests a program can make, each with the type of its response. -/
structure Interface where
  Request : Type
  Response : Request → Type

variable {E : Interface} {α β σ ε : Type}

/-! ### Threads -/

/-- A sequence of requests that depends on the responses. -/
inductive Thread (E : Interface) (α : Type)
  | ret (a : α)
  | ask (e : E.Request) (k : E.Response e → Thread E α)

namespace Thread

def bind : Thread E α → (α → Thread E β) → Thread E β
  | ret a, f => f a
  | ask e k, f => ask e fun r => (k r).bind f

instance : Monad (Thread E) where
  pure := ret
  bind := bind

/-- The values that a thread may return. -/
def Returns : Thread E α → α → Prop
  | ret a, b => a = b
  | ask _ k, b => ∃ r, (k r).Returns b

/-- Make one request. -/
def request (e : E.Request) : Thread E (E.Response e) := ask e ret

/-- The result of a thread that may fail, for the caller to look at. -/
def attempt (t : ExceptT ε (Thread E) α) : ExceptT ε (Thread E) (Except ε α) := ExceptT.lift t.run

/-- Every request the thread makes satisfies `P`, whatever the responses are. -/
def Asks (P : E.Request → Prop) : Thread E α → Prop
  | ret _ => True
  | ask e k => P e ∧ ∀ r, (k r).Asks P

theorem asks_bind {P : E.Request → Prop} {t : Thread E α} {f : α → Thread E β} (h : t.Asks P)
    (hf : ∀ a, (f a).Asks P) : (t.bind f).Asks P := by
  induction t with
  | ret a => exact hf a
  | ask e k ih => exact ⟨h.1, fun r => ih r (h.2 r)⟩

end Thread

/-! ### Programs -/

/-- A program: threads in sequence, choices of the scheduler, and loops.  The body
of a loop says how to go on: with another turn from a new state, or with a
result. -/
inductive Prog (E : Interface) : Type → Type 1
  | ret {α : Type} (a : α) : Prog E α
  | thread {α β : Type} (t : Thread E β) (k : β → Prog E α) : Prog E α
  | pick {α : Type} (n : ℕ) (k : Fin n → Prog E α) : Prog E α
  | loop {α β σ : Type} (body : σ → Prog E (σ ⊕ β)) (s : σ) (k : β → Prog E α) : Prog E α

namespace Prog

def bind : Prog E α → (α → Prog E β) → Prog E β
  | ret a, f => f a
  | thread t k, f => thread t fun b => (k b).bind f
  | pick n k, f => pick n fun i => (k i).bind f
  | loop body s k, f => loop body s fun b => (k b).bind f

instance : Monad (Prog E) where
  pure := ret
  bind := bind

instance : MonadLift (Thread E) (Prog E) := ⟨fun t => thread t ret⟩

instance : MonadLift (ExceptT ε (Thread E)) (ExceptT ε (Prog E)) :=
  ⟨fun t => ExceptT.mk (thread t.run ret)⟩

/-- The result of a program that may fail, for the caller to look at. -/
def attempt (p : ExceptT ε (Prog E) α) : ExceptT ε (Prog E) (Except ε α) := ExceptT.lift p.run

/-- How a loop goes on after a turn. -/
def unroll (body : σ → Prog E (σ ⊕ β)) (k : β → Prog E α) : σ ⊕ β → Prog E α
  | .inl s => loop body s k
  | .inr b => k b

/-- A program that is one thread after another: it has at most one request in flight. -/
inductive Single : Prog E α → Prop
  | ret (a : α) : Single (.ret a)
  | thread {β : Type} {t : Thread E β} {k : β → Prog E α} (h : ∀ b, t.Returns b → Single (k b)) :
      Single (.thread t k)

theorem bind_assoc {γ : Type} (p : Prog E α) (f : α → Prog E β) (g : β → Prog E γ) :
    (p.bind f).bind g = p.bind fun a => (f a).bind g := by
  induction p with
  | ret a => rfl
  | thread t k ih => simp only [bind, ih]
  | pick n k ih => simp only [bind, ih]
  | loop body s k _ ih => simp only [bind, ih]

theorem unroll_bind {γ : Type} (body : σ → Prog E (σ ⊕ β)) (k : β → Prog E α) (f : α → Prog E γ) :
    unroll body (fun b => (k b).bind f) = fun x => (unroll body k x).bind f := by
  funext x
  cases x <;> rfl

/-- A loop whose body may fail. -/
def loopExcept (body : σ → ExceptT ε (Prog E) (σ ⊕ β)) (s : σ) : ExceptT ε (Prog E) β :=
  ExceptT.mk (loop (fun s => (body s).run.bind fun
    | .ok (.inl s') => ret (.inl s')
    | .ok (.inr b) => ret (.inr (.ok b))
    | .error err => ret (.inr (.error err))) s ret)

end Prog

/-! ### Pools -/

/-- A loop with threads in flight.  `next` starts another thread, `absorb` takes
the result of one, and at most `depth` are in flight at a time. -/
structure Pool (E : Interface) (σ β : Type) where
  depth : ℕ
  next : σ → Option (Thread E β × σ)
  absorb : σ → β → σ

namespace Pool

/-- Start up to `n` threads. -/
def refill (P : Pool E σ β) : ℕ → σ → List (Thread E β) → σ × List (Thread E β)
  | 0, s, ts => (s, ts)
  | n + 1, s, ts =>
    match P.next s with
    | none => (s, ts)
    | some (t, s') => P.refill n s' (ts ++ [t])

/-- One turn: start what can be started, then let the scheduler pick a thread.
It either gets the response it waits for, or has its result absorbed. -/
def turn (P : Pool E σ β) (x : σ × List (Thread E β)) :
    Prog E (σ × List (Thread E β) ⊕ σ) :=
  let filled := P.refill (P.depth - x.2.length) x.1 x.2
  if filled.2.isEmpty then .ret (.inr filled.1)
  else .pick filled.2.length fun i =>
    match filled.2.get i with
    | .ret b => .ret (.inl (P.absorb filled.1 b, filled.2.eraseIdx i))
    | .ask e k => .thread (.request e) fun r => .ret (.inl (filled.1, filled.2.set i (k r)))

/-- Run until no thread is left. -/
def run (P : Pool E σ β) (s : σ) : Prog E σ := .loop P.turn (s, []) .ret

end Pool

end Interaction
