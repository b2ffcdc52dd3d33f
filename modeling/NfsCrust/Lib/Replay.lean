import NfsCrust.Lib.Runs

/-!
# Replaying one run of a program

`Ensures` speaks about all runs.  To exhibit one, let a player answer the requests
and make the choices of the scheduler; `Prog.play` computes where the program then
gets to, and what it computes is a run if the world allows the answers.

## Main definitions

* `Player` — what decides a run, with a state of its own.
* `Prog.play` — the run.

## Main results

* `Prog.reaches_of_play`, `Prog.exists_run_of_play` — what was played is a run.
-/

namespace Interaction

open Relation

variable {E : Interface} {W α β C : Type}

/-- Answers to requests and choices of the scheduler. -/
structure Player (E : Interface) (C : Type) where
  answer : (e : E.Request) → C → Option (E.Response e × C)
  choose : C → ℕ × C

/-- The answers are ones the world allows, with `view` the world as it is in a state
of the player. -/
structure Player.Plays (P : Player E C) (serve : (e : E.Request) → W → E.Response e → W → Prop)
    (view : C → W) : Prop where
  answer : ∀ e c r c', P.answer e c = some (r, c') → serve e (view c) r (view c')
  choose : ∀ c, view (P.choose c).2 = view c

def Thread.play (P : Player E C) : Thread E α → C → Option (α × C)
  | ret a, c => some (a, c)
  | ask e k, c => do
    let (r, c) ← P.answer e c
    (k r).play P c

/-- The result of the run, if it takes at most `n` turns and the player always has an
answer. -/
def Prog.play (P : Player E C) : ℕ → Prog E α → C → Option (α × C)
  | 0, _, _ => none
  | _ + 1, ret a, c => some (a, c)
  | n + 1, thread t k, c => do
    let (b, c) ← t.play P c
    (k b).play P n c
  | n + 1, pick m k, c =>
    if h : (P.choose c).1 < m then (k ⟨_, h⟩).play P n (P.choose c).2 else none
  | n + 1, loop body s k, c => ((body s).bind (unroll body k)).play P n c

variable {serve : (e : E.Request) → W → E.Response e → W → Prop} {view : C → W}
  {P : Player E C}

theorem Thread.reaches_of_play (h : P.Plays serve view) {t : Thread E β} {k : β → Prog E α}
    {c c' : C} {b : β} (hplay : t.play P c = some (b, c')) :
    ReflTransGen (Step serve) (.thread t k, view c) (k b, view c') := by
  induction t generalizing c with
  | ret b =>
    cases hplay
    exact .single .ret
  | ask e t ih =>
    obtain ⟨⟨r, c₁⟩, hanswer, hrest⟩ := Option.bind_eq_some_iff.mp hplay
    exact .head (.ask (h.answer e c r c₁ hanswer)) (ih r hrest)

/-- What was played is a run. -/
theorem Prog.reaches_of_play (h : P.Plays serve view) {n : ℕ} {p : Prog E α} {c c' : C} {a : α}
    (hplay : p.play P n c = some (a, c')) :
    ReflTransGen (Step serve) (p, view c) (.ret a, view c') := by
  induction n generalizing p c with
  | zero => cases hplay
  | succ n ih =>
    cases p with
    | ret a =>
      cases hplay
      exact .refl
    | thread t k =>
      obtain ⟨⟨b, c₁⟩, hthread, hrest⟩ := Option.bind_eq_some_iff.mp hplay
      exact (Thread.reaches_of_play h hthread).trans (ih hrest)
    | pick m k =>
      rw [play] at hplay
      split at hplay
      · next hlt =>
        have hrest := ih hplay
        rw [h.choose] at hrest
        exact .head (.pick _) hrest
      · cases hplay
    | loop body s k => exact .head .loop (ih hplay)

/-- A run whose result passes a test. -/
theorem Prog.exists_run_of_play (h : P.Plays serve view) (n : ℕ) (p : Prog E α) (c : C)
    (test : α → C → Bool) (hplay : (p.play P n c).any (fun x => test x.1 x.2) = true) :
    ∃ a c', ReflTransGen (Step serve) (p, view c) (.ret a, view c') ∧ test a c' = true := by
  obtain ⟨⟨a, c'⟩, hresult, htest⟩ := (Option.any_eq_true _ _).mp hplay
  exact ⟨a, c', reaches_of_play h hresult, htest⟩

end Interaction
