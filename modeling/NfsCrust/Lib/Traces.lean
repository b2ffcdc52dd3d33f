import NfsCrust.Lib.Prog

/-!
# The requests of a thread

Whatever a thread is answered, it makes finitely many requests and returns.  A trace is
the requests of one such run, in order, with what it returned.

## Main definitions

* `Thread.Traces` — the requests and the result of a run.

## Main results

* `Thread.traces_bind`, `Thread.traces_bindExcept` — the trace of a sequence.
* `Thread.exists_traces` — every thread has a run, if every request has a response.
-/

namespace Interaction

variable {E : Interface} {α β ε : Type}

namespace Thread

/-- For some responses the thread makes the requests `es`, in this order, and returns `a`. -/
inductive Traces : Thread E α → List E.Request → α → Prop
  | ret (a : α) : Traces (.ret a) [] a
  | ask {e : E.Request} {k : E.Response e → Thread E α} {es : List E.Request} {a : α}
      (r : E.Response e) (h : Traces (k r) es a) : Traces (.ask e k) (e :: es) a

theorem traces_ret {a b : α} {es : List E.Request} :
    Traces (.ret a) es b ↔ es = [] ∧ b = a := by
  constructor
  · intro h
    cases h
    exact ⟨rfl, rfl⟩
  · rintro ⟨rfl, rfl⟩
    exact .ret b

theorem eq_singleton_of_traces_request {e : E.Request} {es : List E.Request} {r : E.Response e}
    (h : (request e).Traces es r) : es = [e] := by
  cases h with
  | ask r h =>
    obtain ⟨rfl, _⟩ := traces_ret.mp h
    rfl

/-- The trace of a sequence is that of its first part and then that of the second. -/
theorem traces_bind {t : Thread E α} {f : α → Thread E β} {es : List E.Request} {b : β} :
    (t.bind f).Traces es b ↔
      ∃ es₁ es₂ a, t.Traces es₁ a ∧ (f a).Traces es₂ b ∧ es = es₁ ++ es₂ := by
  induction t generalizing es with
  | ret a =>
    constructor
    · intro h
      exact ⟨[], es, a, .ret a, h, rfl⟩
    · rintro ⟨_, es₂, _, ⟨⟩, h, rfl⟩
      exact h
  | ask e k ih =>
    constructor
    · intro h
      cases h with
      | ask r h =>
        obtain ⟨es₁, es₂, a, h₁, h₂, rfl⟩ := (ih r).mp h
        exact ⟨e :: es₁, es₂, a, .ask r h₁, h₂, rfl⟩
    · rintro ⟨_, es₂, a, h₁, h₂, rfl⟩
      cases h₁ with
      | ask r h₁ => exact .ask r ((ih r).mpr ⟨_, es₂, a, h₁, h₂, rfl⟩)

/-- A sequence of threads that may fail goes on after a success and stops at a failure. -/
theorem traces_bindExcept {t : ExceptT ε (Thread E) α} {f : α → ExceptT ε (Thread E) β}
    {es : List E.Request} {r : Except ε β} :
    (t >>= f).run.Traces es r ↔
      (∃ es₁ es₂ a, t.run.Traces es₁ (.ok a) ∧ (f a).run.Traces es₂ r ∧ es = es₁ ++ es₂) ∨
      ∃ err, t.run.Traces es (.error err) ∧ r = .error err := by
  have hbind : (t >>= f).run = t.run.bind (ExceptT.bindCont f) := rfl
  rw [hbind, traces_bind]
  constructor
  · rintro ⟨es₁, es₂, a, h₁, h₂, rfl⟩
    cases a with
    | ok a => exact .inl ⟨es₁, es₂, a, h₁, h₂, rfl⟩
    | error err =>
      obtain ⟨rfl, rfl⟩ := traces_ret.mp h₂
      rw [List.append_nil]
      exact .inr ⟨err, h₁, rfl⟩
  · rintro (⟨es₁, es₂, a, h₁, h₂, rfl⟩ | ⟨err, h₁, rfl⟩)
    · exact ⟨es₁, es₂, .ok a, h₁, h₂, rfl⟩
    · exact ⟨es, [], .error err, h₁, .ret _, (List.append_nil es).symm⟩

theorem exists_traces (hresponse : ∀ e, Nonempty (E.Response e)) (t : Thread E α) :
    ∃ es a, t.Traces es a := by
  induction t with
  | ret a => exact ⟨[], a, .ret a⟩
  | ask e k ih =>
    obtain ⟨r⟩ := hresponse e
    obtain ⟨es, a, h⟩ := ih r
    exact ⟨e :: es, a, .ask r h⟩

end Thread

end Interaction
