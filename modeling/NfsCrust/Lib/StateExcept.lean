import Mathlib.Algebra.Order.Ring.Nat
import Mathlib.Tactic.Common

/-!
# Running a state computation that may fail

One step at a time through `StateT σ (Except ε)`: what a bind does once its first
computation is known to have succeeded or failed, and what a computation may end in.

## Main definitions

* `StateExcept.Ends` — the result, the state or the error a run ends in.
* `StateExcept.Preserves` — a computation keeps an invariant of the state and fails only
  with the errors it may fail with.

## Main results

* `StateExcept.run_bind_ok`, `StateExcept.run_bind_error` — run the first
  computation of a bind.
* `StateExcept.run_get_bind`, `StateExcept.run_lift_bind` — look at the state, or
  take a pure step that succeeds.
* `StateExcept.exists_of_run_bind` — a bind that succeeded ran both its parts.
* `StateExcept.Gives.bind` — what holds of every result of a bind.
* `StateExcept.Ends.bind`, `StateExcept.Preserves.bind` — both hold of a bind when they hold
  of its parts.
-/

namespace StateExcept

variable {σ ε α β : Type}

theorem run_bind_ok {m : StateT σ (Except ε) α} {f : α → StateT σ (Except ε) β} {s s' : σ} {a : α}
    (h : m.run s = .ok (a, s')) : (m >>= f).run s = (f a).run s' := by
  rw [StateT.run_bind, h]
  rfl

theorem run_bind_error {m : StateT σ (Except ε) α} {f : α → StateT σ (Except ε) β} {s : σ} {e : ε}
    (h : m.run s = .error e) : (m >>= f).run s = .error e := by
  rw [StateT.run_bind, h]
  rfl

theorem exists_of_run_bind {m : StateT σ (Except ε) α} {f : α → StateT σ (Except ε) β} {s s' : σ}
    {b : β} (h : (m >>= f).run s = .ok (b, s')) :
    ∃ a s₁, m.run s = .ok (a, s₁) ∧ (f a).run s₁ = .ok (b, s') := by
  cases hm : m.run s with
  | error err =>
    rw [run_bind_error hm] at h
    cases h
  | ok r =>
    obtain ⟨a, s₁⟩ := r
    rw [run_bind_ok hm] at h
    exact ⟨a, s₁, rfl, h⟩

theorem run_get_bind (f : σ → StateT σ (Except ε) β) (s : σ) :
    ((get : StateT σ (Except ε) σ) >>= f).run s = (f s).run s := rfl

theorem run_lift_bind {x : Except ε α} {f : α → StateT σ (Except ε) β} {a : α} (s : σ)
    (h : x = .ok a) : ((liftM x : StateT σ (Except ε) α) >>= f).run s = (f a).run s := by
  subst h
  rfl

/-! ### What a run ends in -/

/-- Started in `s`, `m` ends in a result and a state with `post`, or in an error with
`err`. -/
def Ends (m : StateT σ (Except ε) α) (s : σ) (post : α → σ → Prop) (err : ε → Prop) : Prop :=
  match m.run s with
  | .ok (a, s') => post a s'
  | .error e => err e

section

variable {m : StateT σ (Except ε) α} {f : α → StateT σ (Except ε) β} {s : σ}
  {post : α → σ → Prop} {err : ε → Prop}

theorem ends_pure {a : α} (h : post a s) : Ends (pure a) s post err := h

theorem ends_throw {e : ε} (h : err e) : Ends (throw e) s post err := h

theorem ends_get {post : σ → σ → Prop} (h : post s s) : Ends get s post err := h

theorem ends_lift {x : Except ε α} (hok : ∀ a, x = .ok a → post a s)
    (herr : ∀ e, x = .error e → err e) : Ends (liftM x) s post err := by
  cases x with
  | ok a => exact hok a rfl
  | error e => exact herr e rfl

theorem Ends.bind {post : β → σ → Prop}
    (h : Ends m s (fun a s' => Ends (f a) s' post err) err) : Ends (m >>= f) s post err := by
  unfold Ends at h
  cases hrun : m.run s with
  | ok r =>
    rw [hrun] at h
    unfold Ends
    rw [run_bind_ok hrun]
    exact h
  | error e =>
    rw [hrun] at h
    unfold Ends
    rw [run_bind_error hrun]
    exact h

theorem Ends.mono {post' : α → σ → Prop} (h : Ends m s post err)
    (hpost : ∀ a s', post a s' → post' a s') : Ends m s post' err := by
  unfold Ends at h ⊢
  cases hrun : m.run s with
  | ok r =>
    rw [hrun] at h
    exact hpost _ _ h
  | error e =>
    rw [hrun] at h
    exact h

end

/-- Every result of `m` satisfies `post`, from whatever state it is started. -/
def Gives (m : StateT σ (Except ε) α) (post : α → Prop) : Prop :=
  ∀ s a s', m.run s = .ok (a, s') → post a

section

variable {m : StateT σ (Except ε) α} {f : α → StateT σ (Except ε) β} {post : α → Prop}

theorem gives_pure {a : α} (h : post a) : Gives (pure a : StateT σ (Except ε) α) post := by
  intro s b s' hrun
  cases hrun
  exact h

theorem gives_throw (e : ε) : Gives (throw e : StateT σ (Except ε) α) post := by
  intro s a s' hrun
  cases hrun

theorem gives_lift (x : Except ε α) :
    Gives (liftM x : StateT σ (Except ε) α) fun a => x = .ok a := by
  intro s a s' hrun
  cases x with
  | error e => cases hrun
  | ok b =>
    cases hrun
    rfl

theorem Gives.bind {post' : β → Prop} (hm : Gives m post) (hf : ∀ a, post a → Gives (f a) post') :
    Gives (m >>= f) post' := by
  intro s b s' hrun
  obtain ⟨a, s₁, hrun₁, hrun₂⟩ := exists_of_run_bind hrun
  exact hf a (hm s a s₁ hrun₁) s₁ b s' hrun₂

/-- A step of which nothing is needed. -/
theorem gives_bind {post' : β → Prop} (hf : ∀ a, Gives (f a) post') : Gives (m >>= f) post' := by
  have hm : Gives m fun _ => True := fun _ _ _ _ => trivial
  exact hm.bind fun a _ => hf a

end

/-- From a state with `inv`, `m` ends in a state with `inv` or in an error with `err`. -/
def Preserves (inv : σ → Prop) (err : ε → Prop) (m : StateT σ (Except ε) α) : Prop :=
  ∀ s, inv s → Ends m s (fun _ s' => inv s') err

section

variable {m : StateT σ (Except ε) α} {f : α → StateT σ (Except ε) β} {inv : σ → Prop}
  {err : ε → Prop}

theorem preserves_pure (a : α) : Preserves inv err (pure a) := fun _ hs => ends_pure hs

theorem preserves_throw {e : ε} (h : err e) :
    Preserves inv err (throw e : StateT σ (Except ε) α) := fun _ _ => ends_throw h

theorem preserves_lift {x : Except ε α} (h : ∀ e, x = .error e → err e) :
    Preserves inv err (liftM x : StateT σ (Except ε) α) :=
  fun _ hs => ends_lift (fun _ _ => hs) h

theorem Preserves.bind (hm : Preserves inv err m) (hf : ∀ a, Preserves inv err (f a)) :
    Preserves inv err (m >>= f) :=
  fun s hs => Ends.bind ((hm s hs).mono fun a s' hs' => hf a s' hs')

end

end StateExcept
