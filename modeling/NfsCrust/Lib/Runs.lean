import Mathlib.Data.List.Forall2
import Mathlib.Logic.Relation
import NfsCrust.Lib.Prog

/-!
# What a program ensures

A program runs against a world that answers its requests: `serve e w r w'` says
that in world `w` the request `e` may be answered by `r`, which leaves world `w'`.
`Ensures` states what holds in every world the program can bring about, and of
every result, and there is one rule for each construct.

A thread in a pool shares the world with others.  `Thread.Safe` is the usual rely
and guarantee: what the thread promises, given that the world only changes as
`rely` allows while it is not served.

## Main definitions

* `Step`, `Ensures` — runs of a program, and what holds in all of them.
* `Thread.Safe` — what a thread promises under interference.

## Main results

* `ensures_bind`, `ensures_bindExcept`, `ensures_thread`, `ensures_loop` — the
  rules.
* `Pool.ensures_run` — a pool keeps an invariant that relates its state to a label
  of each thread in flight.
-/

namespace Interaction

open Relation

variable {E : Interface} {W α β σ ε : Type}
  {serve : (e : E.Request) → W → E.Response e → W → Prop}

/-! ### Runs -/

/-- One step of a program and its world. -/
inductive Step (serve : (e : E.Request) → W → E.Response e → W → Prop) :
    Prog E α × W → Prog E α × W → Prop
  | ret {β : Type} {b : β} {k : β → Prog E α} {w : W} : Step serve (.thread (.ret b) k, w) (k b, w)
  | ask {β : Type} {e : E.Request} {t : E.Response e → Thread E β} {k : β → Prog E α} {w w' : W}
      {r : E.Response e} (h : serve e w r w') :
      Step serve (.thread (.ask e t) k, w) (.thread (t r) k, w')
  | pick {n : ℕ} {k : Fin n → Prog E α} {w : W} (i : Fin n) : Step serve (.pick n k, w) (k i, w)
  | loop {β σ : Type} {body : σ → Prog E (σ ⊕ β)} {s : σ} {k : β → Prog E α} {w : W} :
      Step serve (.loop body s k, w) ((body s).bind (.unroll body k), w)

/-- In every run of `p` from `w`, each world satisfies `always`, and a result
satisfies `post`. -/
def Ensures (serve : (e : E.Request) → W → E.Response e → W → Prop) (always : W → Prop)
    (p : Prog E α) (w : W) (post : α → W → Prop) : Prop :=
  ∀ c, ReflTransGen (Step serve) (p, w) c → always c.2 ∧ ∀ a, c.1 = .ret a → post a c.2

variable {always : W → Prop} {w : W} {post : α → W → Prop}

theorem Ensures.now {p : Prog E α} (h : Ensures serve always p w post) : always w :=
  (h _ .refl).1

theorem Ensures.result {a : α} (h : Ensures serve always (.ret a) w post) : post a w :=
  (h _ .refl).2 a rfl

theorem Ensures.step {p p' : Prog E α} {w' : W} (h : Ensures serve always p w post)
    (hstep : Step serve (p, w) (p', w')) : Ensures serve always p' w' post :=
  fun c hc => h c (.head hstep hc)

/-- To show what a program ensures, give a set of configurations that steps do not
leave. -/
theorem Ensures.of_invariant {p : Prog E α} (I : Prog E α → W → Prop) (hstart : I p w)
    (halways : ∀ p w, I p w → always w) (hpost : ∀ a w, I (.ret a) w → post a w)
    (hstep : ∀ p w p' w', I p w → Step serve (p, w) (p', w') → I p' w') :
    Ensures serve always p w post := by
  intro c hc
  have hI : I c.1 c.2 := by
    induction hc with
    | refl => exact hstart
    | tail _ hlast ih => exact hstep _ _ _ _ ih hlast
  exact ⟨halways _ _ hI, fun a ha => hpost a _ (ha ▸ hI)⟩

theorem Ensures.mono {p : Prog E α} {post' : α → W → Prop} (h : Ensures serve always p w post)
    (himp : ∀ a w, always w → post a w → post' a w) : Ensures serve always p w post' :=
  fun c hc => ⟨(h c hc).1, fun a ha => himp a _ (h c hc).1 ((h c hc).2 a ha)⟩

theorem Ensures.weaken {p : Prog E α} {always' : W → Prop} (h : Ensures serve always p w post)
    (himp : ∀ w, always w → always' w) : Ensures serve always' p w post :=
  fun c hc => ⟨himp _ (h c hc).1, (h c hc).2⟩

theorem Ensures.and {p : Prog E α} {always' : W → Prop} {post' : α → W → Prop}
    (h : Ensures serve always p w post) (h' : Ensures serve always' p w post') :
    Ensures serve (fun w => always w ∧ always' w) p w fun a w => post a w ∧ post' a w :=
  fun c hc => ⟨⟨(h c hc).1, (h' c hc).1⟩, fun a ha => ⟨(h c hc).2 a ha, (h' c hc).2 a ha⟩⟩

/-- What holds of every answer of the surroundings holds throughout a run. -/
theorem Ensures.of_kept {p : Prog E α} (J : W → Prop) (hw : J w)
    (hserve : ∀ e w r w', J w → serve e w r w' → J w') :
    Ensures serve J p w fun _ w => J w := by
  refine .of_invariant (fun _ w => J w) hw (fun _ _ h => h) (fun _ _ h => h) ?_
  intro p w p' w' h hstep
  cases hstep with
  | ret | pick | loop => exact h
  | ask hanswer => exact hserve _ _ _ _ h hanswer

/-- What a program ensures where only a part of the world is seen. -/
theorem Ensures.of_view {V : Type} {serve' : (e : E.Request) → V → E.Response e → V → Prop}
    {always' : V → Prop} {post' : α → V → Prop} {p : Prog E α} (view : W → V)
    (hserve : ∀ e w r w', serve e w r w' → serve' e (view w) r (view w'))
    (h : Ensures serve' always' p (view w) post') :
    Ensures serve (fun w => always' (view w)) p w fun a w => post' a (view w) := by
  intro c hc
  refine h (c.1, view c.2) (hc.lift (fun c => (c.1, view c.2)) ?_)
  rintro ⟨q, v⟩ ⟨q', v'⟩ hstep
  cases hstep with
  | ret => exact .ret
  | ask hanswer => exact .ask (hserve _ _ _ _ hanswer)
  | pick i => exact .pick i
  | loop => exact .loop

/-! ### Rules -/

theorem ensures_ret {a : α} (hw : always w) (h : post a w) :
    Ensures serve always (.ret a) w post := by
  refine .of_invariant (fun p w' => p = .ret a ∧ w' = w) ⟨rfl, rfl⟩ ?_ ?_ ?_
  · rintro _ _ ⟨-, rfl⟩
    exact hw
  · rintro a' _ ⟨ha, rfl⟩
    cases ha
    exact h
  · rintro _ _ _ _ ⟨rfl, rfl⟩ hstep
    cases hstep

/-- A program that is not a result ensures what all its successors ensure. -/
theorem ensures_of_steps {p : Prog E α} (hw : always w) (hret : ∀ a, p ≠ .ret a)
    (h : ∀ p' w', Step serve (p, w) (p', w') → Ensures serve always p' w' post) :
    Ensures serve always p w post := by
  refine .of_invariant (fun q v => (q = p ∧ v = w) ∨ Ensures serve always q v post)
    (Or.inl ⟨rfl, rfl⟩) ?_ ?_ ?_
  · rintro q v (⟨-, rfl⟩ | hq)
    · exact hw
    · exact hq.now
  · rintro a v (⟨ha, -⟩ | hq)
    · exact absurd ha.symm (hret a)
    · exact hq.result
  · rintro q v q' v' (⟨rfl, rfl⟩ | hq) hstep
    · exact Or.inr (h _ _ hstep)
    · exact Or.inr (hq.step hstep)

theorem ensures_pick {n : ℕ} {k : Fin n → Prog E α} (hw : always w)
    (h : ∀ i, Ensures serve always (k i) w post) : Ensures serve always (.pick n k) w post := by
  refine ensures_of_steps hw nofun fun p' w' hstep => ?_
  cases hstep with
  | pick i => exact h i

/-- A step of `p.bind f` is a step of `p`, unless `p` is a result. -/
theorem Step.of_bind {p : Prog E α} {f : α → Prog E β} {q : Prog E β} {w' : W}
    (hstep : Step serve (p.bind f, w) (q, w')) :
    (∃ a, p = .ret a) ∨ ∃ p', Step serve (p, w) (p', w') ∧ q = p'.bind f := by
  cases p with
  | ret a => exact Or.inl ⟨a, rfl⟩
  | thread t k =>
    refine Or.inr ?_
    cases hstep with
    | ret => exact ⟨_, .ret, rfl⟩
    | ask h => exact ⟨_, .ask h, rfl⟩
  | pick n k =>
    cases hstep with
    | pick i => exact Or.inr ⟨_, .pick i, rfl⟩
  | loop body s k =>
    cases hstep with
    | loop =>
      refine Or.inr ⟨_, .loop, ?_⟩
      rw [Prog.unroll_bind, Prog.bind_assoc]

theorem ensures_bind {p : Prog E α} {f : α → Prog E β} {post : β → W → Prop}
    (h : Ensures serve always p w fun a w' => Ensures serve always (f a) w' post) :
    Ensures serve always (p.bind f) w post := by
  -- the configurations before `p` has returned, and those after
  refine .of_invariant (fun q v => (∃ p', q = p'.bind f ∧ Ensures serve always p' v
    fun a w' => Ensures serve always (f a) w' post) ∨ Ensures serve always q v post)
    (Or.inl ⟨p, rfl, h⟩) ?_ ?_ ?_
  · rintro q v (⟨p', -, hp⟩ | hq)
    · exact hp.now
    · exact hq.now
  · rintro b v (⟨p', hret, hp⟩ | hq)
    · cases p' with
      | ret a => exact (hret ▸ hp.result : Ensures serve always (.ret b) v post).result
      | thread | pick | loop => cases hret
    · exact hq.result
  · rintro q v q' v' (⟨p', rfl, hp⟩ | hq) hstep
    · obtain ⟨a, rfl⟩ | ⟨p'', hstep', rfl⟩ := hstep.of_bind
      · exact Or.inr (hp.result.step hstep)
      · exact Or.inl ⟨p'', rfl, hp.step hstep'⟩
    · exact Or.inr (hq.step hstep)

/-- The rule for a bind of programs that may fail. -/
theorem ensures_bindExcept {p : ExceptT ε (Prog E) α} {f : α → ExceptT ε (Prog E) β}
    {post : Except ε β → W → Prop}
    (h : Ensures serve always p.run w fun
      | .ok a, w' => Ensures serve always (f a).run w' post
      | .error err, w' => post (.error err) w') :
    Ensures serve always (p >>= f).run w post := by
  refine ensures_bind (h.mono fun r w' hw' hr => ?_)
  cases r with
  | ok a => exact hr
  | error err => exact ensures_ret hw' hr

theorem ensures_throw {err : ε} {post : Except ε α → W → Prop} (hw : always w)
    (h : post (.error err) w) :
    Ensures serve always (throw err : ExceptT ε (Prog E) α).run w post := ensures_ret hw h

theorem ensures_pure {a : α} {post : Except ε α → W → Prop} (hw : always w) (h : post (.ok a) w) :
    Ensures serve always (pure a : ExceptT ε (Prog E) α).run w post := ensures_ret hw h

/-- A pure step that may fail. -/
theorem ensures_except {x : Except ε α} {post : Except ε α → W → Prop} (hw : always w)
    (h : post x w) : Ensures serve always (liftM x : ExceptT ε (Prog E) α).run w post :=
  ensures_ret hw h

/-- A program that cannot fail. -/
theorem ensures_lift {p : Prog E α} {post : Except ε α → W → Prop}
    (h : Ensures serve always p w fun a w' => post (.ok a) w') :
    Ensures serve always (liftM p : ExceptT ε (Prog E) α).run w post :=
  ensures_bind (h.mono fun _ _ hw ha => ensures_ret hw ha)

theorem ensures_attempt {p : ExceptT ε (Prog E) α} {post : Except ε (Except ε α) → W → Prop}
    (h : Ensures serve always p.run w fun r w' => post (.ok r) w') :
    Ensures serve always (Prog.attempt p).run w post :=
  ensures_bind (h.mono fun _ _ hw ha => ensures_ret hw ha)

/-- The rule for loops: `I` holds before every turn. -/
theorem ensures_loop {body : σ → Prog E (σ ⊕ β)} {s : σ} {k : β → Prog E α} (I : σ → W → Prop)
    (J : β → W → Prop) (hstart : I s w) (halways : ∀ s w, I s w → always w)
    (hbody : ∀ s w, I s w → Ensures serve always (body s) w fun
      | .inl s', w' => I s' w'
      | .inr b, w' => J b w')
    (hk : ∀ b w, always w → J b w → Ensures serve always (k b) w post) :
    Ensures serve always (.loop body s k) w post := by
  let turnPost : σ ⊕ β → W → Prop := fun
    | .inl s', w' => I s' w'
    | .inr b, w' => J b w'
  -- a loop about to take a turn, a turn in progress, or the rest of the program
  refine .of_invariant (fun q v => (∃ s, q = .loop body s k ∧ I s v) ∨
    (∃ p, q = p.bind (.unroll body k) ∧ Ensures serve always p v turnPost) ∨
    Ensures serve always q v post) (Or.inl ⟨s, rfl, hstart⟩) ?_ ?_ ?_
  · rintro q v (⟨s, -, hs⟩ | ⟨p, -, hp⟩ | hq)
    · exact halways s v hs
    · exact hp.now
    · exact hq.now
  · rintro a v (⟨s, hret, -⟩ | ⟨p, hret, hp⟩ | hq)
    · cases hret
    · cases p with
      | ret x =>
        have hx : turnPost x v := hp.result
        cases x with
        | inl s' => cases hret
        | inr b => exact (hret ▸ hk b v hp.now hx : Ensures serve always (.ret a) v post).result
      | thread | pick | loop => cases hret
    · exact hq.result
  · rintro q v q' v' (⟨s, rfl, hs⟩ | ⟨p, rfl, hp⟩ | hq) hstep
    · cases hstep with
      | loop => exact Or.inr (Or.inl ⟨_, rfl, hbody s v hs⟩)
    · obtain ⟨x, rfl⟩ | ⟨p', hstep', rfl⟩ := hstep.of_bind
      · have hx : turnPost x v := hp.result
        cases x with
        | inl s' =>
          cases hstep with
          | loop => exact Or.inr (Or.inl ⟨_, rfl, hbody s' v hx⟩)
        | inr b => exact Or.inr (Or.inr ((hk b v hp.now hx).step hstep))
      · exact Or.inr (Or.inl ⟨p', rfl, hp.step hstep'⟩)
    · exact Or.inr (Or.inr (hq.step hstep))

/-- The rule for loops that may fail. -/
theorem ensures_loopExcept {body : σ → ExceptT ε (Prog E) (σ ⊕ β)} {s : σ}
    {post : Except ε β → W → Prop} (I : σ → W → Prop) (hstart : I s w)
    (halways : ∀ s w, I s w → always w)
    (hbody : ∀ s w, I s w → Ensures serve always (body s).run w fun
      | .ok (.inl s'), w' => I s' w'
      | .ok (.inr b), w' => post (.ok b) w'
      | .error err, w' => post (.error err) w') :
    Ensures serve always (Prog.loopExcept body s).run w post := by
  refine ensures_loop I post hstart halways (fun s w hs => ensures_bind ?_)
    fun _ _ hw hpost => ensures_ret hw hpost
  refine (hbody s w hs).mono fun r w' hw' hr => ?_
  match r, hr with
  | .ok (.inl s'), hr => exact ensures_ret hw' hr
  | .ok (.inr b), hr => exact ensures_ret hw' hr
  | .error err, hr => exact ensures_ret hw' hr

/-! ### Threads -/

namespace Thread

/-- The thread keeps to `guar` whenever it is served and returns a result that
satisfies `post`, if the world changes only as `rely` allows in between. -/
def Safe (serve : (e : E.Request) → W → E.Response e → W → Prop) (rely guar : W → W → Prop)
    (post : α → W → Prop) : Thread E α → W → Prop
  | ret a, w => post a w
  | ask e k, w => ∀ w₁ r w₂, rely w w₁ → serve e w₁ r w₂ →
      guar w₁ w₂ ∧ (k r).Safe serve rely guar post w₂

variable {rely guar : W → W → Prop} {t : Thread E α}

theorem safe_ret {a : α} (h : post a w) : (ret a).Safe serve rely guar post w := h

theorem safe_request {e : E.Request} {post : E.Response e → W → Prop}
    (h : ∀ w₁ r w₂, rely w w₁ → serve e w₁ r w₂ → guar w₁ w₂ ∧ post r w₂) :
    (request e).Safe serve rely guar post w := h

theorem Safe.mono {post' : α → W → Prop} (h : t.Safe serve rely guar post w)
    (himp : ∀ a w, post a w → post' a w) : t.Safe serve rely guar post' w := by
  induction t generalizing w with
  | ret a => exact himp a w h
  | ask e k ih =>
    intro w₁ r w₂ hrely hserve
    obtain ⟨hguar, hrest⟩ := h w₁ r w₂ hrely hserve
    exact ⟨hguar, ih r hrest⟩

/-- A thread that relies on less, and need not guarantee as much. -/
theorem Safe.weaken {rely' guar' : W → W → Prop} (h : t.Safe serve rely guar post w)
    (hrely : ∀ a b, rely' a b → rely a b) (hguar : ∀ a b, guar a b → guar' a b) :
    t.Safe serve rely' guar' post w := by
  induction t generalizing w with
  | ret a => exact h
  | ask e k ih =>
    intro w₁ r w₂ hrely₁ hserve
    obtain ⟨hg, hrest⟩ := h w₁ r w₂ (hrely _ _ hrely₁) hserve
    exact ⟨hguar _ _ hg, ih r hrest⟩

theorem safe_bind {f : α → Thread E β} {post : β → W → Prop}
    (h : t.Safe serve rely guar (fun a w' => (f a).Safe serve rely guar post w') w) :
    (t.bind f).Safe serve rely guar post w := by
  induction t generalizing w with
  | ret a => exact h
  | ask e k ih =>
    intro w₁ r w₂ hrely hserve
    obtain ⟨hguar, hrest⟩ := h w₁ r w₂ hrely hserve
    exact ⟨hguar, ih r hrest⟩

theorem safe_throw {err : ε} {post : Except ε α → W → Prop} (h : post (.error err) w) :
    (throw err : ExceptT ε (Thread E) α).run.Safe serve rely guar post w := h

theorem safe_pure {a : α} {post : Except ε α → W → Prop} (h : post (.ok a) w) :
    (pure a : ExceptT ε (Thread E) α).run.Safe serve rely guar post w := h

/-- A pure step that may fail. -/
theorem safe_except {x : Except ε α} {post : Except ε α → W → Prop} (h : post x w) :
    (liftM x : ExceptT ε (Thread E) α).run.Safe serve rely guar post w := h

/-- A thread that cannot fail. -/
theorem safe_lift {post : Except ε α → W → Prop}
    (h : t.Safe serve rely guar (fun a w' => post (.ok a) w') w) :
    (liftM t : ExceptT ε (Thread E) α).run.Safe serve rely guar post w :=
  safe_bind (h.mono fun _ _ ha => ha)

theorem safe_attempt {t : ExceptT ε (Thread E) α} {post : Except ε (Except ε α) → W → Prop}
    (h : t.run.Safe serve rely guar (fun r w' => post (.ok r) w') w) :
    (attempt t).run.Safe serve rely guar post w := safe_bind h

/-- The rule for a bind of threads that may fail. -/
theorem safe_bindExcept {t : ExceptT ε (Thread E) α} {f : α → ExceptT ε (Thread E) β}
    {post : Except ε β → W → Prop}
    (h : t.run.Safe serve rely guar (fun
      | .ok a, w' => (f a).run.Safe serve rely guar post w'
      | .error err, w' => post (.error err) w') w) :
    (t >>= f).run.Safe serve rely guar post w := by
  refine safe_bind (h.mono fun r w' hr => ?_)
  cases r with
  | ok a => exact hr
  | error err => exact hr

/-- What a thread promises survives what it relies on. -/
theorem Safe.of_rely {w' : W} (h : t.Safe serve rely guar post w) (hrely : rely w w')
    (htrans : ∀ a b c, rely a b → rely b c → rely a c)
    (hpost : ∀ a w w', post a w → rely w w' → post a w') :
    t.Safe serve rely guar post w' := by
  cases t with
  | ret a => exact hpost a w w' h hrely
  | ask e k => exact fun w₁ r w₂ hrely₁ => h w₁ r w₂ (htrans _ _ _ hrely hrely₁)

end Thread

/-- The rule for a thread that runs alone. -/
theorem ensures_thread {t : Thread E β} {k : β → Prog E α} (hw : always w)
    (h : t.Safe serve Eq (fun _ w' => always w')
      (fun b w' => always w' → Ensures serve always (k b) w' post) w) :
    Ensures serve always (.thread t k) w post := by
  induction t generalizing w with
  | ret b =>
    refine ensures_of_steps hw nofun fun p' w' hstep => ?_
    cases hstep with
    | ret => exact h hw
  | ask e t ih =>
    refine ensures_of_steps hw nofun fun p' w' hstep => ?_
    cases hstep with
    | ask hserve =>
      obtain ⟨hw', hrest⟩ := h _ _ _ rfl hserve
      exact ih _ hw' hrest

/-- A thread that may fail, running alone. -/
theorem ensures_liftThreadExcept {t : ExceptT ε (Thread E) α} {post : Except ε α → W → Prop}
    (hw : always w) (h : t.run.Safe serve Eq (fun _ w' => always w')
      (fun r w' => always w' → post r w') w) :
    Ensures serve always (liftM t : ExceptT ε (Prog E) α).run w post :=
  ensures_thread hw (h.mono fun _ _ hr hw' => ensures_ret hw' (hr hw'))

/-- A thread that cannot fail, running alone. -/
theorem ensures_liftThread {t : Thread E α} {post : Except ε α → W → Prop}
    (hw : always w) (h : t.Safe serve Eq (fun _ w' => always w')
      (fun a w' => always w' → post (.ok a) w') w) :
    Ensures serve always (liftM t : ExceptT ε (Prog E) α).run w post :=
  ensures_liftThreadExcept hw (Thread.safe_lift h)

/-! ### Pools -/

namespace Pool

variable {X : Type} {P : Pool E σ β} {labelled : X → Thread E β → W → Prop}
  {I : σ → List X → W → Prop}

/-- Starting threads keeps the invariant. -/
theorem refill_spec
    (hnext : ∀ s xs w t s', I s xs w → P.next s = some (t, s') →
      ∃ x, labelled x t w ∧ I s' (xs ++ [x]) w)
    (n : ℕ) (s : σ) (ts : List (Thread E β)) (xs : List X) (hI : I s xs w)
    (hts : List.Forall₂ (fun x t => labelled x t w) xs ts) :
    ∃ xs', I (P.refill n s ts).1 xs' w ∧
      List.Forall₂ (fun x t => labelled x t w) xs' (P.refill n s ts).2 := by
  induction n generalizing s ts xs with
  | zero => exact ⟨xs, hI, hts⟩
  | succ n ih =>
    rw [refill]
    split
    · exact ⟨xs, hI, hts⟩
    · next t s' hsome =>
      obtain ⟨x, hx, hI'⟩ := hnext s xs w t s' hI hsome
      exact ih s' _ _ hI' (List.rel_append hts (.cons hx .nil))

theorem length_le_refill (n : ℕ) (s : σ) (ts : List (Thread E β)) :
    ts.length ≤ (P.refill n s ts).2.length := by
  induction n generalizing s ts with
  | zero => exact Nat.le_refl _
  | succ n ih =>
    rw [refill]
    split
    · exact Nat.le_refl _
    · next t s' _ =>
      have := ih s' (ts ++ [t])
      simp only [List.length_append] at this
      omega

/-- A pool with nothing in flight after starting threads had nothing to start. -/
theorem refill_eq_self (hdepth : 0 < P.depth) {s : σ} {ts : List (Thread E β)}
    (hnil : (P.refill (P.depth - ts.length) s ts).2 = []) :
    (P.refill (P.depth - ts.length) s ts).1 = s ∧ P.next s = none := by
  have hts : ts = [] := by
    have := length_le_refill (P := P) (P.depth - ts.length) s ts
    rw [hnil] at this
    exact List.eq_nil_of_length_eq_zero (Nat.le_zero.mp this)
  subst hts
  obtain ⟨n, hn⟩ : ∃ n, P.depth - ([] : List (Thread E β)).length = n + 1 :=
    ⟨P.depth - 1, by rw [List.length_nil]; omega⟩
  rw [hn] at hnil ⊢
  rw [refill] at hnil ⊢
  split at hnil
  · next hnone => exact ⟨rfl, hnone⟩
  · next t s' _ =>
    have := length_le_refill (P := P) n s' ([] ++ [t])
    rw [hnil, List.nil_append] at this
    cases this

/-- The label of a thread in flight, among the others. -/
theorem exists_label {R : X → Thread E β → Prop} {xs : List X} {ts : List (Thread E β)}
    (h : List.Forall₂ R xs ts) (i : Fin ts.length) :
    ∃ l x r, xs = l ++ x :: r ∧ List.Forall₂ R l (ts.take i) ∧ R x (ts.get i) ∧
      List.Forall₂ R r (ts.drop (i + 1)) := by
  obtain ⟨i, hi⟩ := i
  induction h generalizing i with
  | nil => cases hi
  | @cons x t xs ts hx hxs ih =>
    cases i with
    | zero => exact ⟨[], x, xs, rfl, .nil, hx, hxs⟩
    | succ i =>
      obtain ⟨l, y, r, rfl, hl, hy, hr⟩ := ih i (Nat.lt_of_succ_lt_succ hi)
      exact ⟨x :: l, y, r, rfl, .cons hx hl, hy, hr⟩

theorem forall₂_of_mem {R S : X → Thread E β → Prop} {xs : List X} {ts : List (Thread E β)}
    (h : List.Forall₂ R xs ts) (himp : ∀ x ∈ xs, ∀ t, R x t → S x t) : List.Forall₂ S xs ts := by
  induction h with
  | nil => exact .nil
  | cons hx _ ih =>
    exact .cons (himp _ List.mem_cons_self _ hx)
      (ih fun x hmem => himp x (List.mem_cons_of_mem _ hmem))

/-- **The rule for pools.**  `labelled x t w` says what is known of a thread in
flight under its label `x`, and `I s xs w` relates the state of the pool to the
labels.  Both must survive the start of a thread, the service of one, and the
absorption of a result. -/
theorem ensures_run {s : σ} {post : σ → W → Prop} (labelled : X → Thread E β → W → Prop)
    (I : σ → List X → W → Prop) (hdepth : 0 < P.depth) (hstart : I s [] w)
    (halways : ∀ s xs w, I s xs w → always w)
    (hnext : ∀ s xs w t s', I s xs w → P.next s = some (t, s') →
      ∃ x, labelled x t w ∧ I s' (xs ++ [x]) w)
    (hask : ∀ s l x r e k w resp w', I s (l ++ x :: r) w → labelled x (.ask e k) w →
      serve e w resp w' → (∃ x', labelled x' (k resp) w' ∧ I s (l ++ x' :: r) w') ∧
        ∀ y ∈ l ++ r, ∀ t, labelled y t w → labelled y t w')
    (habsorb : ∀ s l x r b w, I s (l ++ x :: r) w → labelled x (.ret b) w →
      I (P.absorb s b) (l ++ r) w)
    (hdone : ∀ s w, I s [] w → P.next s = none → post s w) :
    Ensures serve always (P.run s) w post := by
  refine ensures_loop (fun x w => ∃ xs, I x.1 xs w ∧
    List.Forall₂ (fun x t => labelled x t w) xs x.2) post ⟨[], hstart, .nil⟩
    (fun x w ⟨xs, hI, _⟩ => halways _ _ _ hI) ?_ fun s w hw hs => ensures_ret hw hs
  rintro ⟨s, ts⟩ w ⟨xs, hI, hts⟩
  obtain ⟨xs', hI', hts'⟩ := refill_spec hnext (P.depth - ts.length) s ts xs hI hts
  have hw := halways _ _ _ hI'
  unfold turn
  dsimp only
  split
  · -- nothing is in flight
    next hempty =>
    have hnil := List.isEmpty_iff.mp hempty
    refine ensures_ret hw ?_
    rw [hnil, List.forall₂_nil_right_iff] at hts'
    subst hts'
    obtain ⟨hs, hnone⟩ := refill_eq_self hdepth hnil
    rw [hs] at hI' ⊢
    exact hdone s w hI' hnone
  · refine ensures_pick hw fun i => ?_
    obtain ⟨l, x, r, rfl, hl, hx, hr⟩ := exists_label hts' i
    split
    · -- a result is absorbed
      next b hb =>
      rw [hb] at hx
      refine ensures_ret hw ⟨l ++ r, habsorb _ _ _ _ _ _ hI' hx, ?_⟩
      rw [List.eraseIdx_eq_take_drop_succ]
      exact List.rel_append hl hr
    · -- a thread is served
      next e k hek =>
      rw [hek] at hx
      refine ensures_thread hw (Thread.safe_request ?_)
      rintro w₁ resp w₂ rfl hserve
      obtain ⟨⟨x', hx', hI''⟩, hothers⟩ := hask _ _ _ _ _ _ _ _ _ hI' hx hserve
      have hw₂ := halways _ _ _ hI''
      refine ⟨hw₂, fun _ => ensures_ret hw₂ ⟨l ++ x' :: r, hI'', ?_⟩⟩
      rw [List.set_eq_take_append_cons_drop, if_pos i.isLt]
      have hmem : ∀ y, y ∈ l ∨ y ∈ r → y ∈ l ++ r := fun y => List.mem_append.mpr
      exact List.rel_append
        (forall₂_of_mem hl fun y hy => hothers y (hmem y (Or.inl hy)))
        (.cons hx' (forall₂_of_mem hr fun y hy => hothers y (hmem y (Or.inr hy))))

/-- The rule for pools whose threads rely on one another: what one thread guarantees,
the invariant and the other threads can live with. -/
theorem ensures_run_safe {s : σ} {post : σ → W → Prop} (rely guar : X → W → W → Prop)
    (result : X → β → W → Prop) (I : σ → List X → W → Prop) (hdepth : 0 < P.depth)
    (hstart : I s [] w) (halways : ∀ s xs w, I s xs w → always w)
    (hrefl : ∀ x w, rely x w w) (htrans : ∀ x a b c, rely x a b → rely x b c → rely x a c)
    (hresult : ∀ x b w w', result x b w → rely x w w' → result x b w')
    (hnext : ∀ s xs w t s', I s xs w → P.next s = some (t, s') →
      ∃ x, t.Safe serve (rely x) (guar x) (result x) w ∧ I s' (xs ++ [x]) w)
    (hguar : ∀ s l x r w w', I s (l ++ x :: r) w → guar x w w' →
      I s (l ++ x :: r) w' ∧ ∀ y ∈ l ++ r, rely y w w')
    (habsorb : ∀ s l x r b w, I s (l ++ x :: r) w → result x b w → I (P.absorb s b) (l ++ r) w)
    (hdone : ∀ s w, I s [] w → P.next s = none → post s w) :
    Ensures serve always (P.run s) w post := by
  refine ensures_run (fun x t w => t.Safe serve (rely x) (guar x) (result x) w) I hdepth hstart
    halways hnext ?_ habsorb hdone
  intro s l x r e k w resp w' hI hsafe hserve
  obtain ⟨hg, hrest⟩ := hsafe w resp w' (hrefl x w) hserve
  obtain ⟨hI', hothers⟩ := hguar s l x r w w' hI hg
  exact ⟨⟨x, hrest, hI'⟩, fun y hy t ht => ht.of_rely (hothers y hy) (htrans y) (hresult y)⟩

end Pool

end Interaction
