import NfsCrust.Lib.Runs

/-!
# Programs that end

`Ensures` says nothing about a program that is never answered or never returns.
`Must` does: every run ends, and ends with a result.

## Main definitions

* `Must` — every run of a program ends with a result that satisfies a condition.
* `Thread.Finishes` — a thread returns after a bounded number of requests.

## Main results

* `must_bind`, `must_bindExcept`, `must_thread` — the rules.
* `Must.of_refines` — what a server does not do need not be considered.
* `must_loop`, `must_loopExcept` — a loop ends when a measure decreases in every turn;
  `must_loopExcept_turn` — one turn of a loop.
* `Pool.must_run` — so does a pool, with a measure of the threads in flight and of
  what is still to be started.
-/

namespace Interaction

variable {E : Interface} {W α β σ ε : Type}
  {serve : (e : E.Request) → W → E.Response e → W → Prop}

/-- Every run of `p` from `w` ends, with a result that satisfies `post`: it never gets
stuck, and it does not go on for ever. -/
inductive Must (serve : (e : E.Request) → W → E.Response e → W → Prop) (post : α → W → Prop) :
    Prog E α → W → Prop
  | ret {a : α} {w : W} (h : post a w) : Must serve post (.ret a) w
  | step {p : Prog E α} {w : W} (hprogress : ∃ p' w', Step serve (p, w) (p', w'))
      (h : ∀ p' w', Step serve (p, w) (p', w') → Must serve post p' w') : Must serve post p w

variable {w : W} {post : α → W → Prop}

/-! ### Rules -/

theorem Step.bind {p p' : Prog E α} {f : α → Prog E β} {w' : W}
    (h : Step serve (p, w) (p', w')) : Step serve (p.bind f, w) (p'.bind f, w') := by
  cases h with
  | ret => exact .ret
  | ask h => exact .ask h
  | pick i => exact .pick (k := fun i => Prog.bind _ f) i
  | @loop γ τ body s k =>
    have h : Step serve ((Prog.loop body s fun b => (k b).bind f), w) _ := .loop
    rwa [Prog.unroll_bind, ← Prog.bind_assoc] at h

theorem must_bind {p : Prog E α} {f : α → Prog E β} {post : β → W → Prop}
    (h : Must serve (fun a w' => Must serve post (f a) w') p w) :
    Must serve post (p.bind f) w := by
  induction h with
  | ret h => exact h
  | @step p w hprogress _ ih =>
    obtain ⟨p₁, w₁, hstep₁⟩ := hprogress
    refine .step ⟨_, _, hstep₁.bind⟩ fun q w' hstep => ?_
    obtain ⟨a, rfl⟩ | ⟨p', hstep', rfl⟩ := hstep.of_bind
    · cases hstep₁
    · exact ih p' w' hstep'

theorem Must.mono {p : Prog E α} {post' : α → W → Prop} (h : Must serve post p w)
    (himp : ∀ a w, post a w → post' a w) : Must serve post' p w := by
  induction h with
  | ret h => exact .ret (himp _ _ h)
  | step hprogress _ ih => exact .step hprogress ih

/-- A server that does less, but answers whatever is answered, changes nothing. -/
theorem Must.of_refines {serve' : (e : E.Request) → W → E.Response e → W → Prop} {p : Prog E α}
    (hrefines : ∀ e w r w', serve' e w r w' → serve e w r w')
    (hanswers : ∀ e w, (∃ r w', serve e w r w') → ∃ r w', serve' e w r w')
    (h : Must serve post p w) : Must serve' post p w := by
  induction h with
  | ret h => exact .ret h
  | step hprogress _ ih =>
    refine .step ?_ fun p' w' hstep => ih p' w' ?_
    · obtain ⟨p', w', hstep⟩ := hprogress
      cases hstep with
      | ret => exact ⟨_, _, .ret⟩
      | ask h =>
        obtain ⟨r, w', h'⟩ := hanswers _ _ ⟨_, _, h⟩
        exact ⟨_, _, .ask h'⟩
      | pick i => exact ⟨_, _, .pick i⟩
      | loop => exact ⟨_, _, .loop⟩
    · cases hstep with
      | ret => exact .ret
      | ask h => exact .ask (hrefines _ _ _ _ h)
      | pick i => exact .pick i
      | loop => exact .loop

/-- The rule for a bind of programs that may fail. -/
theorem must_bindExcept {p : ExceptT ε (Prog E) α} {f : α → ExceptT ε (Prog E) β}
    {post : Except ε β → W → Prop}
    (h : Must serve (fun
      | .ok a, w' => Must serve post (f a).run w'
      | .error err, w' => post (.error err) w') p.run w) :
    Must serve post (p >>= f).run w := by
  refine must_bind (h.mono fun r w' hr => ?_)
  cases r with
  | ok a => exact hr
  | error err => exact .ret hr

theorem must_pure {a : α} {post : Except ε α → W → Prop} (h : post (.ok a) w) :
    Must serve post (pure a : ExceptT ε (Prog E) α).run w := .ret h

/-- A pure step that may fail. -/
theorem must_except {x : Except ε α} {post : Except ε α → W → Prop} (h : post x w) :
    Must serve post (liftM x : ExceptT ε (Prog E) α).run w := .ret h

/-- A program whose failure is a value. -/
theorem must_attempt {p : ExceptT ε (Prog E) α} {post : Except ε (Except ε α) → W → Prop}
    (h : Must serve (fun r w' => post (.ok r) w') p.run w) :
    Must serve post (Prog.attempt p).run w :=
  must_bind (h.mono fun _ _ ha => .ret ha)

/-- A program that cannot fail. -/
theorem must_lift {p : Prog E α} {post : Except ε α → W → Prop}
    (h : Must serve (fun a w' => post (.ok a) w') p w) :
    Must serve post (liftM p : ExceptT ε (Prog E) α).run w :=
  must_bind (h.mono fun _ _ ha => .ret ha)

/-- The rule for loops: `I n` holds before a turn with `n` as the measure of what is
left to do. -/
theorem must_loop {body : σ → Prog E (σ ⊕ β)} {s : σ} {k : β → Prog E α} (I : ℕ → σ → W → Prop)
    {n : ℕ} (hstart : I n s w)
    (hbody : ∀ n s w, I n s w → Must serve (fun
      | .inl s', w' => ∃ m < n, I m s' w'
      | .inr b, w' => Must serve post (k b) w') (body s) w) :
    Must serve post (.loop body s k) w := by
  induction n using Nat.strongRecOn generalizing s w with
  | ind n ih =>
    refine .step ⟨_, _, .loop⟩ fun p' w' hstep => ?_
    cases hstep with
    | loop =>
      refine must_bind ((hbody n s w hstart).mono fun r w' hr => ?_)
      match r, hr with
      | .inl s', ⟨m, hlt, hm⟩ => exact ih m hlt hm
      | .inr b, hb => exact hb

/-- The rule for loops that may fail. -/
theorem must_loopExcept {body : σ → ExceptT ε (Prog E) (σ ⊕ β)} {s : σ}
    {post : Except ε β → W → Prop} (I : ℕ → σ → W → Prop) {n : ℕ} (hstart : I n s w)
    (hbody : ∀ n s w, I n s w → Must serve (fun
      | .ok (.inl s'), w' => ∃ m < n, I m s' w'
      | .ok (.inr b), w' => post (.ok b) w'
      | .error err, w' => post (.error err) w') (body s).run w) :
    Must serve post (Prog.loopExcept body s).run w := by
  refine must_loop I hstart fun n s w hI => must_bind ((hbody n s w hI).mono fun r w' hr => ?_)
  match r, hr with
  | .ok (.inl s'), hr => exact .ret hr
  | .ok (.inr b), hr => exact .ret (.ret hr)
  | .error err, hr => exact .ret (.ret hr)

/-- A loop that may fail does a turn, and goes on from there. -/
theorem must_loopExcept_turn {body : σ → ExceptT ε (Prog E) (σ ⊕ β)} {s : σ}
    {post : Except ε β → W → Prop}
    (h : Must serve (fun
      | .ok (.inl s'), w' => Must serve post (Prog.loopExcept body s').run w'
      | .ok (.inr b), w' => post (.ok b) w'
      | .error err, w' => post (.error err) w') (body s).run w) :
    Must serve post (Prog.loopExcept body s).run w := by
  refine .step ⟨_, _, .loop⟩ fun p' w' hstep => ?_
  cases hstep with
  | loop =>
    refine must_bind (must_bind (h.mono fun r w' hr => ?_))
    match r, hr with
    | .ok (.inl s'), hr => exact .ret hr
    | .ok (.inr b), hr => exact .ret (.ret hr)
    | .error err, hr => exact .ret (.ret hr)

/-! ### Threads -/

/-- The thread is always answered, and returns after at most `n` requests. -/
def Thread.Finishes (serve : (e : E.Request) → W → E.Response e → W → Prop)
    (post : α → W → Prop) : ℕ → Thread E α → W → Prop
  | _, ret a, w => post a w
  | 0, ask .., _ => False
  | n + 1, ask e k, w => (∃ r w', serve e w r w') ∧
      ∀ r w', serve e w r w' → (k r).Finishes serve post n w'

theorem Thread.Finishes.of_ret {n : ℕ} {a : α} (h : post a w) :
    (Thread.ret a : Thread E α).Finishes serve post n w := by
  cases n <;> exact h

theorem must_thread {n : ℕ} {t : Thread E β} {k : β → Prog E α}
    (h : t.Finishes serve (fun b w' => Must serve post (k b) w') n w) :
    Must serve post (.thread t k) w := by
  induction t generalizing n w with
  | ret b =>
    refine .step ⟨_, _, .ret⟩ fun p' w' hstep => ?_
    cases hstep with
    | ret => cases n <;> exact h
  | ask e t ih =>
    cases n with
    | zero => exact h.elim
    | succ n =>
      obtain ⟨⟨r, w', hserve⟩, hrest⟩ := h
      refine .step ⟨_, _, .ask hserve⟩ fun p' w' hstep => ?_
      cases hstep with
      | ask hserve => exact ih _ (hrest _ _ hserve)

/-- When every request is answered, what a thread promises comes true. -/
theorem must_thread_of_safe {guar : W → W → Prop} {t : Thread E β} {k : β → Prog E α}
    (hanswers : ∀ e w, ∃ r w', serve e w r w')
    (h : t.Safe serve Eq guar (fun b w' => Must serve post (k b) w') w) :
    Must serve post (.thread t k) w := by
  induction t generalizing w with
  | ret b =>
    refine .step ⟨_, _, .ret⟩ fun p' w' hstep => ?_
    cases hstep with
    | ret => exact h
  | ask e t ih =>
    obtain ⟨r, w', hserve⟩ := hanswers e w
    refine .step ⟨_, _, .ask hserve⟩ fun p' w' hstep => ?_
    cases hstep with
    | ask hserve => exact ih _ (h _ _ _ rfl hserve).2

theorem Thread.Finishes.mono {n : ℕ} {t : Thread E α} {post' : α → W → Prop}
    (h : t.Finishes serve post n w) (himp : ∀ a w, post a w → post' a w) :
    t.Finishes serve post' n w := by
  induction t generalizing n w with
  | ret a => cases n <;> exact himp a w h
  | ask e k ih =>
    cases n with
    | zero => exact h.elim
    | succ n => exact ⟨h.1, fun r w' hserve => ih r (h.2 r w' hserve)⟩

/-- What follows the thread makes no more requests. -/
theorem Thread.Finishes.bind {n : ℕ} {t : Thread E α} {f : α → Thread E β} {post : β → W → Prop}
    (h : t.Finishes serve (fun a w' => (f a).Finishes serve post 0 w') n w) :
    (t.bind f).Finishes serve post n w := by
  induction t generalizing n w with
  | ret a =>
    have hret : (f a).Finishes serve post 0 w := by cases n <;> exact h
    change (f a).Finishes serve post n w
    cases hf : f a with
    | ret b =>
      rw [hf] at hret
      cases n <;> exact hret
    | ask e k =>
      rw [hf] at hret
      exact hret.elim
  | ask e k ih =>
    cases n with
    | zero => exact h.elim
    | succ n => exact ⟨h.1, fun r w' hserve => ih r (h.2 r w' hserve)⟩

/-- What follows the thread, unless it fails, makes no more requests. -/
theorem Thread.Finishes.bindExcept {n : ℕ} {t : ExceptT ε (Thread E) α}
    {f : α → ExceptT ε (Thread E) β} {post : Except ε β → W → Prop}
    (h : t.run.Finishes serve (fun
      | .ok a, w' => (f a).run.Finishes serve post 0 w'
      | .error err, w' => post (.error err) w') n w) :
    (t >>= f).run.Finishes serve post n w := by
  refine Thread.Finishes.bind (h.mono fun r w' hr => ?_)
  cases r with
  | ok a => exact hr
  | error err => exact hr

theorem Thread.Finishes.le {m n : ℕ} {t : Thread E α} (h : t.Finishes serve post n w)
    (hle : n ≤ m) : t.Finishes serve post m w := by
  induction t generalizing m n w with
  | ret a =>
    have hpost : post a w := by cases n <;> exact h
    exact .of_ret hpost
  | ask e k ih =>
    cases n with
    | zero => exact h.elim
    | succ n =>
      obtain ⟨m, rfl⟩ : ∃ m', m = m' + 1 := ⟨m - 1, by omega⟩
      exact ⟨h.1, fun r w' hserve => ih r (h.2 r w' hserve) (Nat.le_of_succ_le_succ hle)⟩

/-- What follows the thread, unless it fails, makes up to `m` requests. -/
theorem Thread.Finishes.bindExcept_add {m n : ℕ} {t : ExceptT ε (Thread E) α}
    {f : α → ExceptT ε (Thread E) β} {post : Except ε β → W → Prop}
    (h : t.run.Finishes serve (fun
      | .ok a, w' => (f a).run.Finishes serve post m w'
      | .error err, w' => post (.error err) w') n w) :
    (t >>= f).run.Finishes serve post (n + m) w := by
  change (t.run.bind (ExceptT.bindCont f)).Finishes serve post (n + m) w
  generalize t.run = t at h
  induction t generalizing n w with
  | ret r =>
    cases r with
    | ok a =>
      have hrest : (f a).run.Finishes serve post m w := by cases n <;> exact h
      exact hrest.le (Nat.le_add_left m n)
    | error err =>
      have hpost : post (.error err) w := by cases n <;> exact h
      exact .of_ret hpost
  | ask e k ih =>
    cases n with
    | zero => exact h.elim
    | succ n =>
      rw [Nat.succ_add]
      exact ⟨h.1, fun r w' hserve => ih r (h.2 r w' hserve)⟩

/-- A pure step that succeeds. -/
theorem Thread.Finishes.check_ok {n : ℕ} {x : Except ε α} {a : α} {f : α → ExceptT ε (Thread E) β}
    {post : Except ε β → W → Prop} (hx : x = .ok a) (h : (f a).run.Finishes serve post n w) :
    ((liftM x : ExceptT ε (Thread E) α) >>= f).run.Finishes serve post n w := by
  subst hx
  exact h

/-- A pure step that fails. -/
theorem Thread.Finishes.check_error {n : ℕ} {x : Except ε α} {err : ε}
    {f : α → ExceptT ε (Thread E) β} {post : Except ε β → W → Prop} (hx : x = .error err)
    (h : post (.error err) w) :
    ((liftM x : ExceptT ε (Thread E) α) >>= f).run.Finishes serve post n w := by
  subst hx
  exact .of_ret h

/-- A thread that may fail, running alone. -/
theorem must_liftThreadExcept {n : ℕ} {t : ExceptT ε (Thread E) α} {post : Except ε α → W → Prop}
    (h : t.run.Finishes serve post n w) :
    Must serve post (liftM t : ExceptT ε (Prog E) α).run w :=
  must_thread (h.mono fun _ _ hr => .ret hr)

/-! ### Pools -/

namespace Pool

theorem must_pick {n : ℕ} {k : Fin n → Prog E α} (hn : 0 < n)
    (h : ∀ i, Must serve post (k i) w) : Must serve post (.pick n k) w := by
  refine .step ⟨_, _, .pick ⟨0, hn⟩⟩ fun p' w' hstep => ?_
  cases hstep with
  | pick i => exact h i

variable {X : Type} {P : Pool E σ β}

/-- **The rule for pools that end.**  As in `ensures_run`, with a measure that does
not grow when a thread is started, and decreases when one is served or absorbed. -/
theorem must_run {s : σ} {post : σ → W → Prop} (labelled : X → Thread E β → W → Prop)
    (I : σ → List X → W → Prop) (measure : σ → List X → ℕ) (hdepth : 0 < P.depth)
    (hstart : I s [] w)
    (hnext : ∀ s xs w t s', I s xs w → P.next s = some (t, s') →
      ∃ x, labelled x t w ∧ I s' (xs ++ [x]) w ∧ measure s' (xs ++ [x]) ≤ measure s xs)
    (hask : ∀ s l x r e k w, I s (l ++ x :: r) w → labelled x (.ask e k) w →
      (∃ resp w', serve e w resp w') ∧ ∀ resp w', serve e w resp w' →
        (∃ x', labelled x' (k resp) w' ∧ I s (l ++ x' :: r) w' ∧
          measure s (l ++ x' :: r) < measure s (l ++ x :: r)) ∧
        ∀ y ∈ l ++ r, ∀ t, labelled y t w → labelled y t w')
    (habsorb : ∀ s l x r b w, I s (l ++ x :: r) w → labelled x (.ret b) w →
      I (P.absorb s b) (l ++ r) w ∧ measure (P.absorb s b) (l ++ r) < measure s (l ++ x :: r))
    (hdone : ∀ s w, I s [] w → P.next s = none → post s w) :
    Must serve post (P.run s) w := by
  refine must_loop (fun n x w => ∃ xs, (I x.1 xs w ∧ measure x.1 xs ≤ n) ∧
    List.Forall₂ (fun x t => labelled x t w) xs x.2) (n := measure s [])
    ⟨[], ⟨hstart, Nat.le_refl _⟩, .nil⟩ ?_
  rintro n ⟨s, ts⟩ w ⟨xs, hI, hts⟩
  -- starting threads keeps the invariant and the bound on the measure
  obtain ⟨xs', ⟨hI', hmeasure⟩, hts'⟩ :=
    refill_spec (P := P) (I := fun s xs w => I s xs w ∧ measure s xs ≤ n)
      (fun s xs w t s' h hsome => by
        obtain ⟨x, hx, hI, hle⟩ := hnext s xs w t s' h.1 hsome
        exact ⟨x, hx, hI, Nat.le_trans hle h.2⟩)
      (P.depth - ts.length) s ts xs hI hts
  unfold turn
  dsimp only
  split
  · -- nothing is in flight
    next hempty =>
    have hnil := List.isEmpty_iff.mp hempty
    refine .ret (.ret ?_)
    rw [hnil, List.forall₂_nil_right_iff] at hts'
    subst hts'
    obtain ⟨hs, hnone⟩ := refill_eq_self hdepth hnil
    rw [hs] at hI' ⊢
    exact hdone s w hI' hnone
  · next hsome =>
    refine must_pick (List.length_pos_iff.mpr fun hnil => hsome (by rw [hnil]; rfl)) fun i => ?_
    obtain ⟨l, x, r, rfl, hl, hx, hr⟩ := exists_label hts' i
    split
    · -- a result is absorbed
      next b hb =>
      rw [hb] at hx
      obtain ⟨habsorbed, hlt⟩ := habsorb _ _ _ _ _ _ hI' hx
      refine .ret ⟨_, Nat.lt_of_lt_of_le hlt hmeasure, l ++ r, ⟨habsorbed, Nat.le_refl _⟩, ?_⟩
      rw [List.eraseIdx_eq_take_drop_succ]
      exact List.rel_append hl hr
    · -- a thread is served
      next e k hek =>
      rw [hek] at hx
      obtain ⟨hanswer, hserved⟩ := hask _ _ _ _ _ _ _ hI' hx
      refine must_thread (n := 1) ⟨hanswer, fun resp w' hserve => ?_⟩
      obtain ⟨⟨x', hx', hI'', hlt⟩, hothers⟩ := hserved resp w' hserve
      refine .ret ⟨_, Nat.lt_of_lt_of_le hlt hmeasure, l ++ x' :: r, ⟨hI'', Nat.le_refl _⟩, ?_⟩
      rw [List.set_eq_take_append_cons_drop, if_pos i.isLt]
      have hmem : ∀ y, y ∈ l ∨ y ∈ r → y ∈ l ++ r := fun y => List.mem_append.mpr
      exact List.rel_append
        (forall₂_of_mem hl fun y hy => hothers y (hmem y (Or.inl hy)))
        (.cons hx' (forall₂_of_mem hr fun y hy => hothers y (hmem y (Or.inr hy))))

end Pool

end Interaction
