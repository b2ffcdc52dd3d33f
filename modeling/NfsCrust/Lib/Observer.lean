import NfsCrust.Lib.Runs

/-!
# Threads under observation

A thread may run inside another one that asks its requests for it, and it may be cut off
after some number of requests, as a timeout does.  An observer is told every request of a
thread with its response.  It has a state, and rejects what should not have been asked in
this state.

## Main definitions

* `Thread.relay` — a thread whose requests are asked under other names.
* `Thread.cut` — a thread that is given up after some number of requests.
* `Thread.Runs` — what a thread has asked and been told so far.
* `Thread.answered` — a run on given answers, as a computation.
* `observing` — the world that consists of the state of an observer.

## Main results

* `Thread.safe_relay`, `Thread.safe_cut` — the rules.
* `Thread.Safe.accepted` — an observer accepts every run of a thread that is safe for it.
-/

namespace Interaction

variable {E E' : Interface} {W S α β ε : Type}

namespace Thread

/-- Ask every request `e` as `name e`. -/
def relay (name : E.Request → E'.Request) (result : ∀ e, E'.Response (name e) → E.Response e) :
    Thread E α → Thread E' α
  | ret a => ret a
  | ask e k => ask (name e) fun r => (k (result e r)).relay name result

/-- Run a thread until it has made `n` requests.  Returns nothing if it is not done then. -/
def cut : ℕ → Thread E α → Thread E (Option α)
  | _, ret a => ret (some a)
  | 0, ask _ _ => ret none
  | n + 1, ask e k => ask e fun r => (k r).cut n

section

variable {serve : (e : E.Request) → W → E.Response e → W → Prop} {rely guar : W → W → Prop}
  {w : W}

/-- A thread that is relayed runs in the world of its host. -/
theorem safe_relay {name : E'.Request → E.Request}
    {result : ∀ e, E.Response (name e) → E'.Response e} {t : Thread E' α} {post : α → W → Prop}
    (h : t.Safe (fun e w r w' => ∃ r', serve (name e) w r' w' ∧ result e r' = r) rely guar post w) :
    (t.relay name result).Safe serve rely guar post w := by
  induction t generalizing w with
  | ret a => exact h
  | ask e k ih =>
    intro w₁ r w₂ hrely hserve
    obtain ⟨hguar, hrest⟩ := h w₁ (result e r) w₂ hrely ⟨r, hserve, rfl⟩
    exact ⟨hguar, ih _ hrest⟩

/-- A thread that is cut off keeps what it promised until then. -/
theorem safe_cut {t : Thread E α} {post : α → W → Prop} {post' : Option α → W → Prop} (n : ℕ)
    (h : t.Safe serve rely guar post w) (hsome : ∀ a w, post a w → post' (some a) w)
    (hnone : ∀ w, post' none w) : (t.cut n).Safe serve rely guar post' w := by
  induction t generalizing w n with
  | ret a =>
    cases n with
    | zero => exact hsome a w h
    | succ n => exact hsome a w h
  | ask e k ih =>
    cases n with
    | zero => exact hnone w
    | succ n =>
      intro w₁ r w₂ hrely hserve
      obtain ⟨hguar, hrest⟩ := h w₁ r w₂ hrely hserve
      exact ⟨hguar, ih r n hrest⟩

end

/-! ### Observers -/

/-- After the requests and responses `events` the thread is `t'`. -/
inductive Runs : Thread E α → List ((e : E.Request) × E.Response e) → Thread E α → Prop
  | nil (t : Thread E α) : Runs t [] t
  | cons {e : E.Request} {k : E.Response e → Thread E α}
      {events : List ((e : E.Request) × E.Response e)} {t' : Thread E α} (r : E.Response e)
      (h : Runs (k r) events t') : Runs (.ask e k) (⟨e, r⟩ :: events) t'

theorem exists_runs_of_returns {t : Thread E α} {a : α} (h : t.Returns a) :
    ∃ events, t.Runs events (.ret a) := by
  induction t with
  | ret b =>
    cases h
    exact ⟨[], .nil _⟩
  | ask e k ih =>
    obtain ⟨r, h⟩ := h
    obtain ⟨events, hruns⟩ := ih r h
    exact ⟨⟨e, r⟩ :: events, .cons r hruns⟩

theorem returns_of_runs {t : Thread E α} {a : α} {events : List ((e : E.Request) × E.Response e)}
    (h : t.Runs events (.ret a)) : t.Returns a := by
  generalize hend : ret a = t' at h
  induction h with
  | nil t =>
    subst hend
    rfl
  | cons r _ ih => exact ⟨r, ih hend⟩

/-- A run in which every response is as it was assumed to be. -/
theorem Safe.of_runs {t : Thread E α} {a : α} {conforms : (e : E.Request) → E.Response e → Prop}
    {post : α → Unit → Prop} {events : List ((e : E.Request) × E.Response e)}
    (h : t.Safe (fun e _ r _ => conforms e r) Eq (fun _ _ => True) post ())
    (hruns : t.Runs events (.ret a)) (hconforms : ∀ event ∈ events, conforms event.1 event.2) :
    post a () := by
  generalize hend : ret a = t' at hruns
  induction hruns with
  | nil t =>
    subst hend
    exact h
  | cons r _ ih =>
    have hrest := (h () r () rfl (hconforms _ List.mem_cons_self)).2
    exact ih hrest (fun event hevent => hconforms event (List.mem_cons_of_mem _ hevent)) hend

/-- A run in which every request is answered by `answer`. -/
def answered (answer : (e : E.Request) → E.Response e) :
    Thread E α → List ((e : E.Request) × E.Response e) × α
  | ret a => ([], a)
  | ask e k =>
    let rest := (k (answer e)).answered answer
    (⟨e, answer e⟩ :: rest.1, rest.2)

theorem runs_answered (answer : (e : E.Request) → E.Response e) (t : Thread E α) :
    t.Runs (t.answered answer).1 (.ret (t.answered answer).2) := by
  induction t with
  | ret a => exact .nil _
  | ask e k ih => exact .cons _ (ih (answer e))

theorem snd_of_mem_answered {answer : (e : E.Request) → E.Response e} {t : Thread E α}
    {event : (e : E.Request) × E.Response e} (h : event ∈ (t.answered answer).1) :
    event.2 = answer event.1 := by
  induction t with
  | ret a => cases h
  | ask e k ih =>
    obtain rfl | h := List.mem_cons.mp h
    · rfl
    · exact ih (answer e) h

/-- A run that ends without an error. -/
theorem exists_answered_ok {answer : (e : E.Request) → E.Response e} {t : Thread E (Except ε α)}
    (h : (t.answered answer).2.toOption.isSome = true) : ∃ a, (t.answered answer).2 = .ok a := by
  cases hresult : (t.answered answer).2 with
  | ok a => exact ⟨a, rfl⟩
  | error err =>
    rw [hresult] at h
    cases h

theorem returns_answered (answer : (e : E.Request) → E.Response e) (t : Thread E α) :
    t.Returns (t.answered answer).2 := by
  induction t with
  | ret a => exact rfl
  | ask e k ih => exact ⟨answer e, ih (answer e)⟩

theorem returns_bind {t : Thread E α} {f : α → Thread E β} {b : β} :
    (t.bind f).Returns b ↔ ∃ a, t.Returns a ∧ (f a).Returns b := by
  induction t with
  | ret a =>
    constructor
    · intro h
      exact ⟨a, rfl, h⟩
    · rintro ⟨_, rfl, h⟩
      exact h
  | ask e k ih =>
    constructor
    · rintro ⟨r, h⟩
      obtain ⟨a, ha, hb⟩ := (ih r).mp h
      exact ⟨a, ⟨r, ha⟩, hb⟩
    · rintro ⟨a, ⟨r, ha⟩, hb⟩
      exact ⟨r, (ih r).mpr ⟨a, ha, hb⟩⟩

/-- A sequence that succeeded ran both its parts. -/
theorem exists_of_returns_bind {t : ExceptT ε (Thread E) α} {f : α → ExceptT ε (Thread E) β} {b : β}
    (h : (t >>= f).run.Returns (.ok b)) :
    ∃ a, t.run.Returns (.ok a) ∧ (f a).run.Returns (.ok b) := by
  obtain ⟨r, hr, h⟩ := returns_bind.mp h
  cases r with
  | error err => cases h
  | ok a => exact ⟨a, hr, h⟩

end Thread

/-- The state of an observer after a request, with nothing once it has rejected one. -/
def observing (observe : S → (e : E.Request) → E.Response e → Option S) (e : E.Request)
    (w : Option S) (r : E.Response e) (w' : Option S) : Prop :=
  w' = w.bind fun s => observe s e r

/-- What an observer makes of a run. -/
def observed (observe : S → (e : E.Request) → E.Response e → Option S) (s : S)
    (events : List ((e : E.Request) × E.Response e)) : Option S :=
  events.foldlM (fun s event => observe s event.1 event.2) s

variable {observe : S → (e : E.Request) → E.Response e → Option S}

theorem observed_cons (s : S) (e : E.Request) (r : E.Response e)
    (events : List ((e : E.Request) × E.Response e)) :
    observed observe s (⟨e, r⟩ :: events)
      = (observe s e r).bind fun s' => observed observe s' events := rfl

/-- The observer has not rejected anything so far. -/
def Accepting (_ w : Option S) : Prop := w.isSome = true

/-- **An observer accepts every run of a thread that is safe for it,** also the runs that are
not at their end. -/
theorem Thread.Safe.accepted {t t' : Thread E α} {s : S} {post : α → Option S → Prop}
    {events : List ((e : E.Request) × E.Response e)}
    (h : t.Safe (observing observe) Eq Accepting post (some s)) (hruns : t.Runs events t') :
    ∃ s', observed observe s events = some s' ∧ ∀ a, t' = .ret a → post a (some s') := by
  induction hruns generalizing s with
  | nil t =>
    refine ⟨s, rfl, ?_⟩
    rintro a rfl
    exact h
  | cons r _ ih =>
    obtain ⟨haccepting, hrest⟩ := h (some s) r _ rfl rfl
    obtain ⟨s₁, hs₁⟩ := Option.isSome_iff_exists.mp haccepting
    rw [hs₁] at hrest
    obtain ⟨s', hs', hpost⟩ := ih hrest
    refine ⟨s', ?_, hpost⟩
    rw [observed_cons]
    change observe s _ r = some s₁ at hs₁
    rw [hs₁]
    exact hs'

end Interaction
