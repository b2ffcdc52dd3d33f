import NfsCrust.Reconnect.Coordinator

/-!
# One attempt for each generation

While an attempt for the current generation runs, the coordinator knows of it: a
task that wants the same generation replaced joins it, and since only such an
attempt replaces the session, the generation cannot change under a task that has
read it and finds no attempt.  So there is never a second attempt for the current
generation, and what an attempt does when it ends concerns its own entry only.

Generations are counted modulo `2 ^ 64`.  An attempt that has replaced the session
and waits for the coordinator while the session is replaced `2 ^ 64 - 1` more times
finds its own generation in use again.

## Main definitions

* `Machine.Attempts`, `Machine.Tasks` — the invariant.

## Main results

* `Machine.reconnect_once` — replacements, attempts, completions and waiters, in runs
  with fewer than `2 ^ 64` replacements.
* `Machine.reconnect_wraps` — after `2 ^ 64` replacements two attempts for the current
  generation can run.
-/

namespace NfsCrust.Reconnect

/-- The attempt may still change the session, or has failed to. -/
def Stage.unreplaced : Stage → Bool
  | connecting | replacing | finishing (.error _) => true
  | finishing (.ok ()) | sending _ | sent _ => false

theorem Stage.unreplaced_or {stage : Stage} (h : stage.running = true) :
    stage.unreplaced = true ∨ stage = .finishing (.ok ()) := by
  match stage, h with
  | .connecting, _ | .replacing, _ | .finishing (.error _), _ => exact Or.inl rfl
  | .finishing (.ok ()), _ => exact Or.inr rfl

/-- The task holds the mutex of the coordinator. -/
def Pc.locked : Pc → Bool
  | reading _ | deciding _ => true
  | idle | locking _ | waiting .. | returned _ => false

/-- Generations of fewer than `2 ^ 64` replacements are different. -/
theorem ofNat_inj_of_lt {i j : ℕ} (hi : i < 2 ^ 64) (hj : j < 2 ^ 64)
    (h : UInt64.ofNat i = UInt64.ofNat j) : i = j := by
  have := congrArg UInt64.toNat h
  rwa [UInt64.toNat_ofNat_of_lt' hi, UInt64.toNat_ofNat_of_lt' hj] at this

namespace Machine

variable {m m' : Machine} {t id : ℕ} {a : Attempt} {g : UInt64}

/-! ### Attempts -/

/-- The attempts, the session they replace, and what the coordinator knows. -/
structure Attempts (m : Machine) : Prop where
  generation : m.generation = .ofNat m.epoch
  spawned : ∀ id a, m.attempts id = some a → id < m.spawned
  born : ∀ id a, m.attempts id = some a → a.failedGeneration = .ofNat a.epoch ∧ a.epoch ≤ m.epoch
  unreplaced : ∀ id a, m.attempts id = some a → a.stage.unreplaced = true → a.epoch = m.epoch
  replaced : ∀ id a, m.attempts id = some a → a.stage = .finishing (.ok ()) → a.epoch < m.epoch
  /-- The coordinator knows of an attempt for the current generation. -/
  known : ∀ id a, m.attempts id = some a → a.stage.running = true → a.epoch = m.epoch →
    m.state = .connecting a.failedGeneration id
  connecting : ∀ g id, m.state = .connecting g id →
    ∃ a, m.attempts id = some a ∧ a.stage.running = true ∧ a.failedGeneration = g
  unique : ∀ id id' a a', m.attempts id = some a → m.attempts id' = some a' →
    a.stage.running = true → a'.stage.running = true → a.epoch = a'.epoch → id = id'

/-- Tasks come and go without touching the attempts. -/
theorem Attempts.tasks (h : m.Attempts) (lock : Option ℕ) (pc : ℕ → Pc) :
    ({ m with lock := lock, pc := pc } : Machine).Attempts :=
  ⟨h.generation, h.spawned, h.born, h.unreplaced, h.replaced, h.known, h.connecting, h.unique⟩

/-- Every attempt was there before an attempt went on, at the same stage or as the
attempt that went on. -/
theorem exists_before {stage : Stage} {id' : ℕ} {a' : Attempt} (ha : m.attempts id = some a)
    (ha' : (m.setAttempt id { a with stage := stage }).attempts id' = some a') :
    ∃ b, m.attempts id' = some b ∧ b.failedGeneration = a'.failedGeneration ∧
      b.epoch = a'.epoch ∧ (b.stage = a'.stage ∨ id' = id ∧ b.stage = a.stage ∧ a'.stage = stage) := by
  rcases setAttempt_eq_some ha' with ⟨rfl, rfl⟩ | ⟨-, hold⟩
  · exact ⟨a, ha, rfl, rfl, Or.inr ⟨rfl, rfl, rfl⟩⟩
  · exact ⟨a', hold, rfl, rfl, Or.inl rfl⟩

/-- What an attempt that goes on leaves as it is. -/
theorem Attempts.setAttempt_born {stage : Stage} {id' : ℕ} {a' : Attempt} (h : m.Attempts)
    (ha : m.attempts id = some a)
    (ha' : (m.setAttempt id { a with stage := stage }).attempts id' = some a') :
    id' < m.spawned ∧ a'.failedGeneration = .ofNat a'.epoch ∧ a'.epoch ≤ m.epoch := by
  obtain ⟨b, hb, hg, hepoch, -⟩ := exists_before ha ha'
  obtain ⟨hborn, hle⟩ := h.born id' b hb
  rw [← hg, ← hepoch]
  exact ⟨h.spawned id' b hb, hborn, hle⟩

theorem Attempts.setAttempt_unique {stage : Stage} {id₁ id₂ : ℕ} {a₁ a₂ : Attempt} (h : m.Attempts)
    (ha : m.attempts id = some a) (hrunning : stage.running = true → a.stage.running = true)
    (ha₁ : (m.setAttempt id { a with stage := stage }).attempts id₁ = some a₁)
    (ha₂ : (m.setAttempt id { a with stage := stage }).attempts id₂ = some a₂)
    (hrun₁ : a₁.stage.running = true) (hrun₂ : a₂.stage.running = true)
    (hepoch : a₁.epoch = a₂.epoch) : id₁ = id₂ := by
  have hbefore : ∀ id' a', (m.setAttempt id { a with stage := stage }).attempts id' = some a' →
      a'.stage.running = true →
      ∃ b, m.attempts id' = some b ∧ b.stage.running = true ∧ b.epoch = a'.epoch := by
    intro id' a' ha' hrun
    obtain ⟨b, hb, -, hepoch, hstage | ⟨-, hstage, hnew⟩⟩ := exists_before ha ha'
    · exact ⟨b, hb, hstage ▸ hrun, hepoch⟩
    · exact ⟨b, hb, hstage ▸ hrunning (hnew ▸ hrun), hepoch⟩
  obtain ⟨b₁, hb₁, hr₁, he₁⟩ := hbefore id₁ a₁ ha₁ hrun₁
  obtain ⟨b₂, hb₂, hr₂, he₂⟩ := hbefore id₂ a₂ ha₂ hrun₂
  exact h.unique id₁ id₂ b₁ b₂ hb₁ hb₂ hr₁ hr₂ (he₁.trans (hepoch.trans he₂.symm))

/-- The entry of the coordinator is still that of a running attempt. -/
theorem Attempts.setAttempt_connecting {stage : Stage} {id' : ℕ} (h : m.Attempts)
    (ha : m.attempts id = some a) (hrunning : id' = id → stage.running = true)
    (hstate : m.state = .connecting g id') :
    ∃ a', (m.setAttempt id { a with stage := stage }).attempts id' = some a' ∧
      a'.stage.running = true ∧ a'.failedGeneration = g := by
  obtain ⟨a', ha', hrun, hg⟩ := h.connecting g id' hstate
  by_cases hid : id' = id
  · subst hid
    rw [ha] at ha'
    cases ha'
    exact ⟨_, setAttempt_attempts_self .., hrunning rfl, hg⟩
  · exact ⟨a', (setAttempt_attempts_of_ne m _ hid).trans ha', hrun, hg⟩

/-- An attempt goes on and neither replaces the session nor ends. -/
theorem Attempts.setStage {stage : Stage} (h : m.Attempts) (ha : m.attempts id = some a)
    (hrunning : stage.running = a.stage.running)
    (hunreplaced : stage.unreplaced = true → a.stage.unreplaced = true)
    (hreplaced : stage ≠ .finishing (.ok ())) :
    (m.setAttempt id { a with stage := stage }).Attempts where
  generation := h.generation
  spawned _ _ ha' := (h.setAttempt_born ha ha').1
  born _ _ ha' := (h.setAttempt_born ha ha').2
  unreplaced id' a' ha' hstage := by
    obtain ⟨b, hb, -, hepoch, hsame | ⟨-, hold, hnew⟩⟩ := exists_before ha ha'
    · exact hepoch ▸ h.unreplaced id' b hb (hsame ▸ hstage)
    · exact hepoch ▸ h.unreplaced id' b hb (hold ▸ hunreplaced (hnew ▸ hstage))
  replaced id' a' ha' hstage := by
    obtain ⟨b, hb, -, hepoch, hsame | ⟨-, hold, hnew⟩⟩ := exists_before ha ha'
    · exact hepoch ▸ h.replaced id' b hb (hsame.trans hstage)
    · exact absurd (hnew.symm.trans hstage) hreplaced
  known id' a' ha' hrun hnow := by
    obtain ⟨b, hb, hg, hepoch, hstage⟩ := exists_before ha ha'
    have hbefore : b.stage.running = true := by
      rcases hstage with hsame | ⟨-, hold, hnew⟩
      · rw [hsame, hrun]
      · rw [hold, ← hrunning, ← hnew, hrun]
    exact hg ▸ h.known id' b hb hbefore (hepoch.trans hnow)
  connecting g id' hstate := by
    refine h.setAttempt_connecting ha (fun hid => ?_) hstate
    obtain ⟨b, hb, hrun, -⟩ := h.connecting g id' hstate
    rw [hid, ha] at hb
    cases hb
    rw [hrunning, hrun]
  unique _ _ _ _ ha₁ ha₂ := h.setAttempt_unique ha (fun hrun => hrunning ▸ hrun) ha₁ ha₂

/-- An attempt that is about to replace the session finds the generation it was
started for. -/
theorem Attempts.generation_eq (h : m.Attempts) (ha : m.attempts id = some a)
    (hstage : a.stage.unreplaced = true) : m.generation = a.failedGeneration := by
  rw [h.generation, (h.born id a ha).1, h.unreplaced id a ha hstage]

theorem Attempts.replace_eq (h : m.Attempts) (ha : m.attempts id = some a)
    (hstage : a.stage = .replacing) : m.replace id a.failedGeneration =
      { m with session := some id, generation := m.generation + 1, epoch := m.epoch + 1 } := by
  have hg := h.generation_eq ha (by rw [hstage]; rfl)
  rw [Machine.replace, sessionGenerationNeedsReconnect, hg, beq_self_eq_true, if_pos rfl]

theorem running_of_unreplaced {stage : Stage} (h : stage.unreplaced = true) :
    stage.running = true := by
  match stage, h with
  | .connecting, _ | .replacing, _ | .finishing (.error _), _ => rfl

/-- The session is replaced.  No other attempt can do so: it would be for the same
generation. -/
theorem Attempts.replace (h : m.Attempts) (ha : m.attempts id = some a)
    (hstage : a.stage = .replacing) :
    (({ m with session := some id, generation := m.generation + 1, epoch := m.epoch + 1 } :
      Machine).setAttempt id { a with stage := .finishing (.ok ()) }).Attempts := by
  have hunreplaced : a.stage.unreplaced = true := by rw [hstage]; rfl
  have hrunning : a.stage.running = true := running_of_unreplaced hunreplaced
  have hepoch := h.unreplaced id a ha hunreplaced
  constructor
  case generation =>
    change m.generation + 1 = .ofNat (m.epoch + 1)
    rw [h.generation, UInt64.ofNat_add]
    rfl
  case spawned => exact fun _ _ ha' => (h.setAttempt_born ha ha').1
  case born =>
    intro id' a' ha'
    obtain ⟨-, hborn, hle⟩ := h.setAttempt_born ha ha'
    exact ⟨hborn, Nat.le_succ_of_le hle⟩
  case unreplaced =>
    intro id' a' ha' hstage'
    obtain ⟨b, hb, -, hsame, hold | ⟨-, -, hnew⟩⟩ := exists_before ha ha'
    · have hstage' : b.stage.unreplaced = true := hold ▸ hstage'
      have hid := h.unique id' id b a hb ha (running_of_unreplaced hstage') hrunning
        ((h.unreplaced id' b hb hstage').trans hepoch.symm)
      subst hid
      have hnew := (setAttempt_attempts_self ..).symm.trans ha'
      cases hnew
      cases hstage'
    · rw [hnew] at hstage'
      cases hstage'
  case replaced =>
    intro id' a' ha' _
    exact Nat.lt_succ_of_le (h.setAttempt_born ha ha').2.2
  case known =>
    intro id' a' ha' _ hnow
    have hle := (h.setAttempt_born ha ha').2.2
    change a'.epoch = m.epoch + 1 at hnow
    omega
  case connecting => exact fun g id' hstate => h.setAttempt_connecting ha (fun _ => rfl) hstate
  case unique =>
    exact fun _ _ _ _ ha₁ ha₂ => h.setAttempt_unique ha (fun _ => hrunning) ha₁ ha₂

/-- The entry of the coordinator for the generation of a running attempt is that of
the attempt. -/
theorem Attempts.own_entry {id' : ℕ} (h : m.Attempts) (hbound : m.epoch < 2 ^ 64)
    (ha : m.attempts id = some a) (hrunning : a.stage.running = true)
    (hstate : m.state = .connecting a.failedGeneration id') : id' = id := by
  obtain ⟨b, hb, hrun, hg⟩ := h.connecting _ _ hstate
  obtain ⟨hborn, hle⟩ := h.born id a ha
  obtain ⟨hborn', hle'⟩ := h.born id' b hb
  rw [hborn, hborn'] at hg
  exact h.unique id' id b a hb ha hrun hrunning (ofNat_inj_of_lt (by omega) (by omega) hg)

/-- What a completion does to the coordinator. -/
theorem Attempts.finish_cases (h : m.Attempts) (hbound : m.epoch < 2 ^ 64)
    (ha : m.attempts id = some a) (hrunning : a.stage.running = true) (r : ReconnectOutcome)
    (retryAfter : Option ℕ) :
    (m.state = .connecting a.failedGeneration id ∧ ∀ g id',
        finishReconnectAttempt m.state a.failedGeneration r retryAfter ≠ .connecting g id') ∨
      (∀ g, m.state ≠ .connecting g id) ∧
        finishReconnectAttempt m.state a.failedGeneration r retryAfter = m.state := by
  cases hstate : m.state with
  | idle | failed => exact Or.inr ⟨nofun, rfl⟩
  | connecting g id' =>
    by_cases hg : g = a.failedGeneration
    · subst hg
      obtain rfl := h.own_entry hbound ha hrunning hstate
      refine Or.inl ⟨rfl, fun g' id'' => ?_⟩
      simp only [finishReconnectAttempt, if_true]
      cases r <;> exact nofun
    · refine Or.inr ⟨fun g' heq => hg ?_, ?_⟩
      · cases heq
        obtain ⟨b, hb, -, hgb⟩ := h.connecting _ _ hstate
        rw [ha] at hb
        cases hb
        exact hgb.symm
      · simp only [finishReconnectAttempt, if_neg hg]

/-- An attempt ends.  It removes its own entry or none. -/
theorem Attempts.finish (h : m.Attempts) (hbound : m.epoch < 2 ^ 64) {r : ReconnectOutcome}
    (ha : m.attempts id = some a) (hstage : a.stage = .finishing r) (retryAfter : Option ℕ) :
    (({ m with state := finishReconnectAttempt m.state a.failedGeneration r retryAfter } :
      Machine).setAttempt id { a with stage := .sending r }).Attempts := by
  have hrunning : a.stage.running = true := by rw [hstage]; rfl
  have hcases := h.finish_cases hbound ha hrunning r retryAfter
  constructor
  case generation => exact h.generation
  case spawned => exact fun _ _ ha' => (h.setAttempt_born ha ha').1
  case born => exact fun _ _ ha' => (h.setAttempt_born ha ha').2
  case unreplaced =>
    intro id' a' ha' hstage'
    obtain ⟨b, hb, -, hepoch, hsame | ⟨-, -, hnew⟩⟩ := exists_before ha ha'
    · exact hepoch ▸ h.unreplaced id' b hb (hsame ▸ hstage')
    · rw [hnew] at hstage'
      cases hstage'
  case replaced =>
    intro id' a' ha' hstage'
    obtain ⟨b, hb, -, hepoch, hsame | ⟨-, -, hnew⟩⟩ := exists_before ha ha'
    · exact hepoch ▸ h.replaced id' b hb (hsame.trans hstage')
    · rw [hnew] at hstage'
      cases hstage'
  case known =>
    intro id' a' ha' hrun hnow
    obtain ⟨b, hb, hg, hepoch, hsame | ⟨-, -, hnew⟩⟩ := exists_before ha ha'
    · have hentry := hg ▸ h.known id' b hb (hsame ▸ hrun) (hepoch.trans hnow)
      rcases hcases with ⟨hown, -⟩ | ⟨-, hkept⟩
      · -- the entry would be that of the attempt that ends
        obtain ⟨-, rfl⟩ := ReconnectState.connecting.inj (hown.symm.trans hentry)
        have hnew := (setAttempt_attempts_self ..).symm.trans ha'
        cases hnew
        cases hrun
      · exact hkept.trans hentry
    · rw [hnew] at hrun
      cases hrun
  case connecting =>
    intro g id' hstate
    rcases hcases with ⟨-, hgone⟩ | ⟨hother, hkept⟩
    · exact absurd hstate (hgone g id')
    · have hbefore : m.state = .connecting g id' := hkept.symm.trans hstate
      refine h.setAttempt_connecting ha (fun hid => ?_) hbefore
      rw [hid] at hbefore
      exact absurd hbefore (hother g)
  case unique =>
    exact fun _ _ _ _ ha₁ ha₂ => h.setAttempt_unique ha (fun hrun => by cases hrun) ha₁ ha₂

/-- A new attempt, for the current generation, when the coordinator has no entry for
it. -/
theorem Attempts.spawn (h : m.Attempts) (hg : m.generation = g)
    (hstate : ∀ id, m.state ≠ .connecting g id) : (m.spawn g).Attempts := by
  -- there is no running attempt for the current generation
  have hnone : ∀ id a, m.attempts id = some a → a.stage.running = true → a.epoch ≠ m.epoch := by
    intro id a ha hrun hepoch
    refine hstate id ?_
    rw [h.known id a ha hrun hepoch, (h.born id a ha).1, hepoch, ← h.generation, hg]
  have hfresh : ∀ id a, m.attempts id = some a → id ≠ m.spawned := fun id a ha =>
    Nat.ne_of_lt (h.spawned id a ha)
  constructor
  case generation => exact h.generation
  case spawned =>
    intro id a ha
    rcases setAttempt_eq_some ha with ⟨rfl, -⟩ | ⟨-, hold⟩
    · exact Nat.lt_succ_self _
    · exact Nat.lt_succ_of_lt (h.spawned id a hold)
  case born =>
    intro id a ha
    rcases setAttempt_eq_some ha with ⟨-, rfl⟩ | ⟨-, hold⟩
    · exact ⟨hg.symm.trans h.generation, Nat.le_refl _⟩
    · exact h.born id a hold
  case unreplaced =>
    intro id a ha hstage
    rcases setAttempt_eq_some ha with ⟨-, rfl⟩ | ⟨-, hold⟩
    · rfl
    · exact h.unreplaced id a hold hstage
  case replaced =>
    intro id a ha hstage
    rcases setAttempt_eq_some ha with ⟨-, rfl⟩ | ⟨-, hold⟩
    · cases hstage
    · exact h.replaced id a hold hstage
  case known =>
    intro id a ha hrun hepoch
    rcases setAttempt_eq_some ha with ⟨rfl, rfl⟩ | ⟨-, hold⟩
    · rfl
    · exact absurd hepoch (hnone id a hold hrun)
  case connecting =>
    intro g' id hentry
    cases hentry
    exact ⟨_, setAttempt_attempts_self .., rfl, rfl⟩
  case unique =>
    intro id₁ id₂ a₁ a₂ ha₁ ha₂ hrun₁ hrun₂ hepoch
    rcases setAttempt_eq_some ha₁ with ⟨rfl, rfl⟩ | ⟨-, hold₁⟩ <;>
      rcases setAttempt_eq_some ha₂ with ⟨rfl, rfl⟩ | ⟨-, hold₂⟩
    · rfl
    · exact absurd hepoch.symm (hnone id₂ a₂ hold₂ hrun₂)
    · exact absurd hepoch (hnone id₁ a₁ hold₁ hrun₁)
    · exact h.unique id₁ id₂ a₁ a₂ hold₁ hold₂ hrun₁ hrun₂ hepoch

/-! ### Tasks -/

/-- What the tasks know. -/
structure Tasks (m : Machine) : Prop where
  lock : ∀ t, m.lock = some t ↔ (m.pc t).locked = true
  /-- What a task with the mutex has read is still so, or an attempt is known that
  has changed it. -/
  deciding : ∀ t g, m.pc t = .deciding g → m.generation = g ∨ ∃ id, m.state = .connecting g id
  waiting : ∀ t g id, m.pc t = .waiting g id →
    ∃ a, m.attempts id = some a ∧ a.failedGeneration = g

/-- A task goes on without the mutex, before and after. -/
theorem Tasks.goto {pc : Pc} (h : m.Tasks) (hlocked : pc.locked = (m.pc t).locked)
    (hdeciding : ∀ g, pc = .deciding g → m.generation = g)
    (hwaiting : ∀ g id, pc ≠ .waiting g id) : (m.goto t pc).Tasks where
  lock u := by
    by_cases hu : u = t
    · rw [hu, goto_pc_self, hlocked]
      exact h.lock t
    · rw [goto_pc_of_ne m pc hu]
      exact h.lock u
  deciding u g hu := by
    by_cases hut : u = t
    · rw [hut, goto_pc_self] at hu
      exact Or.inl (hdeciding g hu)
    · rw [goto_pc_of_ne m pc hut] at hu
      exact h.deciding u g hu
  waiting u g id hu := by
    by_cases hut : u = t
    · rw [hut, goto_pc_self] at hu
      exact absurd hu (hwaiting g id)
    · rw [goto_pc_of_ne m pc hut] at hu
      exact h.waiting u g id hu

/-- No task has the mutex. -/
theorem Tasks.not_locked (h : m.Tasks) (hlock : m.lock = none) (u : ℕ) :
    (m.pc u).locked = false := by
  rw [← Bool.not_eq_true, ← h.lock u, hlock]
  exact nofun

/-- The task with the mutex is the only one. -/
theorem Tasks.not_locked_of_ne (h : m.Tasks) (hpc : (m.pc t).locked = true) {u : ℕ} (hu : u ≠ t) :
    (m.pc u).locked = false := by
  rw [← Bool.not_eq_true, ← h.lock u, (h.lock t).mpr hpc]
  rintro ⟨⟩
  exact hu rfl

/-- The mutex is taken. -/
theorem Tasks.take (h : m.Tasks) (hlock : m.lock = none) :
    ({ m with lock := some t }.goto t (.reading g)).Tasks where
  lock u := by
    by_cases hu : u = t
    · subst hu
      rw [goto_pc_self]
      exact ⟨fun _ => rfl, fun _ => rfl⟩
    · rw [goto_pc_of_ne _ _ hu]
      constructor
      · rintro ⟨⟩
        exact absurd rfl hu
      · intro hlocked
        rw [h.not_locked hlock u] at hlocked
        cases hlocked
  deciding u g hu := by
    by_cases hut : u = t
    · rw [hut, goto_pc_self] at hu
      cases hu
    · rw [goto_pc_of_ne _ _ hut] at hu
      exact h.deciding u g hu
  waiting u g id hu := by
    by_cases hut : u = t
    · rw [hut, goto_pc_self] at hu
      cases hu
    · rw [goto_pc_of_ne _ _ hut] at hu
      exact h.waiting u g id hu

/-- The mutex is given back, by the task that has it, whatever it did to the
coordinator. -/
theorem Tasks.release {pc : Pc} (h : m.Tasks) (hpc : (m.pc t).locked = true)
    (hunlocked : pc.locked = false) (hlock : m'.lock = none)
    (hpcs : m'.pc = Function.update m.pc t pc)
    (hattempts : ∀ id a, m.attempts id = some a → m'.attempts id = some a)
    (hwaiting : ∀ g id, pc = .waiting g id → ∃ a, m'.attempts id = some a ∧ a.failedGeneration = g) :
    m'.Tasks := by
  have hself : m'.pc t = pc := by rw [hpcs, Function.update_self]
  have hother : ∀ u ≠ t, m'.pc u = m.pc u := fun u hu => by rw [hpcs, Function.update_of_ne hu]
  have hnone : ∀ u, (m'.pc u).locked = false := by
    intro u
    by_cases hu : u = t
    · rw [hu, hself, hunlocked]
    · rw [hother u hu, h.not_locked_of_ne hpc hu]
  refine ⟨fun u => ?_, fun u g hu => ?_, fun u g id hu => ?_⟩
  · rw [hlock, hnone u]
    exact ⟨nofun, nofun⟩
  · have := hnone u
    rw [hu] at this
    cases this
  · by_cases hut : u = t
    · rw [hut, hself] at hu
      exact hwaiting g id hu
    · rw [hother u hut] at hu
      obtain ⟨a, ha, hg⟩ := h.waiting u g id hu
      exact ⟨a, hattempts id a ha, hg⟩

/-- An attempt goes on. -/
theorem Tasks.setStage {stage : Stage} (h : m.Tasks) (ha : m.attempts id = some a)
    (hlock : m'.lock = m.lock) (hpc : m'.pc = m.pc)
    (hattempts : m'.attempts = Function.update m.attempts id (some { a with stage := stage }))
    (hdeciding : ∀ t g, m.pc t = .deciding g → (m.generation = g ∨ ∃ id, m.state = .connecting g id) →
      m'.generation = g ∨ ∃ id, m'.state = .connecting g id) : m'.Tasks where
  lock t := by
    rw [hlock, hpc]
    exact h.lock t
  deciding t g ht := by
    rw [hpc] at ht
    exact hdeciding t g ht (h.deciding t g ht)
  waiting t g id' ht := by
    rw [hpc] at ht
    obtain ⟨b, hb, hg⟩ := h.waiting t g id' ht
    rw [hattempts]
    by_cases hid : id' = id
    · subst hid
      rw [ha] at hb
      cases hb
      exact ⟨_, Function.update_self .., hg⟩
    · exact ⟨b, (Function.update_of_ne hid ..).trans hb, hg⟩

/-! ### Runs -/

structure Ok (m : Machine) : Prop where
  attempts : m.Attempts
  tasks : m.Tasks

theorem ok_new (config : NfsConfig) (lastInstant : ℕ) : (new config lastInstant).Ok where
  attempts := ⟨rfl, nofun, nofun, nofun, nofun, nofun, nofun, nofun⟩
  tasks := ⟨fun _ => ⟨nofun, nofun⟩, nofun, nofun⟩

theorem Ok.step {action : Action} (h : m.Ok) (hbound : m.epoch < 2 ^ 64)
    (hstep : m.step action = some m') : m'.Ok := by
  obtain ⟨hattempts, htasks⟩ := h
  cases step_does hstep with
  | start hpc => exact ⟨hattempts.tasks _ _, htasks.goto (by rw [hpc]; rfl) nofun nofun⟩
  | lock hpc hlock => exact ⟨hattempts.tasks _ _, htasks.take hlock⟩
  | leave hpc =>
    refine ⟨hattempts.tasks _ _, htasks.goto ?_ nofun nofun⟩
    rcases hpc with ⟨g, hpc⟩ | ⟨g, id, hpc⟩ <;> rw [hpc] <;> rfl
  | read hpc hg =>
    refine ⟨hattempts.tasks _ _, htasks.goto (by rw [hpc]; rfl) ?_ nofun⟩
    rintro g' ⟨⟩
    exact hg
  | skip hpc hg =>
    exact ⟨hattempts.tasks _ _, htasks.release (by rw [hpc]; rfl) rfl rfl rfl (fun _ _ => id) nofun⟩
  | join hpc hstate =>
    refine ⟨hattempts.tasks _ _, htasks.release (by rw [hpc]; rfl) rfl rfl rfl (fun _ _ => id) ?_⟩
    rintro g' id' ⟨⟩
    obtain ⟨a, ha, -, hg⟩ := hattempts.connecting _ _ hstate
    exact ⟨a, ha, hg⟩
  | fail hpc =>
    exact ⟨hattempts.tasks _ _, htasks.release (by rw [hpc]; rfl) rfl rfl rfl (fun _ _ => id) nofun⟩
  | @spawn t now g hpc hstate =>
    -- nothing has replaced the session since the generation was read
    have hg : m.generation = g := (htasks.deciding t g hpc).resolve_right fun ⟨id, hid⟩ =>
      hstate id hid
    refine ⟨(hattempts.spawn hg hstate).tasks _ _, htasks.release (by rw [hpc]; rfl) rfl rfl rfl
      (fun id a ha => ?_) ?_⟩
    · exact (setAttempt_attempts_of_ne _ _ (Nat.ne_of_lt (hattempts.spawned id a ha))).trans ha
    · rintro g' id' ⟨⟩
      exact ⟨_, setAttempt_attempts_self .., rfl⟩
  | receive hpc => exact ⟨hattempts.tasks _ _, htasks.goto (by rw [hpc]; rfl) nofun nofun⟩
  | connected ha hstage =>
    exact ⟨hattempts.setStage ha (by rw [hstage]; rfl) (fun _ => by rw [hstage]; rfl) nofun,
      htasks.setStage ha rfl rfl rfl fun _ _ _ h => h⟩
  | notConnected ha hstage =>
    exact ⟨hattempts.setStage ha (by rw [hstage]; rfl) (fun _ => by rw [hstage]; rfl) nofun,
      htasks.setStage ha rfl rfl rfl fun _ _ _ h => h⟩
  | @replace id now a ha hstage =>
    rw [hattempts.replace_eq ha hstage]
    refine ⟨hattempts.replace ha hstage, htasks.setStage ha rfl rfl rfl fun t g hpc hknown => ?_⟩
    -- a task that has read this generation will find the attempt
    rcases hknown with hg | hentry
    · right
      refine ⟨id, ?_⟩
      have hunreplaced : a.stage.unreplaced = true := by rw [hstage]; rfl
      rw [← hg, hattempts.generation_eq ha hunreplaced]
      exact hattempts.known id a ha (running_of_unreplaced hunreplaced)
        (hattempts.unreplaced id a ha hunreplaced)
    · exact Or.inr hentry
  | finish ha hstage hlock =>
    refine ⟨hattempts.finish hbound ha hstage _, htasks.setStage ha rfl rfl rfl fun t g hpc _ => ?_⟩
    have := htasks.not_locked hlock t
    rw [hpc] at this
    cases this
  | send ha hstage =>
    exact ⟨hattempts.setStage ha (by rw [hstage]; rfl) nofun nofun,
      htasks.setStage ha rfl rfl rfl fun _ _ _ h => h⟩

theorem epoch_le_step {action : Action} (hstep : m.step action = some m') : m.epoch ≤ m'.epoch := by
  cases step_does hstep with
  | replace =>
    change m.epoch ≤ (m.replace _ _).epoch
    unfold replace
    split
    · exact Nat.le_succ _
    · exact Nat.le_refl _
  | _ => exact Nat.le_refl _

theorem ok_of_reachable {config : NfsConfig} {lastInstant : ℕ}
    (h : Reachable config lastInstant m) : m.epoch < 2 ^ 64 → m.Ok := by
  refine h.invariant (I := fun m => m.epoch < 2 ^ 64 → m.Ok)
    (fun _ => ok_new config lastInstant) ?_
  intro m _ m' hok _ hstep hbound
  have hbefore := Nat.lt_of_le_of_lt (epoch_le_step hstep) hbound
  exact (hok hbefore).step hbefore hstep

/-! ### The result -/

/-- The session is replaced by an attempt for the current generation, or not at all. -/
theorem Ok.session_step {action : Action} (h : m.Ok) (hstep : m.step action = some m')
    (hchanged : m'.session ≠ m.session ∨ m'.generation ≠ m.generation) :
    ∃ id a now, action = .attempt id (.advance now) ∧ m.attempts id = some a ∧
      a.stage = .replacing ∧ a.failedGeneration = m.generation ∧ m'.session = some id ∧
      m'.generation = m.generation + 1 ∧ m'.epoch = m.epoch + 1 := by
  cases step_does hstep with
  | @replace id now a ha hstage =>
    rw [h.attempts.replace_eq ha hstage]
    refine ⟨id, a, now, rfl, ha, hstage, ?_, rfl, rfl, rfl⟩
    exact (h.attempts.generation_eq ha (by rw [hstage]; rfl)).symm
  | _ => rcases hchanged with hchanged | hchanged <;> exact absurd rfl hchanged

/-- An attempt is started for the current generation. -/
theorem Ok.spawn_step {action : Action} (h : m.Ok) (hstep : m.step action = some m')
    (hnone : m.attempts id = none) (ha : m'.attempts id = some a) :
    a.failedGeneration = m.generation := by
  have hold : ∀ {id' b b'}, m.attempts id' = some b →
      (m.setAttempt id' b').attempts id = some a → False := by
    intro id' b b' hb hset
    rcases setAttempt_eq_some hset with ⟨rfl, -⟩ | ⟨-, hsome⟩
    · rw [hnone] at hb
      cases hb
    · rw [hnone] at hsome
      cases hsome
  cases step_does hstep with
  | @spawn t now g hpc hstate =>
    rcases setAttempt_eq_some ha with ⟨-, rfl⟩ | ⟨-, hsome⟩
    · exact ((h.tasks.deciding t g hpc).resolve_right fun ⟨id, hid⟩ => hstate id hid).symm
    · rw [hnone] at hsome
      cases hsome
  | connected hb | notConnected hb | finish hb | send hb => exact (hold hb ha).elim
  | replace hb hstage =>
    rw [h.attempts.replace_eq hb hstage] at ha
    exact (hold hb ha).elim
  | _ =>
    have hsome : m.attempts id = some a := ha
    rw [hnone] at hsome
    cases hsome

/-- A completion changes the entry of its own attempt only. -/
theorem Ok.finish_step {r : ReconnectOutcome} {act : AttemptAct} (h : m.Ok)
    (hbound : m.epoch < 2 ^ 64) (ha : m.attempts id = some a) (hstage : a.stage = .finishing r)
    (hstep : m.step (.attempt id act) = some m') (hchanged : m'.state ≠ m.state) :
    m.state = .connecting a.failedGeneration id := by
  cases step_does hstep with
  | @finish _ now b r' hb hstage' =>
    rw [ha] at hb
    cases hb
    rcases h.attempts.finish_cases hbound ha (by rw [hstage]; rfl) r'
      (checkedAdd m.lastInstant now (reconnectFailureBackoff m.config)) with ⟨hown, -⟩ | ⟨-, hkept⟩
    · exact hown
    · exact absurd hkept hchanged
  | connected hb hstage' | notConnected hb hstage' | replace hb hstage' | send hb hstage' =>
    rw [ha] at hb
    cases hb
    rw [hstage] at hstage'
    cases hstage'

/-- A waiter is told the outcome of the attempt it waits for. -/
theorem receive_step {act : Act} {outcome : ℕ} {result : Except Error Unit}
    (hpc : m.pc t = .waiting g outcome) (ha : m.attempts outcome = some a)
    (hstep : m.step (.task t act) = some m') (hresult : m'.pc t = .returned result) :
    ∃ r, a.stage = .sent r ∧ result = r.mapError ReconnectFailure.toError := by
  cases step_does hstep with
  | @receive _ _ outcome' g' b r hpc' hb hsent =>
    rw [hpc] at hpc'
    cases hpc'
    rw [ha] at hb
    cases hb
    rw [goto_pc_self] at hresult
    cases hresult
    exact ⟨r, hsent, rfl⟩
  | leave =>
    rw [goto_pc_self] at hresult
    cases hresult
  | start hpc' | lock hpc' | read hpc' | skip hpc' | join hpc' | fail hpc' | spawn hpc' =>
    rw [hpc] at hpc'
    cases hpc'

/-- **Reconnecting.**  In every run with fewer than `2 ^ 64` replacements the generation
counts them, and in every state that is reached:

* at most one attempt for the current generation runs;
* the session is replaced only by an attempt that was started for the current
  generation, which raises the generation by one;
* attempts are started for the current generation only;
* a completion changes the state of the coordinator only where that is the entry of
  its own attempt;
* a task that waits does so for an attempt for the generation it failed on, and is
  told the outcome of that attempt. -/
theorem reconnect_once (config : NfsConfig) (lastInstant : ℕ) (m : Machine)
    (hreachable : Reachable config lastInstant m) (hbound : m.epoch < 2 ^ 64) :
    m.generation.toNat = m.epoch ∧
    (∀ id id' a a', m.attempts id = some a → m.attempts id' = some a' →
      a.stage.running = true → a'.stage.running = true → a.failedGeneration = m.generation →
      a'.failedGeneration = m.generation → id = id') ∧
    (∀ action m', m.step action = some m' →
      (m'.session ≠ m.session ∨ m'.generation ≠ m.generation →
        ∃ id a now, action = .attempt id (.advance now) ∧ m.attempts id = some a ∧
          a.stage = .replacing ∧ a.failedGeneration = m.generation ∧ m'.session = some id ∧
          m'.generation = m.generation + 1 ∧ m'.epoch = m.epoch + 1) ∧
      ∀ id a, m.attempts id = none → m'.attempts id = some a →
        a.failedGeneration = m.generation) ∧
    (∀ id a r act m', m.attempts id = some a → a.stage = .finishing r →
      m.step (.attempt id act) = some m' → m'.state ≠ m.state →
      m.state = .connecting a.failedGeneration id) ∧
    ∀ t g outcome, m.pc t = .waiting g outcome → ∃ a, m.attempts outcome = some a ∧
      a.failedGeneration = g ∧ ∀ act m' result, m.step (.task t act) = some m' →
        m'.pc t = .returned result →
        ∃ r, a.stage = .sent r ∧ result = r.mapError ReconnectFailure.toError := by
  have h := ok_of_reachable hreachable hbound
  refine ⟨?_, ?_, ?_, ?_, ?_⟩
  · rw [h.attempts.generation, UInt64.toNat_ofNat_of_lt' hbound]
  · intro id id' a a' ha ha' hrun hrun' hg hg'
    obtain ⟨hborn, hle⟩ := h.attempts.born id a ha
    obtain ⟨hborn', hle'⟩ := h.attempts.born id' a' ha'
    refine h.attempts.unique id id' a a' ha ha' hrun hrun' (ofNat_inj_of_lt (by omega) (by omega) ?_)
    rw [← hborn, ← hborn', hg, hg']
  · exact fun action m' hstep => ⟨h.session_step hstep, fun _ _ => h.spawn_step hstep⟩
  · exact fun id a r act m' ha hstage hstep => h.finish_step hbound ha hstage hstep
  · intro t g outcome hpc
    obtain ⟨a, ha, hg⟩ := h.tasks.waiting t g outcome hpc
    exact ⟨a, ha, hg, fun act m' result => receive_step hpc ha⟩

/-- One task, one attempt, one replacement. -/
def oneReconnect : List Action :=
  .task 0 (.start 0) :: List.replicate 3 (.task 0 (.advance 0))
    ++ [.attempt 0 (.connected (.ok ())), .attempt 0 (.advance 0)]

theorem reconnect_once_one_attempt :
    ∃ m, Transition.run step (new { «export» := "/" } 0) oneReconnect = some m ∧ m.epoch = 1 ∧
      m.generation.toNat = m.epoch :=
  ⟨_, rfl, rfl, (reconnect_once { «export» := "/" } 0 _
    (Transition.reaches_of_run oneReconnect rfl) (show 1 < 2 ^ 64 by decide)).1⟩

/-! ### Generations that come back -/

/-- After `k` replacements, none of whose attempts has been told to the coordinator. -/
structure Stalled (k : ℕ) (m : Machine) : Prop where
  generation : m.generation = .ofNat k
  epoch : m.epoch = k
  lock : m.lock = none
  spawned : m.spawned = k
  idle : ∀ t ≥ k, m.pc t = .idle
  state : ∀ now, decision m.state (.ofNat k) now = .spawn
  first : 0 < k → m.attempts 0 = some ⟨0, 0, .finishing (.ok ())⟩

/-- The next attempt is started. -/
theorem Stalled.spawn {k : ℕ} (h : Stalled k m) :
    ∃ m', Transition.Reaches step Transition.anyStep m m' ∧ m'.generation = .ofNat k ∧
      m'.epoch = k ∧ m'.lock = none ∧ m'.spawned = k + 1 ∧ (∀ t ≥ k + 1, m'.pc t = .idle) ∧
      m'.state = .connecting (.ofNat k) k ∧ m'.attempts k = some ⟨.ofNat k, k, .connecting⟩ ∧
      ∀ id ≠ k, m'.attempts id = m.attempts id := by
  obtain ⟨hgeneration, hepoch, hlock, hspawned, hidle, hstate, -⟩ := h
  let m₁ := m.goto k (.locking (.ofNat k))
  let m₂ := { m₁ with lock := some k }.goto k (.reading (.ofNat k))
  let m₃ := m₂.goto k (.deciding (.ofNat k))
  let m₄ := { m₃.spawn (.ofNat k) with lock := none }.goto k (.waiting (.ofNat k) m.spawned)
  have h₁ : m.step (.task k (.start (.ofNat k))) = some m₁ := by
    simp only [Machine.step, hidle k (Nat.le_refl _), taskStep, m₁]
  have h₂ : m₁.step (.task k (.advance 0)) = some m₂ := by
    have hfree : m₁.lock.isNone = true := Option.isNone_iff_eq_none.mpr hlock
    simp only [Machine.step, m₁, goto_pc_self, taskStep, m₂]
    exact if_pos hfree
  have h₃ : m₂.step (.task k (.advance 0)) = some m₃ := by
    have hsame : sessionGenerationNeedsReconnect m₂.generation (.ofNat k) = true :=
      beq_iff_eq.mpr hgeneration
    simp only [Machine.step, m₂, goto_pc_self, taskStep, m₃]
    exact if_pos hsame
  have h₄ : m₃.step (.task k (.advance 0)) = some m₄ := by
    have hspawn : decision m₃.state (.ofNat k) 0 = .spawn := hstate 0
    simp only [Machine.step, m₃, goto_pc_self, taskStep, m₄]
    rw [show decision (m₂.goto k (.deciding (.ofNat k))).state (.ofNat k) 0 = .spawn from hspawn]
    rfl
  refine ⟨m₄, (((Transition.Reaches.refl _ _ _).next trivial h₁).next trivial h₂).next trivial
    h₃ |>.next trivial h₄, hgeneration, hepoch, rfl, congrArg (· + 1) hspawned, ?_, ?_, ?_, ?_⟩
  · intro t ht
    have hne : t ≠ k := by omega
    simp only [m₄, m₃, m₂, m₁, goto, Machine.spawn, setAttempt, Function.update_of_ne hne]
    exact hidle t (by omega)
  · change ReconnectState.connecting (.ofNat k) m.spawned = _
    rw [hspawned]
  · change Function.update m.attempts m.spawned (some ⟨.ofNat k, m.epoch, .connecting⟩) k = _
    rw [hspawned, hepoch, Function.update_self]
  · intro id hid
    change Function.update m.attempts m.spawned _ id = _
    rw [hspawned, Function.update_of_ne hid]

/-- It replaces the session, and waits for the coordinator. -/
theorem Stalled.next {k : ℕ} (h : Stalled k m) :
    ∃ m', Transition.Reaches step Transition.anyStep m m' ∧ Stalled (k + 1) m' := by
  obtain ⟨m₁, hreach, hgeneration, hepoch, hlock, hspawned, hidle, hstate, hattempt, hothers⟩ :=
    h.spawn
  let a : Attempt := ⟨.ofNat k, k, .connecting⟩
  let m₂ := m₁.setAttempt k { a with stage := .replacing }
  let m₃ := (m₂.replace k (.ofNat k)).setAttempt k { a with stage := .finishing (.ok ()) }
  have h₂ : m₁.step (.attempt k (.connected (.ok ()))) = some m₂ := by
    simp only [Machine.step, hattempt, Option.bind_some, attemptStep, m₂, a]
  have h₃ : m₂.step (.attempt k (.advance 0)) = some m₃ := by
    simp only [Machine.step, m₂, setAttempt_attempts_self, Option.bind_some, attemptStep, m₃, a]
  have hreplace : m₂.replace k (.ofNat k) =
      { m₂ with session := some k, generation := m₂.generation + 1, epoch := m₂.epoch + 1 } :=
    if_pos (beq_iff_eq.mpr hgeneration)
  refine ⟨m₃, (hreach.next trivial h₂).next trivial h₃, ?_⟩
  simp only [m₃, hreplace]
  constructor
  case generation =>
    change m₁.generation + 1 = _
    rw [hgeneration, UInt64.ofNat_add]
    rfl
  case epoch => exact congrArg (· + 1) hepoch
  case lock => exact hlock
  case spawned => exact hspawned
  case idle => exact hidle
  case state =>
    intro now
    change decision m₁.state _ now = .spawn
    rw [hstate, decision, if_neg]
    intro heq
    have := congrArg UInt64.toNat heq
    rw [UInt64.toNat_ofNat', UInt64.toNat_ofNat'] at this
    omega
  case first =>
    intro _
    by_cases hk : k = 0
    · subst hk
      exact setAttempt_attempts_self ..
    · rw [setAttempt_attempts_of_ne _ _ (Ne.symm hk)]
      refine (setAttempt_attempts_of_ne m₁ _ (Ne.symm hk)).trans ?_
      rw [hothers 0 (Ne.symm hk)]
      exact h.first (Nat.pos_of_ne_zero hk)

theorem stalled_new (config : NfsConfig) (lastInstant k : ℕ) :
    ∃ m, Reachable config lastInstant m ∧ Stalled k m := by
  induction k with
  | zero => exact ⟨new config lastInstant, .refl _ _ _,
      ⟨rfl, rfl, rfl, rfl, fun _ _ => rfl, fun _ => rfl, nofun⟩⟩
  | succ k ih =>
    obtain ⟨m, hreachable, hstalled⟩ := ih
    obtain ⟨m', hrun, hstalled'⟩ := hstalled.next
    exact ⟨m', Relation.ReflTransGen.trans hreachable hrun, hstalled'⟩

/-- **The generation of an attempt comes back.**  After `2 ^ 64` replacements the
first attempt, which has not been told to the coordinator yet, and a new one both run
for the current generation. -/
theorem reconnect_wraps :
    ∃ m a a', Reachable { «export» := "/" } 0 m ∧ m.attempts 0 = some a ∧
      m.attempts (2 ^ 64) = some a' ∧ a.stage.running = true ∧ a'.stage.running = true ∧
      a.failedGeneration = m.generation ∧ a'.failedGeneration = m.generation := by
  obtain ⟨m, hreachable, hstalled⟩ := stalled_new { «export» := "/" } 0 (2 ^ 64)
  obtain ⟨m', hrun, hgeneration, -, -, -, -, -, hattempt, hothers⟩ := hstalled.spawn
  refine ⟨m', _, _, Relation.ReflTransGen.trans hreachable hrun,
    (hothers 0 (by decide)).trans (hstalled.first (by decide)), hattempt, rfl, rfl, ?_, ?_⟩
  · rw [hgeneration]
    rfl
  · exact hgeneration.symm

end Machine

end NfsCrust.Reconnect
