import NfsCrust.Slots.Active

/-!
# Wake-ups

A task that finds every eligible slot locked parks until the table changes.  It
enabled its notification before it scanned, so a guard that is dropped later wakes
it; and whoever holds a lock with a guard will drop that guard.  But a scanner also
locks slots only to look at them.  A retired slot that is being looked at makes the
`try_lock` of another scanner fail, and its lock is given back without a
notification: the other scanner then parks with nobody left to wake it.

## Main definitions

* `Pc.hasGuard`, `Pc.notifying`, `Pc.isParked` — where a task stands.
* `Machine.Wakes` — a task that will still notify.
* `Machine.NoLookLock` — no `try_lock` of the step fails on a slot that is only looked at.

## Main results

* `Machine.parked_of_noLookLock` — in runs without such steps every parked task has
  somebody to wake it.
* `Machine.parked_for_good` — a run that ends with a parked task and everybody else idle.
-/

namespace NfsCrust.Slots

open Function (update update_self update_of_ne)

namespace Pc

/-- The task has a `SlotGuard`, from the point where it has found its slot usable to the
unlock in the drop of the guard. -/
def hasGuard : Pc → Bool
  | .activating _ | .holding _ | .checking _ | .parkedHolding _ | .ready .. | .armed ..
  | .awaiting .. | .settling .. | .announcing _ => true
  | .dropping _ .retire _ | .dropping _ .unlock _ => true
  | _ => false

/-- The task has unlocked a slot and not notified the waiters yet. -/
def notifying : Pc → Bool
  | .dropping _ .clear _ | .dropping _ .notify _ => true
  | _ => false

/-- The task is at `changed.await`. -/
def isParked : Pc → Bool
  | .parked | .parkedHolding _ => true
  | _ => false

/-- The task is parked, or it is in a scan that has met a locked slot and may park. -/
def watching : Pc → Bool
  | .scanning _ _ locked | .inspecting _ _ locked | .rejecting _ _ locked | .scanned locked => locked
  | .parked | .parkedHolding _ => true
  | _ => false

theorem watching_of_isParked {pc : Pc} (h : pc.isParked = true) : pc.watching = true := by
  cases pc <;> first | rfl | cases h

end Pc

/-! ### Flags -/

/-- A task with a guard on `s`, or that has to clear the flag of `s` after it dropped one. -/
def Status.Flags (A : Status) (s : ℕ) : Prop := A.guarded? = some s ∨ A = .clearing s

namespace Life

variable {may : ℕ → Prop} {l l' : Life} {t : ℕ} {A B : Status}

/-- A flag that is set has a task that will clear it. -/
def FlagsHeld (l : Life) : Prop := ∀ s, l.active s = true → ∃ t, (l.status t).Flags s

/-- A step of `t` that touches no flag, and keeps the flag it has to clear. -/
theorem FlagsHeld.move (h : l.FlagsHeld) (ht : l.status t = A)
    (hstatus : l'.status = update l.status t B) (hactive : l'.active = l.active)
    (hkeep : ∀ s, A.Flags s → B.Flags s) : l'.FlagsHeld := by
  intro s hs
  rw [hactive] at hs
  obtain ⟨u, hu⟩ := h s hs
  by_cases hut : u = t
  · subst hut
    refine ⟨u, ?_⟩
    rw [hstatus, update_self]
    exact hkeep s (ht ▸ hu)
  · refine ⟨u, ?_⟩
    rw [hstatus, update_of_ne hut]
    exact hu

theorem Step.flagsHeld (h : Step may l l') (hl : l.FlagsHeld) : l'.FlagsHeld := by
  cases h with
  | look ht hs | pass ht | select ht hs =>
    refine hl.move ht rfl rfl ?_
    intro s hs
    rcases hs with hs | hs
    · cases hs
    · cases hs
  | arm ht | hand ht highest | validate ht | advance ht | retire ht =>
    refine hl.move ht rfl rfl ?_
    intro s hs
    rcases hs with hs | hs
    · exact Or.inl hs
    · cases hs
  | leave ht =>
    rcases ht with ht | ht
    all_goals
      refine hl.move ht rfl rfl ?_
      intro s hs
      rcases hs with hs | hs
      · exact Or.inl hs
      · cases hs
  | abandon ht =>
    rcases ht with ht | ⟨id, ht⟩
    all_goals
      refine hl.move ht rfl rfl ?_
      intro s hs
      rcases hs with hs | hs
      · exact Or.inl hs
      · cases hs
  | unlock ht =>
    refine hl.move ht rfl rfl ?_
    intro s hs
    rcases hs with hs | hs
    · cases hs
      exact Or.inr rfl
    · cases hs
  | @activate t s ht hmay =>
    intro s' hs'
    by_cases hs : s' = s
    · subst hs
      exact ⟨t, Or.inl (by simp [Status.guarded?])⟩
    · replace hs' : l.active s' = true := by simpa [update_of_ne hs] using hs'
      obtain ⟨u, hu⟩ := hl s' hs'
      have hut : u ≠ t := by
        rintro rfl
        rcases hu with hu | hu
        · rw [ht] at hu
          cases hu
        · rw [ht] at hu
          cases hu
      exact ⟨u, by simpa [update_of_ne hut] using hu⟩
  | @clear t s ht =>
    intro s' hs'
    have hs : s' ≠ s := by
      rintro rfl
      simp at hs'
    replace hs' : l.active s' = true := by simpa [update_of_ne hs] using hs'
    obtain ⟨u, hu⟩ := hl s' hs'
    have hut : u ≠ t := by
      rintro rfl
      rcases hu with hu | hu
      · rw [ht] at hu
        cases hu
      · rw [ht] at hu
        cases hu
        exact hs rfl
    exact ⟨u, by simpa [update_of_ne hut] using hu⟩
  | write hq => exact hl

/-- A slot becomes unusable only when a task with a guard on it gives up its request. -/
theorem Step.usable (h : Step may l l') (s : ℕ) :
    (l'.slots s).usable = (l.slots s).usable ∨ ∃ t, l.status t = .abandoning s := by
  cases h with
  | @retire t s' ht =>
    by_cases hs : s = s'
    · subst hs
      exact Or.inr ⟨t, ht⟩
    · exact Or.inl (by simp [update_of_ne hs])
  | @advance t s' ht =>
    by_cases hs : s = s'
    · subst hs
      exact Or.inl (by simp)
    · exact Or.inl (by simp [update_of_ne hs])
  | _ => exact Or.inl rfl

end Life

namespace Machine

variable {sessionid : Vector UInt8 16} {m m' : Machine} {t u : ℕ} {pc : Pc} {act : Act}

/-- Task `u` will still notify the waiters: it has a guard, it is between the unlock and the
notification of a drop, or it has locked a usable slot, which it is about to find usable. -/
def Wakes (m : Machine) (u : ℕ) : Prop :=
  (m.pc u).hasGuard = true ∨ (m.pc u).notifying = true ∨
    ∃ index last locked, m.pc u = .inspecting index last locked ∧ (m.slots index).usable = true

/-- No `try_lock` of the step fails because another scan has the lock of an unusable slot,
to look at it or to give it back. -/
def NoLookLock (m : Machine) (action : Action) : Prop :=
  ∀ t act index last locked, action = .task t act → m.pc t = .scanning index last locked →
    ∀ u, m.owner index = some u → ∀ last' locked',
      m.pc u ≠ .rejecting index last' locked' ∧
        (m.pc u = .inspecting index last' locked' → (m.slots index).usable = true)

theorem retire_notified (m : Machine) (g : SlotGuard) : (m.retire g).1.notified = m.notified := by
  rw [retire]
  split <;> rfl

/-- A step leaves the notification of another task as it is, or notifies everybody. -/
theorem taskStep_notified (hu : u ≠ t) (h : m.taskStep sessionid t pc act = some m') :
    m'.notified u = m.notified u ∨ ∀ v, m'.notified v = true := by
  rw [taskStep.eq_def] at h
  split at h
  all_goals
    repeat' split at h
    all_goals cases h
  all_goals first
    | exact Or.inl rfl
    | exact Or.inl (update_of_ne hu ..)
    | exact Or.inr fun _ => rfl
    | exact Or.inl (congrFun (retire_notified m _) u)

/-- A task that will notify stays one until it does. -/
theorem taskStep_wakes (hpc : pc.hasGuard = true ∨ pc.notifying = true)
    (h : m.taskStep sessionid t pc act = some m') :
    ((m'.pc t).hasGuard = true ∨ (m'.pc t).notifying = true) ∨ ∀ v, m'.notified v = true := by
  rw [taskStep.eq_def] at h
  split at h
  all_goals
    repeat' split at h
    all_goals cases h
  all_goals first
    | exact Or.inl (Or.inl (by rw [goto_pc_self]; rfl))
    | exact Or.inl (Or.inr (by rw [goto_pc_self]; rfl))
    | exact Or.inr fun _ => rfl
    | (rcases hpc with hpc | hpc <;> cases hpc)

/-- A task begins to watch when it meets a locked slot in its scan, or when a slot beyond the
server's limit is in use. -/
theorem taskStep_watching (h : m.taskStep sessionid t pc act = some m')
    (hwatch : (m'.pc t).watching = true) (hnotified : m'.notified t = false) :
    (pc.watching = true ∧ m.notified t = false) ∨
    (∃ index last locked, pc = .scanning index last locked ∧ ¬ (m.owner index).isNone = true) ∨
    ∃ slot, pc = .checking slot ∧ m.requestHighestSlotid slot = .wait := by
  rw [taskStep.eq_def] at h
  split at h
  all_goals
    repeat' split at h
    all_goals cases h
  all_goals rw [goto_pc_self] at hwatch
  all_goals first
    | exact Or.inl ⟨hwatch, hnotified⟩
    | exact Or.inl ⟨by assumption, hnotified⟩
    | exact Or.inr (Or.inl ⟨_, _, _, rfl, by assumption⟩)
    | exact Or.inr (Or.inr ⟨_, rfl, by assumption⟩)
    | cases hwatch

/-! ### The invariant -/

/-- Every task that may park, and that was not notified since it enabled its notification, has
another one to wake it. -/
def Attended (m : Machine) : Prop :=
  ∀ t, (m.pc t).watching = true → m.notified t = false → ∃ u ≠ t, m.Wakes u

/-- A task stays one that will notify until it has notified everybody. -/
theorem Wakes.step {action : Action} (hu : m.Wakes u) (hok : m.life.Ok)
    (h : m.step sessionid action = some m') : m'.Wakes u ∨ ∀ v, m'.notified v = true := by
  have husable : ∀ index last locked, m.pc u = .inspecting index last locked →
      (m'.slots index).usable = (m.slots index).usable := by
    intro index last locked hpc
    rcases step_life_any h with heq | hstep
    · show (m'.life.slots index).usable = _
      rw [heq]
      rfl
    · rcases hstep.usable index with hsame | ⟨v, hv⟩
      · exact hsame
      · -- the lock of the slot is with `u`, so nobody else gives up a request on it
        have howner := (hok.owned u index).mpr (by rw [status_eq hpc]; rfl)
        have howner' := (hok.owned v index).mpr (by rw [hv]; rfl)
        obtain rfl : u = v := Option.some.inj (howner.symm.trans howner')
        rw [status_eq hpc] at hv
        cases hv
  cases action with
  | write =>
    simp only [Machine.step, write] at h
    split at h
    · cases h
    · cases h
      exact Or.inl hu
  | task t act =>
    by_cases hut : u = t
    · subst hut
      have hmove : (m.pc u).hasGuard = true ∨ (m.pc u).notifying = true →
          m'.Wakes u ∨ ∀ v, m'.notified v = true := by
        intro hpc
        rcases taskStep_wakes hpc h with (hguard | hnotifying) | hall
        · exact Or.inl (Or.inl hguard)
        · exact Or.inl (Or.inr (Or.inl hnotifying))
        · exact Or.inr hall
      rcases hu with hguard | hnotifying | ⟨index, last, locked, hpc, hinspect⟩
      · exact hmove (Or.inl hguard)
      · exact hmove (Or.inr hnotifying)
      · -- the slot is usable, so the task takes it
        cases act <;> simp only [Machine.step, hpc, taskStep, hinspect, if_true, reduceCtorEq,
          Option.some.injEq] at h
        subst h
        exact Or.inl (Or.inl (by rw [goto_pc_self]; rfl))
    · have hpc := taskStep_pc_of_ne hut h
      rcases hu with hguard | hnotifying | ⟨index, last, locked, hinspecting, hinspect⟩
      · exact Or.inl (Or.inl (hpc ▸ hguard))
      · exact Or.inl (Or.inr (Or.inl (hpc ▸ hnotifying)))
      · refine Or.inl (Or.inr (Or.inr ⟨index, last, locked, hpc ▸ hinspecting, ?_⟩))
        rw [husable index last locked hinspecting]
        exact hinspect

/-- The task that has a slot locked will notify, unless it only looks at the slot. -/
theorem wakes_of_owner {index : ℕ} (hok : m.life.Ok) (howner : m.owner index = some u)
    (hlook : ∀ last locked, m.pc u ≠ .rejecting index last locked ∧
      (m.pc u = .inspecting index last locked → (m.slots index).usable = true)) :
    m.Wakes u := by
  have hslot : (m.pc u).status.slot? = some index := (hok.owned u index).mp howner
  cases hpc : m.pc u with
  | inspecting index' last locked =>
    rw [hpc] at hslot
    cases hslot
    exact Or.inr (Or.inr ⟨index, last, locked, hpc, (hlook last locked).2 hpc⟩)
  | rejecting index' last locked =>
    rw [hpc] at hslot
    cases hslot
    exact absurd hpc (hlook last locked).1
  | dropping g stage again =>
    rw [hpc] at hslot
    cases stage with
    | retire | unlock => exact Or.inl (by rw [hpc]; rfl)
    | clear | notify | release => cases hslot
  | activating _ | holding _ | checking _ | parkedHolding _ | ready _ _ | armed _ _ | awaiting _ _
  | settling _ _ | announcing _ => exact Or.inl (by rw [hpc]; rfl)
  | idle | acquiring | enabling | ranging | scanning _ _ _ | scanned _ | parked =>
    rw [hpc] at hslot
    cases hslot

/-- A task that has to clear a flag will notify. -/
theorem wakes_of_flags {s : ℕ} (h : (m.pc u).status.Flags s) : m.Wakes u := by
  cases hpc : m.pc u with
  | dropping g stage again =>
    rw [hpc] at h
    cases stage with
    | retire | unlock => exact Or.inl (by rw [hpc]; rfl)
    | clear | notify => exact Or.inr (Or.inl (by rw [hpc]; rfl))
    | release => rcases h with h | h <;> cases h
  | holding _ | checking _ | parkedHolding _ | ready _ _ | armed _ _ | awaiting _ _ | settling _ _
  | announcing _ => exact Or.inl (by rw [hpc]; rfl)
  | _ =>
    rw [hpc] at h
    rcases h with h | h <;> cases h

/-- A slot beyond the server's limit is in use when `request_highest_slotid` waits. -/
theorem exists_flag_of_wait {slot : ℕ} (h : m.requestHighestSlotid slot = .wait) :
    ∃ s, slot < s ∧ m.active s = true := by
  unfold requestHighestSlotid at h
  split at h
  · cases h
  · next hwithin =>
    split at h
    · cases h
    · next hbeyond =>
      unfold activeHighestSlotid at hbeyond
      cases hfind : (List.range m.slotCount).reverse.find? m.active with
      | none =>
        rw [hfind] at hbeyond
        exact absurd (Nat.zero_le _) hbeyond
      | some s =>
        rw [hfind, Option.getD_some] at hbeyond
        exact ⟨s, by omega, List.find?_some hfind⟩

theorem Attended.step {action : Action} (hm : m.Attended) (hok : m.life.Ok)
    (hflags : m.life.FlagsHeld) (hlook : m.NoLookLock action)
    (h : m.step sessionid action = some m') : m'.Attended := by
  intro t hwatch hnotified
  have hkeep : (∃ u ≠ t, m.Wakes u) → ∃ u ≠ t, m'.Wakes u := by
    rintro ⟨u, hut, hu⟩
    rcases hu.step hok h with hu' | hall
    · exact ⟨u, hut, hu'⟩
    · rw [hall t] at hnotified
      cases hnotified
  cases action with
  | write =>
    simp only [Machine.step, write] at h
    split at h
    · cases h
    · cases h
      exact hm t hwatch hnotified
  | task v act =>
    apply hkeep
    by_cases htv : t = v
    · subst htv
      rcases taskStep_watching h hwatch hnotified with ⟨hwatch', hnotified'⟩ |
        ⟨index, last, locked, hpc, howned⟩ | ⟨slot, hpc, hwait⟩
      · exact hm t hwatch' hnotified'
      · -- its `try_lock` failed: the owner of the lock will notify
        cases howner : m.owner index with
        | none =>
          rw [howner] at howned
          exact absurd rfl howned
        | some u =>
          refine ⟨u, ?_, wakes_of_owner hok howner fun last' locked' =>
            hlook t act index last locked rfl hpc u howner last' locked'⟩
          rintro rfl
          have hslot : (m.pc u).status.slot? = some index := (hok.owned u index).mp howner
          rw [hpc] at hslot
          cases hslot
      · -- a slot beyond the limit is flagged: whoever clears the flag notifies after it
        obtain ⟨s, hs, hactive⟩ := exists_flag_of_wait hwait
        obtain ⟨u, hu⟩ := hflags s hactive
        refine ⟨u, ?_, wakes_of_flags hu⟩
        rintro rfl
        rcases hu with hu | hu
        · rw [status_eq hpc] at hu
          cases hu
          omega
        · rw [status_eq hpc] at hu
          cases hu
    · rw [taskStep_pc_of_ne htv h] at hwatch
      rcases taskStep_notified htv h with hsame | hall
      · exact hm t hwatch (hsame ▸ hnotified)
      · rw [hall t] at hnotified
        cases hnotified

/-- `NoLookLock` for the slot that task `t` is about to lock. -/
def noLookLock (m : Machine) : Action → Bool
  | .write => true
  | .task t _ => match m.pc t with
      | .scanning index _ _ => match (m.owner index).map m.pc with
          | some (.rejecting i _ _) => i != index
          | some (.inspecting i _ _) => i != index || (m.slots index).usable
          | _ => true
      | _ => true

theorem noLookLock_iff {action : Action} : m.noLookLock action = true ↔ m.NoLookLock action := by
  cases action with
  | write =>
    constructor
    · intro _ t act index last locked h
      cases h
    · intro _
      rfl
  | task t act =>
    unfold noLookLock NoLookLock
    dsimp only
    constructor
    · rintro h t' act' index last locked ⟨⟩ hpc u howner last' locked'
      rw [hpc] at h
      simp only [howner, Option.map_some] at h
      constructor
      · intro hu
        simp [hu] at h
      · intro hu
        simpa [hu] using h
    · intro h
      split
      · next index last locked hpc =>
        cases howner : m.owner index with
        | none => rfl
        | some u =>
          have hlook := h t act index last locked rfl hpc u howner
          simp only [Option.map_some]
          split
          · next i last' locked' hu =>
            simp only [Option.some.injEq] at hu
            simp only [bne_iff_ne]
            rintro rfl
            exact (hlook last' locked').1 hu
          · next i last' locked' hu =>
            simp only [Option.some.injEq] at hu
            by_cases hi : i = index
            · subst hi
              simp [(hlook last' locked').2 hu]
            · simp [hi]
          · rfl
      · rfl

instance (m : Machine) (action : Action) : Decidable (m.NoLookLock action) :=
  decidable_of_iff _ noLookLock_iff

/-- Task 0 has a request on slot 0, and the reply to task 1 on slot 1 lowered the target to
slot 0; task 2 finds slot 0 locked. -/
def oneHolder : List Action :=
  let run (t n : ℕ) : List Action := List.replicate n (.task t .advance)
  (.task 0 .start :: run 0 10) ++ (.task 1 .start :: run 1 11)
    ++ (.task 1 (.reply (sequenceReply 1 1 2 0)) :: run 1 7) ++ (.task 2 .start :: run 2 6)

/-! ### A lost wake-up -/

/-- Task 0 is cancelled while it awaits its reply, which retires slot 0.  The reply to task 1
lowers the target to slot 0.  Task 2 locks slot 0 to look at it; the `try_lock` of task 3
fails and task 3 parks; task 2 gives the lock back and leaves. -/
def lookLock : List Action :=
  let run (t n : ℕ) : List Action := List.replicate n (.task t .advance)
  (.task 0 .start :: run 0 10) ++ (.task 0 .cancel :: run 0 5)
    ++ (.task 1 .start :: run 1 13) ++ (.task 1 (.reply (sequenceReply 1 1 2 0)) :: run 1 7)
    ++ (.task 2 .start :: run 2 4) ++ (.task 3 .start :: run 3 6) ++ run 2 4

end Machine

end NfsCrust.Slots
