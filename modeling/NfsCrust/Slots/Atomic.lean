import NfsCrust.Slots.Active
import Mathlib.Data.Finset.Card
import Mathlib.Data.List.Perm.Basic

/-!
# The slot table, one operation at a time

`SlotTable` keeps five things apart: the states of the slots, the number of live
slots, the permits of the semaphore, the `active` flags and the packed limits.
Here each operation of the table and of a guard is one step, and any number of
tasks call them in any order.  The table is that of `Machine`; what the tasks do
with a slot is left open, so a guard may be armed, disarmed, retired and dropped
at will.

A guard accounts for one permit, unless it retires its slot.  So the free permits
and the guards that do not retire are together as many as the usable slots, and a
task that got a permit finds a usable slot that nobody has locked.

## Main definitions

* `Machine.acquire`, `Machine.take`, `Machine.markUnusable`, `Machine.dropGuard` — the
  operations.
* `Holders`, `Holders.step` — the table with the guards that are held.
* `Holders.Sound` — the invariant.

## Main results

* `Holders.step_sound` — every operation keeps the invariant.
* `Holders.slot_table_sound` — what holds in every state.
-/

namespace NfsCrust.Slots

open Function (update update_self update_of_ne)

/-! ### Operations -/

/-- What a round of `acquire` ends in. -/
inductive Acquired
  | slot (index : ℕ)
  /-- `all_slots_unusable_error`. -/
  | unusable
  /-- There is no permit, or every eligible slot that may be usable is locked. -/
  | wait
  /-- The scan indexes beyond the table. -/
  | outOfBounds
  deriving DecidableEq, Repr

namespace Machine

/-- The scan of `acquire`, over the indices that are left. -/
def scan (m : Machine) : Bool → List ℕ → Acquired
  | eligibleSlotLocked, [] => if eligibleSlotLocked then .wait else .unusable
  | eligibleSlotLocked, index :: rest =>
      if m.slotCount ≤ index then .outOfBounds
      else if (m.owner index).isSome then scan m true rest
      else if (m.slots index).usable then .slot index
      else scan m eligibleSlotLocked rest

def acquire (m : Machine) : Acquired :=
  if m.closed then .unusable
  else if m.permits = 0 then .wait
  else m.scan false (List.range (m.targetHighestSlotid + 1))

/-- Task `t` has its permit, the lock of the slot, and its flag set. -/
def take (m : Machine) (t index : ℕ) : Machine :=
  { m with
    permits := m.permits - 1
    owner := update m.owner index (some t)
    active := update m.active index true }

/-- `SlotGuard::mark_unusable`. -/
def markUnusable (m : Machine) (g : SlotGuard) : Machine × SlotGuard :=
  if (m.slots g.slot).usable then
    ({ m with
        slots := update m.slots g.slot { m.slots g.slot with usable := false }
        liveSlots := m.liveSlots - 1
        closed := m.closed || m.liveSlots == 1 },
      { g with retirePermit := true })
  else (m, g)

/-- `SlotGuard::drop` marks the slot when the request is outstanding. -/
theorem retire_eq (m : Machine) (g : SlotGuard) :
    m.retire g = if g.requestOutstanding then m.markUnusable g else (m, g) := by
  unfold retire markUnusable
  cases g.requestOutstanding <;> simp

/-- The fields of a guard are dropped: the lock, then the flag, the waiters and the
permit. -/
def release (m : Machine) (g : SlotGuard) : Machine :=
  { m.notifyWaiters with
    owner := update m.owner g.slot none
    active := update m.active g.slot false
    permits := if g.retirePermit then m.permits else m.permits + 1 }

/-- A guard is dropped. -/
def dropGuard (m : Machine) (g : SlotGuard) : Machine := (m.retire g).1.release (m.retire g).2

def updateLimits (m : Machine) (highestSlotid targetHighestSlotid : UInt32) : Machine :=
  { m.notifyWaiters with slotLimits := m.updatedLimits highestSlotid targetHighestSlotid }

end Machine

/-- The table and the guards that are held. -/
structure Holders where
  table : Machine
  guards : List SlotGuard

namespace Holders

def new (slotCount : UInt32) : Holders := ⟨.new slotCount, []⟩

/-- Operations of the table and of the guards; a guard is named by its place. -/
inductive Op
  | acquire (t : ℕ)
  | acquireForRequest (t : ℕ)
  /-- A task that waits in `acquire_for_request` is woken. -/
  | requestHighestSlotid (k : ℕ)
  | updateLimits (highestSlotid targetHighestSlotid : UInt32)
  | markRequestOutstanding (k : ℕ)
  | disarmRequest (k : ℕ)
  | advanceSequence (k : ℕ)
  | markUnusable (k : ℕ)
  | drop (k : ℕ)

def take (s : Holders) (t index : ℕ) : Holders :=
  ⟨s.table.take t index, ⟨index, false, false⟩ :: s.guards⟩

def drop (s : Holders) (k : ℕ) (g : SlotGuard) : Holders :=
  ⟨s.table.dropGuard g, s.guards.eraseIdx k⟩

def step (s : Holders) : Op → Option Holders
  | .acquire t => match s.table.acquire with
      | .slot index => some (s.take t index)
      | .unusable | .wait => some s
      | .outOfBounds => none
  | .acquireForRequest t => match s.table.acquire with
      | .slot index =>
          match (s.table.take t index).requestHighestSlotid index with
          | .none => some ((s.take t index).drop 0 ⟨index, false, false⟩)
          -- a task that waits here keeps its guard
          | .some _ | .wait => some (s.take t index)
      | .unusable | .wait => some s
      | .outOfBounds => none
  | .requestHighestSlotid k => do
      let g ← s.guards[k]?
      match s.table.requestHighestSlotid g.slot with
      | .none => some (s.drop k g)
      | .some _ | .wait => some s
  | .updateLimits highest target => some { s with table := s.table.updateLimits highest target }
  | .markRequestOutstanding k => do
      let g ← s.guards[k]?
      some { s with guards := s.guards.set k { g with requestOutstanding := true } }
  | .disarmRequest k => do
      let g ← s.guards[k]?
      some { s with guards := s.guards.set k { g with requestOutstanding := false } }
  | .advanceSequence k => do
      let g ← s.guards[k]?
      some { s with table := s.table.advanceSequence g.slot }
  | .markUnusable k => do
      let g ← s.guards[k]?
      some ⟨(s.table.markUnusable g).1, s.guards.set k (s.table.markUnusable g).2⟩
  | .drop k => do
      let g ← s.guards[k]?
      some (s.drop k g)

/-- The states any sequence of operations reaches. -/
def Reachable (slotCount : UInt32) (s : Holders) : Prop :=
  Transition.Reaches step Transition.anyStep (new slotCount) s

/-! ### The invariant -/

/-- The slots that are usable. -/
def usableSlots (m : Machine) : Finset ℕ :=
  (Finset.range m.slotCount).filter fun i => (m.slots i).usable

/-- The number of guards that will give their permit back. -/
def returning (guards : List SlotGuard) : ℕ := guards.countP fun g => !g.retirePermit

/-- The table is in step with the guards that are held. -/
structure Sound (slotCount : ℕ) (m : Machine) (guards : List SlotGuard) : Prop where
  count : m.slotCount = slotCount
  positive : 0 < slotCount
  small : slotCount < 2 ^ 32
  limits : m.slotLimits = packSlotLimits m.enforcedHighestSlotid m.targetHighestSlotid
  target_le : m.targetHighestSlotid ≤ m.enforcedHighestSlotid
  enforced_lt : m.enforcedHighestSlotid < slotCount
  live : m.liveSlots = (usableSlots m).card
  permits : m.permits + returning guards = m.liveSlots
  closed : m.closed = true ↔ m.liveSlots = 0
  nodup : (guards.map SlotGuard.slot).Nodup
  bound : ∀ g ∈ guards, g.slot < slotCount
  owned : ∀ i, (m.owner i).isSome = true ↔ i ∈ guards.map SlotGuard.slot
  retiring : ∀ g ∈ guards, (m.slots g.slot).usable = !g.retirePermit

variable {slotCount : ℕ} {m : Machine} {g g' : SlotGuard} {guards guards' : List SlotGuard}

/-- The order of the guards does not matter. -/
theorem Sound.perm (h : Sound slotCount m guards) (hperm : guards.Perm guards') :
    Sound slotCount m guards' := by
  have hslots := hperm.map SlotGuard.slot
  refine { h with
    permits := ?_
    nodup := hslots.nodup_iff.mp h.nodup
    bound := ?_
    owned := ?_
    retiring := ?_ }
  · rw [returning, ← hperm.countP_eq]
    exact h.permits
  · intro g hg
    exact h.bound g (hperm.mem_iff.mpr hg)
  · intro i
    rw [← hslots.mem_iff]
    exact h.owned i
  · intro g hg
    exact h.retiring g (hperm.mem_iff.mpr hg)

theorem slotLimits_updateLimits (h : Sound slotCount m guards) (highest target : UInt32) :
    (m.updateLimits highest target).enforcedHighestSlotid = min highest.toNat (slotCount - 1) ∧
      (m.updateLimits highest target).targetHighestSlotid
        = min (min target.toNat (min highest.toNat (slotCount - 1))) (slotCount - 1) := by
  have hsmall := h.small
  have he : min highest.toNat (slotCount - 1) < 2 ^ 32 := by omega
  have ht : min (min target.toNat (min highest.toNat (slotCount - 1))) (slotCount - 1) < 2 ^ 32 := by
    omega
  have hpack : (m.updateLimits highest target).slotLimits
      = packSlotLimits (min highest.toNat (slotCount - 1))
        (min (min target.toNat (min highest.toNat (slotCount - 1))) (slotCount - 1)) := by
    show m.updatedLimits highest target = _
    rw [Machine.updatedLimits, h.count]
  exact ⟨Machine.enforcedHighestSlotid_of_pack he ht hpack,
    Machine.targetHighestSlotid_of_pack he ht hpack⟩

/-- `update_limits` clamps what the server sends, and stores it exactly. -/
theorem Sound.updateLimits (h : Sound slotCount m guards) (highest target : UInt32) :
    Sound slotCount (m.updateLimits highest target) guards := by
  obtain ⟨he, ht⟩ := slotLimits_updateLimits h highest target
  have hpos := h.positive
  refine { h with limits := ?_, target_le := ?_, enforced_lt := ?_ }
  · rw [he, ht]
    show m.updatedLimits highest target = _
    rw [Machine.updatedLimits, h.count]
  · rw [he, ht]
    omega
  · rw [he]
    omega

theorem sound_new (slotCount : UInt32) :
    Sound (max slotCount.toNat 1) (.new slotCount) [] := by
  have hcount := slotCount.toNat_lt
  have hlast : max slotCount.toNat 1 - 1 < 2 ^ 32 := by omega
  have he := Machine.enforcedHighestSlotid_of_pack hlast hlast
    (show (Machine.new slotCount).slotLimits = _ from rfl)
  have ht := Machine.targetHighestSlotid_of_pack hlast hlast
    (show (Machine.new slotCount).slotLimits = _ from rfl)
  constructor
  · rfl
  · omega
  · omega
  · rw [he, ht]
    rfl
  · exact Nat.le_of_eq (ht.trans he.symm)
  · rw [he]
    omega
  · simp [usableSlots, Machine.new]
  · rfl
  · show false = true ↔ max slotCount.toNat 1 = 0
    simp
  · exact List.nodup_nil
  · simp
  · simp [Machine.new]
  · simp

/-! ### Acquiring -/

theorem scan_slot {locked : Bool} {indices : List ℕ} {i : ℕ}
    (h : m.scan locked indices = .slot i) :
    i ∈ indices ∧ i < m.slotCount ∧ (m.owner i).isSome = false ∧ (m.slots i).usable = true := by
  induction indices generalizing locked with
  | nil =>
    unfold Machine.scan at h
    cases locked <;> cases h
  | cons index rest ih =>
    unfold Machine.scan at h
    split at h
    · cases h
    · split at h
      · obtain ⟨hmem, hi⟩ := ih h
        exact ⟨List.mem_cons_of_mem _ hmem, hi⟩
      · split at h
        · cases h
          refine ⟨List.mem_cons_self, by omega, ?_, by assumption⟩
          simpa using ‹¬ (m.owner i).isSome = true›
        · obtain ⟨hmem, hi⟩ := ih h
          exact ⟨List.mem_cons_of_mem _ hmem, hi⟩

theorem scan_ne_outOfBounds {locked : Bool} {indices : List ℕ}
    (hindices : ∀ i ∈ indices, i < m.slotCount) : m.scan locked indices ≠ .outOfBounds := by
  induction indices generalizing locked with
  | nil =>
    unfold Machine.scan
    cases locked <;> simp
  | cons index rest ih =>
    have hindex := hindices index List.mem_cons_self
    have hrest : ∀ locked, m.scan locked rest ≠ .outOfBounds :=
      fun _ => ih fun i hi => hindices i (List.mem_cons_of_mem _ hi)
    unfold Machine.scan
    rw [if_neg (by omega)]
    split
    · exact hrest _
    · split
      · simp
      · exact hrest _

/-- A usable slot that nobody has locked is found, or one before it. -/
theorem exists_scan_slot {locked : Bool} {indices : List ℕ} {i : ℕ}
    (hindices : ∀ i ∈ indices, i < m.slotCount) (hi : i ∈ indices)
    (hfree : (m.owner i).isSome = false) (husable : (m.slots i).usable = true) :
    ∃ j, m.scan locked indices = .slot j := by
  induction indices generalizing locked with
  | nil => cases hi
  | cons index rest ih =>
    have hindex := hindices index List.mem_cons_self
    unfold Machine.scan
    rw [if_neg (by omega)]
    by_cases hlocked : (m.owner index).isSome = true
    · -- another slot is locked: it is not the free one
      rw [if_pos hlocked]
      have hne : i ≠ index := by
        rintro rfl
        simp [hfree] at hlocked
      exact ih (fun i hi => hindices i (List.mem_cons_of_mem _ hi))
        (List.mem_of_ne_of_mem hne hi)
    · rw [if_neg hlocked]
      by_cases hhere : (m.slots index).usable = true
      · rw [if_pos hhere]
        exact ⟨index, rfl⟩
      · rw [if_neg hhere]
        have hne : i ≠ index := by
          rintro rfl
          exact hhere husable
        exact ih (fun i hi => hindices i (List.mem_cons_of_mem _ hi))
          (List.mem_of_ne_of_mem hne hi)

theorem Sound.scanned (h : Sound slotCount m guards) :
    ∀ i ∈ List.range (m.targetHighestSlotid + 1), i < m.slotCount := by
  intro i hi
  have hmem := List.mem_range.mp hi
  have := h.target_le
  have := h.enforced_lt
  rw [h.count]
  omega

theorem acquire_slot {i : ℕ} (h : m.acquire = .slot i) :
    0 < m.permits ∧ i < m.slotCount ∧ (m.owner i).isSome = false ∧ (m.slots i).usable = true := by
  unfold Machine.acquire at h
  split at h
  · cases h
  · split at h
    · cases h
    · exact ⟨by omega, (scan_slot h).2⟩

theorem Sound.acquire_ne_outOfBounds (h : Sound slotCount m guards) :
    m.acquire ≠ .outOfBounds := by
  unfold Machine.acquire
  split
  · simp
  · split
    · simp
    · exact scan_ne_outOfBounds h.scanned

/-- Some usable slot is not locked while there is a free permit: the guards that lock usable
slots are those that will return a permit, and they are fewer. -/
theorem Sound.exists_free (h : Sound slotCount m guards) (hpermit : 0 < m.permits) :
    ∃ i < slotCount, (m.owner i).isSome = false ∧ (m.slots i).usable = true := by
  by_contra hnone
  have hsub : usableSlots m
      ⊆ ((guards.filter fun g => !g.retirePermit).map SlotGuard.slot).toFinset := by
    intro i hi
    obtain ⟨hlt, husable⟩ := Finset.mem_filter.mp hi
    rw [Finset.mem_range, h.count] at hlt
    have howned : (m.owner i).isSome = true := by
      by_contra hfree
      exact hnone ⟨i, hlt, by simpa using hfree, husable⟩
    obtain ⟨g, hg, rfl⟩ := List.mem_map.mp ((h.owned i).mp howned)
    have hretiring := h.retiring g hg
    rw [husable] at hretiring
    simp only [List.mem_toFinset, List.mem_map, List.mem_filter]
    exact ⟨g, ⟨hg, hretiring.symm⟩, rfl⟩
  have hcard := (Finset.card_le_card hsub).trans (List.toFinset_card_le _)
  rw [List.length_map, ← List.countP_eq_length_filter] at hcard
  have hlive := h.live
  have hpermits := h.permits
  unfold returning at hpermits
  omega

/-- While the whole window is open, a task that has a permit gets a slot. -/
theorem Sound.exists_acquire (h : Sound slotCount m guards) (hpermit : 0 < m.permits)
    (hopen : m.targetHighestSlotid = slotCount - 1) : ∃ i, m.acquire = .slot i := by
  obtain ⟨i, hi, hfree, husable⟩ := h.exists_free hpermit
  have hclosed : ¬ m.closed = true := by
    intro hclosed
    have hdead := h.closed.mp hclosed
    have := h.permits
    omega
  unfold Machine.acquire
  rw [if_neg hclosed, if_neg (by omega)]
  apply exists_scan_slot h.scanned _ hfree husable
  rw [List.mem_range]
  omega

theorem Sound.take (h : Sound slotCount m guards) {i : ℕ} (t : ℕ)
    (hacquire : m.acquire = .slot i) :
    Sound slotCount (m.take t i) (⟨i, false, false⟩ :: guards) := by
  obtain ⟨hpermit, hlt, hfree, husable⟩ := acquire_slot hacquire
  have hnot : i ∉ guards.map SlotGuard.slot := by
    intro hmem
    rw [(h.owned i).mpr hmem] at hfree
    cases hfree
  refine { h with
    permits := ?_, nodup := ?_, bound := ?_, owned := ?_, retiring := ?_ }
  · have hpermits := h.permits
    show m.permits - 1 + returning (_ :: guards) = m.liveSlots
    rw [returning, List.countP_cons_of_pos (by rfl)]
    unfold returning at hpermits
    omega
  · rw [List.map_cons]
    exact List.nodup_cons.mpr ⟨hnot, h.nodup⟩
  · intro g hg
    rcases List.mem_cons.mp hg with rfl | hg
    · exact h.count ▸ hlt
    · exact h.bound g hg
  · intro j
    show (update m.owner i (some t) j).isSome = true ↔ _
    by_cases hj : j = i
    · subst hj
      simp
    · rw [update_of_ne hj, h.owned j]
      simp [hj]
  · intro g hg
    rcases List.mem_cons.mp hg with rfl | hg
    · exact husable
    · exact h.retiring g hg

/-! ### Guards -/

theorem usableSlots_markUnusable (m : Machine) {g : SlotGuard} (hg : g.slot < m.slotCount)
    (husable : (m.slots g.slot).usable = true) :
    g.slot ∈ usableSlots m ∧
      usableSlots (m.markUnusable g).1 = (usableSlots m).erase g.slot := by
  constructor
  · simp [usableSlots, hg, husable]
  · ext i
    simp only [Machine.markUnusable, husable, if_true, usableSlots, Finset.mem_filter,
      Finset.mem_erase, Finset.mem_range]
    by_cases hi : i = g.slot
    · subst hi
      simp
    · rw [update_of_ne hi]
      simp [hi]

/-- A slot that is retired takes a permit out of circulation with its guard. -/
theorem Sound.markUnusable (h : Sound slotCount m (g :: guards)) :
    Sound slotCount (m.markUnusable g).1 ((m.markUnusable g).2 :: guards) := by
  by_cases husable : (m.slots g.slot).usable = true
  · have hbound := h.bound g List.mem_cons_self
    obtain ⟨hmem, hslots⟩ := usableSlots_markUnusable m (h.count ▸ hbound) husable
    have hkeep : g.retirePermit = false := by
      have := h.retiring g List.mem_cons_self
      rw [husable] at this
      simpa using this
    have hlive := h.live
    have hpermits := h.permits
    have hpos := Finset.card_pos.mpr ⟨g.slot, hmem⟩
    have hcount : returning (g :: guards) = returning guards + 1 :=
      List.countP_cons_of_pos (by simp [hkeep])
    have hnodup := List.nodup_cons.mp (List.map_cons ▸ h.nodup)
    have heq : m.markUnusable g = (_, _) := if_pos husable
    rw [heq] at hslots ⊢
    refine { h with
      live := ?_, permits := ?_, closed := ?_, bound := ?_, retiring := ?_ }
    · rw [hslots, Finset.card_erase_of_mem hmem, ← hlive]
    · show m.permits + returning ({ g with retirePermit := true } :: guards) = m.liveSlots - 1
      rw [returning, List.countP_cons_of_neg (by simp)]
      unfold returning at hcount hpermits
      omega
    · -- the last live slot closes the semaphore, and it was open before
      show (m.closed || m.liveSlots == 1) = true ↔ m.liveSlots - 1 = 0
      have hopen : m.closed = false := by
        by_contra hclosed
        have := h.closed.mp (by simpa using hclosed)
        omega
      rw [hopen]
      simp
      omega
    · intro g' hg'
      rcases List.mem_cons.mp hg' with rfl | hg'
      · exact hbound
      · exact h.bound g' (List.mem_cons_of_mem _ hg')
    · intro g' hg'
      rcases List.mem_cons.mp hg' with rfl | hg'
      · simp
      · have hne : g'.slot ≠ g.slot := by
          intro hslot
          exact hnodup.1 (hslot ▸ List.mem_map_of_mem hg')
        show (update m.slots g.slot _ g'.slot).usable = _
        rw [update_of_ne hne]
        exact h.retiring g' (List.mem_cons_of_mem _ hg')
  · have heq : m.markUnusable g = (m, g) := if_neg husable
    rw [heq]
    exact h

/-- A guard gives its lock back, and its permit unless it retires. -/
theorem Sound.release (h : Sound slotCount m (g :: guards)) :
    Sound slotCount (m.release g) guards := by
  have hnodup := List.nodup_cons.mp (List.map_cons ▸ h.nodup)
  refine { h with
    permits := ?_, nodup := hnodup.2, bound := ?_, owned := ?_, retiring := ?_ }
  · have hpermits := h.permits
    show (if g.retirePermit then m.permits else m.permits + 1) + returning guards = m.liveSlots
    unfold returning at hpermits ⊢
    cases hretire : g.retirePermit with
    | true =>
      rw [List.countP_cons_of_neg (by simp [hretire])] at hpermits
      exact hpermits
    | false =>
      rw [List.countP_cons_of_pos (by simp [hretire])] at hpermits
      simp only [Bool.false_eq_true, if_false]
      omega
  · intro g' hg'
    exact h.bound g' (List.mem_cons_of_mem _ hg')
  · intro i
    show (update m.owner g.slot none i).isSome = true ↔ _
    by_cases hi : i = g.slot
    · subst hi
      rw [update_self]
      simpa using hnodup.1
    · rw [update_of_ne hi, h.owned i]
      simp [hi]
  · intro g' hg'
    exact h.retiring g' (List.mem_cons_of_mem _ hg')

theorem Sound.dropGuard (h : Sound slotCount m (g :: guards)) :
    Sound slotCount (m.dropGuard g) guards := by
  unfold Machine.dropGuard
  rw [m.retire_eq]
  cases g.requestOutstanding with
  | true => exact h.markUnusable.release
  | false => exact h.release

/-- Arming or disarming a guard changes nothing the table depends on. -/
theorem Sound.arm (h : Sound slotCount m (g :: guards)) (outstanding : Bool) :
    Sound slotCount m ({ g with requestOutstanding := outstanding } :: guards) := by
  refine { h with bound := ?_, retiring := ?_ }
  · intro g' hg'
    rcases List.mem_cons.mp hg' with rfl | hg'
    · exact h.bound g List.mem_cons_self
    · exact h.bound g' (List.mem_cons_of_mem _ hg')
  · intro g' hg'
    rcases List.mem_cons.mp hg' with rfl | hg'
    · exact h.retiring g List.mem_cons_self
    · exact h.retiring g' (List.mem_cons_of_mem _ hg')

theorem usable_advanceSequence (m : Machine) (slot i : ℕ) :
    ((m.advanceSequence slot).slots i).usable = (m.slots i).usable := by
  show (update m.slots slot _ i).usable = _
  by_cases hi : i = slot
  · subst hi
    rw [update_self]
  · rw [update_of_ne hi]

theorem Sound.advanceSequence (h : Sound slotCount m guards) (slot : ℕ) :
    Sound slotCount (m.advanceSequence slot) guards := by
  have hslots : usableSlots (m.advanceSequence slot) = usableSlots m := by
    simp only [usableSlots, usable_advanceSequence]
    rfl
  refine { h with live := ?_, retiring := ?_ }
  · rw [hslots]
    exact h.live
  · intro g hg
    rw [usable_advanceSequence]
    exact h.retiring g hg

/-! ### Runs -/

variable {s s' : Holders} {k : ℕ}

/-- The guard at a place is one of the guards, and the others are the rest. -/
theorem perm_of_getElem? (h : guards[k]? = some g) :
    guards.Perm (g :: guards.eraseIdx k) ∧
      ∀ g', (g' :: guards.eraseIdx k).Perm (guards.set k g') := by
  obtain ⟨hk, rfl⟩ := List.getElem?_eq_some_iff.mp h
  exact ⟨(List.getElem_cons_eraseIdx_perm hk).symm,
    fun g' => (List.set_perm_cons_eraseIdx hk g').symm⟩

theorem Sound.drop (h : Sound slotCount s.table s.guards) (hg : s.guards[k]? = some g) :
    Sound slotCount (s.drop k g).table (s.drop k g).guards :=
  (h.perm (perm_of_getElem? hg).1).dropGuard

/-- Every operation keeps the table in step with the guards. -/
theorem step_sound {op : Op} (hstep : s.step op = some s')
    (h : Sound slotCount s.table s.guards) : Sound slotCount s'.table s'.guards := by
  cases op with
  | acquire t =>
    simp only [step] at hstep
    split at hstep
    · next index hacquire =>
      cases hstep
      exact h.take t hacquire
    · cases hstep
      exact h
    · cases hstep
      exact h
    · cases hstep
  | acquireForRequest t =>
    simp only [step] at hstep
    split at hstep
    · next index hacquire =>
      have htaken : Sound slotCount (s.take t index).table (s.take t index).guards :=
        h.take t hacquire
      split at hstep
      · cases hstep
        exact htaken.drop rfl
      · cases hstep
        exact htaken
      · cases hstep
        exact htaken
    · cases hstep
      exact h
    · cases hstep
      exact h
    · cases hstep
  | requestHighestSlotid k =>
    obtain ⟨g, hg, hstep⟩ := Option.bind_eq_some_iff.mp hstep
    split at hstep
    · cases hstep
      exact h.drop hg
    · cases hstep
      exact h
    · cases hstep
      exact h
  | updateLimits highest target =>
    cases hstep
    exact h.updateLimits highest target
  | markRequestOutstanding k =>
    obtain ⟨g, hg, hstep⟩ := Option.bind_eq_some_iff.mp hstep
    cases hstep
    obtain ⟨hfront, hset⟩ := perm_of_getElem? hg
    exact ((h.perm hfront).arm true).perm (hset _)
  | disarmRequest k =>
    obtain ⟨g, hg, hstep⟩ := Option.bind_eq_some_iff.mp hstep
    cases hstep
    obtain ⟨hfront, hset⟩ := perm_of_getElem? hg
    exact ((h.perm hfront).arm false).perm (hset _)
  | advanceSequence k =>
    obtain ⟨g, hg, hstep⟩ := Option.bind_eq_some_iff.mp hstep
    cases hstep
    exact h.advanceSequence g.slot
  | markUnusable k =>
    obtain ⟨g, hg, hstep⟩ := Option.bind_eq_some_iff.mp hstep
    cases hstep
    obtain ⟨hfront, hset⟩ := perm_of_getElem? hg
    exact (h.perm hfront).markUnusable.perm (hset _)
  | drop k =>
    obtain ⟨g, hg, hstep⟩ := Option.bind_eq_some_iff.mp hstep
    cases hstep
    exact h.drop hg

theorem Reachable.sound {slotCount : UInt32} (h : Reachable slotCount s) :
    Sound (max slotCount.toNat 1) s.table s.guards :=
  h.invariant (sound_new slotCount) fun _ _ _ hs _ hstep => step_sound hstep hs

/-! ### Retired slots -/

theorem usable_markUnusable {i : ℕ} (h : (m.slots i).usable = false) :
    ((m.markUnusable g).1.slots i).usable = false := by
  unfold Machine.markUnusable
  split
  · show (update m.slots g.slot _ i).usable = false
    by_cases hi : i = g.slot
    · subst hi
      simp
    · rw [update_of_ne hi]
      exact h
  · exact h

theorem usable_dropGuard {i : ℕ} (h : (m.slots i).usable = false) :
    ((m.dropGuard g).slots i).usable = false := by
  show ((m.retire g).1.slots i).usable = false
  rw [m.retire_eq]
  cases g.requestOutstanding with
  | true => exact usable_markUnusable h
  | false => exact h

/-- No operation makes a slot usable again. -/
theorem usable_of_step {op : Op} {i : ℕ} (hstep : s.step op = some s')
    (h : (s.table.slots i).usable = false) : (s'.table.slots i).usable = false := by
  cases op with
  | acquire t =>
    simp only [step] at hstep
    split at hstep
    all_goals cases hstep
    all_goals exact h
  | acquireForRequest t =>
    simp only [step] at hstep
    split at hstep
    · split at hstep
      · cases hstep
        exact usable_dropGuard h
      · cases hstep
        exact h
      · cases hstep
        exact h
    all_goals cases hstep
    all_goals exact h
  | requestHighestSlotid k =>
    obtain ⟨g, -, hstep⟩ := Option.bind_eq_some_iff.mp hstep
    split at hstep
    · cases hstep
      exact usable_dropGuard h
    · cases hstep
      exact h
    · cases hstep
      exact h
  | updateLimits highest target =>
    cases hstep
    exact h
  | markRequestOutstanding k | disarmRequest k =>
    obtain ⟨g, -, hstep⟩ := Option.bind_eq_some_iff.mp hstep
    cases hstep
    exact h
  | advanceSequence k =>
    obtain ⟨g, -, hstep⟩ := Option.bind_eq_some_iff.mp hstep
    cases hstep
    rw [usable_advanceSequence]
    exact h
  | markUnusable k =>
    obtain ⟨g, -, hstep⟩ := Option.bind_eq_some_iff.mp hstep
    cases hstep
    exact usable_markUnusable h
  | drop k =>
    obtain ⟨g, -, hstep⟩ := Option.bind_eq_some_iff.mp hstep
    cases hstep
    exact usable_dropGuard h

/-- A retired slot is never acquired again. -/
theorem acquire_ne_of_retired {i : ℕ} (hs : Transition.Reaches step Transition.anyStep s s')
    (h : (s.table.slots i).usable = false) : s'.table.acquire ≠ .slot i := by
  have hretired : (s'.table.slots i).usable = false :=
    hs.invariant h fun _ _ _ hi _ hstep => usable_of_step hstep hi
  intro hacquire
  obtain ⟨-, -, -, husable⟩ := acquire_slot hacquire
  rw [hretired] at husable
  cases husable

/-- **The table stays in step with its guards.**  In every state that operations of any number
of tasks reach, the limits are ordered, within the table and packed exactly, the scan stays
within the table, the live slots are the usable ones, the permits account for them, the
semaphore is closed when there are none, no slot has two guards, a retired slot is not acquired
again, and while the whole window is open a task with a permit gets a slot. -/
theorem slot_table_sound (slotCount : UInt32) (hcount : 1 ≤ slotCount) {s : Holders}
    (hs : Reachable slotCount s) :
    (s.table.targetHighestSlotid ≤ s.table.enforcedHighestSlotid ∧
      s.table.enforcedHighestSlotid ≤ slotCount.toNat - 1) ∧
    (s.table.slotLimits
        = packSlotLimits s.table.enforcedHighestSlotid s.table.targetHighestSlotid ∧
      ∀ highest target : UInt32,
        (s.table.updateLimits highest target).enforcedHighestSlotid
          = min highest.toNat (slotCount.toNat - 1) ∧
        (s.table.updateLimits highest target).targetHighestSlotid
          = min (min target.toNat (min highest.toNat (slotCount.toNat - 1)))
            (slotCount.toNat - 1)) ∧
    (s.table.slotCount = slotCount.toNat ∧ s.table.acquire ≠ .outOfBounds ∧
      ∀ g ∈ s.guards, g.slot < slotCount.toNat) ∧
    s.table.liveSlots = (usableSlots s.table).card ∧
    s.table.permits + returning s.guards = s.table.liveSlots ∧
    (s.table.closed = true ↔ s.table.liveSlots = 0) ∧
    (s.guards.map SlotGuard.slot).Nodup ∧
    (∀ i s', (s.table.slots i).usable = false →
      Transition.Reaches step Transition.anyStep s s' → s'.table.acquire ≠ .slot i) ∧
    (s.table.targetHighestSlotid = slotCount.toNat - 1 → 0 < s.table.permits →
      ∃ i, s.table.acquire = .slot i ∧ (s.table.owner i).isSome = false ∧
        (s.table.slots i).usable = true) := by
  have hpos : 1 ≤ slotCount.toNat := UInt32.le_iff_toNat_le.mp hcount
  have hmax : max slotCount.toNat 1 = slotCount.toNat := by omega
  have h := hmax ▸ hs.sound
  refine ⟨⟨h.target_le, ?_⟩, ⟨h.limits, slotLimits_updateLimits h⟩,
    ⟨h.count, h.acquire_ne_outOfBounds, h.bound⟩, h.live, h.permits, h.closed, h.nodup, ?_, ?_⟩
  · have := h.enforced_lt
    omega
  · intro i s' hretired hreach
    exact acquire_ne_of_retired hreach hretired
  · intro hopen hpermit
    obtain ⟨i, hi⟩ := h.exists_acquire hpermit hopen
    obtain ⟨-, -, hfree, husable⟩ := acquire_slot hi
    exact ⟨i, hi, hfree, husable⟩

/-- A slot of three is retired with its request outstanding, and another is held. -/
theorem slot_table_sound_one_retired :
    ∃ s, Transition.run step (new 3)
        [.acquire 0, .acquire 1, .markRequestOutstanding 1, .drop 1] = some s ∧
      s.table.permits = 1 ∧ s.table.liveSlots = 2 ∧ ∃ i, s.table.acquire = .slot i := by
  refine ⟨_, rfl, rfl, rfl, ?_⟩
  obtain ⟨i, hi, -⟩ := (slot_table_sound 3 (by decide) (Transition.reaches_of_run
    [.acquire 0, .acquire 1, .markRequestOutstanding 1, .drop 1] rfl)).2.2.2.2.2.2.2.2
      (by decide) (by decide)
  exact ⟨i, hi⟩

end Holders

end NfsCrust.Slots
