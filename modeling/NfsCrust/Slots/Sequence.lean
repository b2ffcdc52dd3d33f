import NfsCrust.Slots.Life

/-!
# Sequence ids on a slot

Every step of the slot machine is a step of the protocol of
`NfsCrust.Slots.Life`, or changes nothing the protocol speaks of.  So the
invariant of the protocol holds in every state a session can reach, whatever its
calls do and whatever becomes of them.

## Main results

* `Machine.step_life` — the machine follows the protocol.
* `Machine.requests_in_order` — a slot never has two requests without a validated
  reply, its requests carry consecutive sequence ids, and a request without a
  validated reply is the last of its slot.
-/

namespace NfsCrust.Slots

open Function (update comp_update update_eq_self)

/-- What a task at this point has to do with a slot. -/
def Pc.status : Pc → Status
  | .idle | .acquiring | .enabling | .ranging | .scanning .. | .scanned _ | .parked => .away
  | .inspecting index _ _ | .rejecting index _ _ => .looking index
  | .activating index => .selected index
  | .holding slot | .checking slot | .parkedHolding slot | .ready slot _ => .holding slot
  | .armed slot _ => .armed slot
  | .awaiting slot id => .awaiting slot id
  | .settling slot _ | .announcing slot => .settled slot
  | .dropping g .retire _ =>
      if g.requestOutstanding then .abandoning g.slot else .releasing g.slot
  | .dropping g .unlock _ => .releasing g.slot
  | .dropping g .clear _ => .clearing g.slot
  | .dropping _ .notify _ | .dropping _ .release _ => .away

namespace Machine

variable {sessionid : Vector UInt8 16} {may : ℕ → Prop} {m m' : Machine} {t : ℕ} {pc : Pc}

/-- The machine as the protocol sees it. -/
def life (m : Machine) : Life :=
  { slots := m.slots
    owner := m.owner
    active := m.active
    status := Pc.status ∘ m.pc
    queue := m.queue
    wire := m.wire
    validated := m.validated }

theorem life_goto (m : Machine) (t : ℕ) (pc : Pc) :
    (m.goto t pc).life = { m.life with status := update m.life.status t pc.status } := by
  simp only [life, goto, comp_update]

theorem status_eq {A : Pc} (h : m.pc t = A) : m.life.status t = A.status := by
  rw [← h]
  rfl

/-- A task that stays in the same relation to the slots. -/
theorem life_goto_same {n : Machine} {A : Pc} (hpc : m.pc t = A) (hn : n.life = m.life)
    (hA : pc.status = A.status) : (n.goto t pc).life = m.life := by
  rw [life_goto, hA, ← status_eq hpc, hn, update_eq_self]

theorem retire_life {g : SlotGuard} {again : Bool} (hpc : m.pc t = .dropping g .retire again) :
    ((m.retire g).1.goto t (.dropping (m.retire g).2 .unlock again)).life = m.life ∨
      Life.Step may m.life ((m.retire g).1.goto t (.dropping (m.retire g).2 .unlock again)).life := by
  have hst := status_eq hpc
  rw [Pc.status] at hst
  rw [retire]
  split
  · next hout =>
    rw [if_pos hout.1] at hst
    rw [life_goto]
    exact Or.inr (.retire hst)
  · next hout =>
    cases hflag : g.requestOutstanding with
    | false => exact Or.inl (life_goto_same hpc rfl (by simp [Pc.status, hflag]))
    | true =>
      -- the slot was retired before; to retire it again changes nothing
      rw [if_pos hflag] at hst
      have hused : { m.slots g.slot with usable := false } = m.slots g.slot := by
        have : (m.slots g.slot).usable = false := by simpa [hflag] using hout
        rw [← this]
      rw [life_goto]
      have hstep : Life.Step may m.life _ := .retire hst
      rw [show m.life.slots = m.slots from rfl, hused, update_eq_self] at hstep
      exact Or.inr hstep

/-- A step of a task is a step of the protocol. -/
theorem taskStep_life {act : Act} (h : m.taskStep sessionid t (m.pc t) act = some m')
    (hmay : ∀ s, m.pc t = .activating s → may s) :
    m'.life = m.life ∨ Life.Step may m.life m'.life := by
  cases hpc : m.pc t with
  | idle | enabling | ranging =>
    cases act <;> simp only [hpc, taskStep, reduceCtorEq, Option.some.injEq] at h
    subst h
    exact Or.inl (life_goto_same hpc rfl rfl)
  | acquiring =>
    cases act <;> simp only [hpc, taskStep, reduceCtorEq, Option.some.injEq] at h
    · split at h
      · cases h
        exact Or.inl (life_goto_same hpc rfl rfl)
      · split at h
        · cases h
          exact Or.inl (life_goto_same hpc rfl rfl)
        · cases h
    · subst h
      exact Or.inl (life_goto_same hpc rfl rfl)
  | scanning index last locked =>
    cases act <;> simp only [hpc, taskStep, reduceCtorEq] at h
    split at h
    · cases h
      exact Or.inl (life_goto_same hpc rfl rfl)
    · split at h
      · next hfree =>
        cases h
        rw [life_goto]
        exact Or.inr (.look (status_eq hpc) (Option.isNone_iff_eq_none.mp hfree))
      · cases h
        exact Or.inl (life_goto_same hpc rfl rfl)
  | inspecting index last locked =>
    cases act <;> simp only [hpc, taskStep, reduceCtorEq] at h
    split at h
    · next husable =>
      cases h
      rw [life_goto]
      exact Or.inr (.select (status_eq hpc) husable)
    · cases h
      exact Or.inl (life_goto_same hpc rfl rfl)
  | rejecting index last locked =>
    cases act <;> simp only [hpc, taskStep, reduceCtorEq, Option.some.injEq] at h
    subst h
    rw [life_goto]
    exact Or.inr (.pass (status_eq hpc))
  | activating index =>
    cases act <;> simp only [hpc, taskStep, reduceCtorEq, Option.some.injEq] at h
    subst h
    rw [life_goto]
    exact Or.inr (.activate (status_eq hpc) (hmay index hpc))
  | scanned locked =>
    cases act <;> simp only [hpc, taskStep, reduceCtorEq, Option.some.injEq] at h
    subst h
    exact Or.inl (life_goto_same hpc rfl (by cases locked <;> rfl))
  | parked =>
    cases act <;> simp only [hpc, taskStep, reduceCtorEq, Option.some.injEq] at h
    · split at h
      · cases h
        exact Or.inl (life_goto_same hpc rfl rfl)
      · cases h
    · subst h
      exact Or.inl (life_goto_same hpc rfl rfl)
  | holding slot =>
    cases act <;> simp only [hpc, taskStep, reduceCtorEq, Option.some.injEq] at h
    subst h
    exact Or.inl (life_goto_same hpc rfl rfl)
  | checking slot =>
    cases act <;> simp only [hpc, taskStep, reduceCtorEq, Option.some.injEq] at h
    subst h
    cases m.requestHighestSlotid slot with
    | none =>
      rw [life_goto]
      exact Or.inr (.leave (Or.inl (status_eq hpc)))
    | some highest => exact Or.inl (life_goto_same hpc rfl rfl)
    | wait => exact Or.inl (life_goto_same hpc rfl rfl)
  | parkedHolding slot =>
    cases act <;> simp only [hpc, taskStep, reduceCtorEq, Option.some.injEq] at h
    · split at h
      · cases h
        exact Or.inl (life_goto_same hpc rfl rfl)
      · cases h
    · subst h
      rw [life_goto]
      exact Or.inr (.leave (Or.inl (status_eq hpc)))
  | ready slot highest =>
    cases act <;> simp only [hpc, taskStep, reduceCtorEq, Option.some.injEq] at h
    · subst h
      rw [life_goto]
      exact Or.inr (.arm (status_eq hpc))
    · subst h
      rw [life_goto]
      exact Or.inr (.leave (Or.inl (status_eq hpc)))
  | armed slot highest =>
    cases act <;> simp only [hpc, taskStep, reduceCtorEq, Option.some.injEq] at h
    · subst h
      rw [life_goto]
      exact Or.inr (.hand (status_eq hpc) highest)
    · subst h
      rw [life_goto]
      exact Or.inr (.abandon (Or.inl (status_eq hpc)))
    · subst h
      rw [life_goto]
      exact Or.inr (.leave (Or.inr (status_eq hpc)))
  | awaiting slot id =>
    cases act <;> simp only [hpc, taskStep, reduceCtorEq, Option.some.injEq] at h
    · subst h
      rw [life_goto]
      exact Or.inr (.abandon (Or.inr ⟨id, status_eq hpc⟩))
    · split at h
      · cases h
        rw [life_goto]
        exact Or.inr (.validate (status_eq hpc))
      · cases h
        rw [life_goto]
        exact Or.inr (.abandon (Or.inr ⟨id, status_eq hpc⟩))
  | settling slot result =>
    cases act <;> simp only [hpc, taskStep, reduceCtorEq, Option.some.injEq] at h
    subst h
    exact Or.inl (life_goto_same hpc rfl rfl)
  | announcing slot =>
    cases act <;> simp only [hpc, taskStep, reduceCtorEq, Option.some.injEq] at h
    subst h
    rw [life_goto]
    exact Or.inr (.advance (status_eq hpc))
  | dropping g stage again =>
    cases act <;> cases stage <;>
      simp only [hpc, taskStep, reduceCtorEq, Option.some.injEq] at h
    case advance.retire =>
      subst h
      exact retire_life hpc
    case advance.unlock =>
      subst h
      rw [life_goto]
      exact Or.inr (.unlock (status_eq hpc))
    case advance.clear =>
      subst h
      rw [life_goto]
      exact Or.inr (.clear (status_eq hpc))
    case advance.notify =>
      subst h
      exact Or.inl (life_goto_same hpc rfl rfl)
    case advance.release =>
      subst h
      exact Or.inl (life_goto_same hpc rfl (by cases again <;> rfl))

/-- The machine follows the protocol. -/
theorem step_life {action : Action} (h : m.step sessionid action = some m')
    (hmay : ∀ t act s, action = .task t act → m.pc t = .activating s → may s) :
    m'.life = m.life ∨ Life.Step may m.life m'.life := by
  cases action with
  | task t act => exact taskStep_life h fun s => hmay t act s rfl
  | write =>
    simp only [step, write] at h
    split at h
    · cases h
    · next request queue hq =>
      cases h
      exact Or.inr (.write hq)

/-- The machine follows the protocol, with nothing known about the flags. -/
theorem step_life_any {action : Action} (h : m.step sessionid action = some m') :
    m'.life = m.life ∨ Life.Step (fun _ => True) m.life m'.life :=
  step_life h fun _ _ _ _ _ => trivial

theorem life_ok_new (slotCount : UInt32) : (new slotCount).life.Ok where
  owned t s := by simp [life, new, Pc.status, Status.slot?]
  numbered s := rfl
  followed s r hr := by simp [Life.onSlot, life, new] at hr
  fits s := fun _ => ⟨by simp [Life.onSlot, life, new], rfl⟩

theorem life_ok_step {action : Action} (h : m.step sessionid action = some m')
    (hm : m.life.Ok) : m'.life.Ok := by
  rcases step_life_any h with heq | hstep
  · rwa [heq]
  · exact hstep.ok hm

theorem Reachable.life_ok {slotCount : UInt32} (h : Reachable sessionid slotCount m) :
    m.life.Ok :=
  h.invariant (life_ok_new slotCount) fun _ _ _ hm _ hstep => life_ok_step hstep hm

/-! ### Requests on a slot -/

/-- The requests handed to the transport for a slot, oldest first. -/
def onSlot (m : Machine) (s : ℕ) : List Request := (m.wire ++ m.queue).filter (·.slot == s)

/-- The requests on the wire for a slot, oldest first. -/
def wireOn (m : Machine) (s : ℕ) : List Request := m.wire.filter (·.slot == s)

/-- The requests of a slot for which no matching `SEQUENCE` result was decoded. -/
def unvalidatedOn (m : Machine) (s : ℕ) : List Request :=
  (m.onSlot s).filter fun r => !m.validated r.id

/-- Task `t` is in possession of slot `s`. -/
def Holds (m : Machine) (t s : ℕ) : Prop := (m.pc t).status.slot? = some s

theorem filter_unvalidated_length_le {validated : ℕ → Bool} {requests : List Request}
    (h : ∀ r ∈ requests.dropLast, validated r.id = true) :
    (requests.filter fun r => !validated r.id).length ≤ 1 := by
  rcases List.eq_nil_or_concat requests with rfl | ⟨before, r, rfl⟩
  · exact Nat.zero_le 1
  · rw [List.concat_eq_append, List.dropLast_concat] at h
    have hbefore : (before.filter fun r => !validated r.id) = [] := by
      rw [List.filter_eq_nil_iff]
      intro r hr
      simp [h r hr]
    rw [List.concat_eq_append, List.filter_append, hbefore, List.nil_append]
    exact List.length_filter_le _ [r]

theorem sequenceids_take (k n : ℕ) (h : k ≤ n) :
    (Life.sequenceids n).take k = Life.sequenceids k := by
  rw [Life.sequenceids, ← List.map_take, List.take_range, Nat.min_eq_left h]
  rfl

/-- The wire has the first of the requests that were handed over. -/
theorem wireOn_eq_take (m : Machine) (s : ℕ) :
    m.wireOn s = (m.onSlot s).take (m.wireOn s).length := by
  rw [onSlot, List.filter_append, ← wireOn, List.take_left]

/-- Each request has an id of its own: ids count the requests handed over. -/
theorem Reachable.map_id {slotCount : UInt32} (h : Reachable sessionid slotCount m) :
    (m.wire ++ m.queue).map (·.id) = List.range (m.wire ++ m.queue).length := by
  refine h.invariant (I := fun m =>
    (m.wire ++ m.queue).map (·.id) = List.range (m.wire ++ m.queue).length) rfl ?_
  intro m action m' hm _ hstep
  rcases step_life_any hstep with heq | hlife
  · have hq : m'.queue = m.queue := congrArg Life.queue heq
    have hw : m'.wire = m.wire := congrArg Life.wire heq
    rw [hq, hw]
    exact hm
  · exact hlife.map_id hm

/-- **Requests on a slot.**  In every state of every run: at most one request of a
slot has no validated reply, one task at most is in possession of the slot, and
none has a request armed on it while another is unvalidated; the requests on the
wire carry the sequence ids 1, 2, 3, …; and a request that was followed by
another has a validated reply. -/
theorem requests_in_order (sessionid : Vector UInt8 16) (slotCount : UInt32) (m : Machine)
    (h : Reachable sessionid slotCount m) (s : ℕ) :
    ((m.unvalidatedOn s).length ≤ 1 ∧
      (∀ t t', m.Holds t s → m.Holds t' s → t = t') ∧
      ∀ t highest, m.pc t = .armed s highest → m.unvalidatedOn s = []) ∧
    (m.wireOn s).map (·.sequenceid) = Life.sequenceids (m.wireOn s).length ∧
    ∀ before r after, m.onSlot s = before ++ r :: after → after ≠ [] →
      m.validated r.id = true := by
  have hok := h.life_ok
  have hfollowed : ∀ r ∈ (m.onSlot s).dropLast, m.validated r.id = true := hok.followed s
  refine ⟨⟨filter_unvalidated_length_le hfollowed, ?_, ?_⟩, ?_, ?_⟩
  · intro t t' ht ht'
    have howner := (hok.owned t s).mpr ht
    rw [(hok.owned t' s).mpr ht'] at howner
    exact (Option.some.inj howner).symm
  · intro t highest hpc
    have hall : ∀ r ∈ m.onSlot s, m.validated r.id = true :=
      (hok.fits_of_status (status_eq hpc) rfl).2.1
    rw [unvalidatedOn, List.filter_eq_nil_iff]
    intro r hr
    simp [hall r hr]
  · have hnumbered : (m.onSlot s).map (·.sequenceid) = Life.sequenceids (m.onSlot s).length :=
      hok.numbered s
    have hle : (m.wireOn s).length ≤ (m.onSlot s).length := by
      rw [onSlot, List.filter_append, List.length_append]
      exact Nat.le_add_right ..
    rw [wireOn_eq_take, List.map_take, hnumbered, sequenceids_take _ _ hle, List.length_take,
      Nat.min_eq_left hle]
  · intro before r after hsplit hafter
    refine hfollowed r ?_
    rw [hsplit, List.dropLast_append_of_ne_nil (List.cons_ne_nil r after),
      List.dropLast_cons_of_ne_nil hafter]
    exact List.mem_append_right _ List.mem_cons_self

/-- One call on the only slot of a session, up to its request on the wire. -/
theorem requests_in_order_one_call :
    ∃ m, Transition.run (step (Vector.replicate 16 0)) (new 1)
        (.task 0 .start :: List.replicate 10 (.task 0 .advance) ++ [.write]) = some m ∧
      (m.wireOn 0).length = 1 ∧
      (m.wireOn 0).map (·.sequenceid) = Life.sequenceids (m.wireOn 0).length :=
  ⟨_, rfl, rfl, (requests_in_order (Vector.replicate 16 0) 1 _ (Transition.reaches_of_run
    (.task 0 .start :: List.replicate 10 (.task 0 .advance) ++ [.write]) rfl) 0).2.1⟩

end Machine

end NfsCrust.Slots
