import NfsCrust.Reply
import NfsCrust.Slots.Sequence

/-!
# Active slots

`request_highest_slotid` tells the server the highest slot in use.  It reads the
`active` flags, so a slot must be flagged for as long as a task has a guard on
it.  The drop of a guard unlocks the slot before it clears the flag: a task that
takes the slot in between sets the flag, and the late clear removes it again.

So the flags can be trusted only in runs in which each drop clears its flag before
the next task sets it (`ClearedFirst`).

## Main results

* `Machine.active_of_clearedFirst` — in such runs every slot with a guard is
  flagged, and the highest slot told to the server covers every slot in use and
  stays within the server's limit.
* `Machine.active_lost` — a run in which a slot with a request in flight is not
  flagged, and a lower slot is told to the server as the highest.
-/

namespace NfsCrust.Slots

open Function (update update_self update_of_ne)

/-! ### The limits -/

theorem toNat_packSlotLimits {enforced target : ℕ} (he : enforced < 2 ^ 32)
    (ht : target < 2 ^ 32) :
    (packSlotLimits enforced target).toNat = 2 ^ 32 * enforced + target := by
  have hshift : enforced <<< 32 < 2 ^ 64 := by
    rw [Nat.shiftLeft_eq]
    omega
  have he64 : enforced < 2 ^ 64 := by omega
  have ht64 : target < 2 ^ 64 := by omega
  rw [packSlotLimits, UInt64.toNat_or, UInt64.toNat_shiftLeft, UInt64.toNat_ofNat_of_lt' he64,
    UInt64.toNat_ofNat_of_lt' ht64]
  change enforced <<< 32 % 2 ^ 64 ||| target = _
  rw [Nat.mod_eq_of_lt hshift, Nat.shiftLeft_eq, Nat.mul_comm, ← Nat.two_pow_add_eq_or_of_lt ht]

namespace Machine

variable {sessionid : Vector UInt8 16} {m m' : Machine} {t : ℕ} {pc : Pc}

theorem enforcedHighestSlotid_of_pack {enforced target : ℕ} (he : enforced < 2 ^ 32)
    (ht : target < 2 ^ 32) (h : m.slotLimits = packSlotLimits enforced target) :
    m.enforcedHighestSlotid = enforced := by
  rw [enforcedHighestSlotid, h, UInt64.toNat_shiftRight, toNat_packSlotLimits he ht]
  change (2 ^ 32 * enforced + target) >>> 32 = enforced
  rw [Nat.shiftRight_eq_div_pow]
  omega

theorem targetHighestSlotid_of_pack {enforced target : ℕ} (he : enforced < 2 ^ 32)
    (ht : target < 2 ^ 32) (h : m.slotLimits = packSlotLimits enforced target) :
    m.targetHighestSlotid = target := by
  rw [targetHighestSlotid, h, UInt64.toNat_toUInt32, toNat_packSlotLimits he ht]
  omega

end Machine

/-- The slots a task at this point knows of are slots of the table. -/
def Pc.Within (slotCount : ℕ) : Pc → Prop
  | .idle | .acquiring | .enabling | .ranging | .scanned _ | .parked => True
  | .scanning _ last _ => last < slotCount
  | .inspecting index last _ | .rejecting index last _ => index < slotCount ∧ last < slotCount
  | .activating slot | .holding slot | .checking slot | .parkedHolding slot | .ready slot _
  | .armed slot _ | .awaiting slot _ | .settling slot _ | .announcing slot => slot < slotCount
  | .dropping g _ _ => g.slot < slotCount

namespace Machine

variable {sessionid : Vector UInt8 16} {m m' : Machine} {t : ℕ} {pc : Pc}

/-- The limits and the tasks stay within the table. -/
structure Within (m : Machine) : Prop where
  count : m.slotCount < 2 ^ 32
  target_le : m.targetHighestSlotid ≤ m.enforcedHighestSlotid
  enforced_lt : m.enforcedHighestSlotid < m.slotCount
  points : ∀ t, (m.pc t).Within m.slotCount

theorem within_new (slotCount : UInt32) : (new slotCount).Within := by
  have hcount := slotCount.toNat_lt
  have hmax : max slotCount.toNat 1 - 1 < 2 ^ 32 := by omega
  have he := enforcedHighestSlotid_of_pack hmax hmax (show (new slotCount).slotLimits = _ from rfl)
  have ht := targetHighestSlotid_of_pack hmax hmax (show (new slotCount).slotLimits = _ from rfl)
  refine ⟨?_, ?_, ?_, fun _ => trivial⟩
  · change max slotCount.toNat 1 < 2 ^ 32
    omega
  · exact Nat.le_of_eq (ht.trans he.symm)
  · rw [he]
    change max slotCount.toNat 1 - 1 < max slotCount.toNat 1
    omega

/-- `update_limits` clamps what the server sends. -/
theorem Within.settle {highest target : UInt32} (hm : m.Within) :
    Within { m with slotLimits := m.updatedLimits highest target } := by
  have hcount := hm.count
  have hpos := hm.enforced_lt
  have hbound : min highest.toNat (m.slotCount - 1) < 2 ^ 32 := by omega
  have hbound' :
      min (min target.toNat (min highest.toNat (m.slotCount - 1))) (m.slotCount - 1) < 2 ^ 32 := by
    omega
  have he := enforcedHighestSlotid_of_pack hbound hbound'
    (show Machine.slotLimits { m with slotLimits := m.updatedLimits highest target } = _ from rfl)
  have ht := targetHighestSlotid_of_pack hbound hbound'
    (show Machine.slotLimits { m with slotLimits := m.updatedLimits highest target } = _ from rfl)
  refine ⟨hcount, ?_, ?_, hm.points⟩
  · rw [he, ht]
    omega
  · rw [he]
    change min highest.toNat (m.slotCount - 1) < m.slotCount
    omega

theorem Within.retire {g : SlotGuard} (hm : m.Within) :
    (m.retire g).1.Within ∧ (m.retire g).2.slot = g.slot := by
  rw [Machine.retire]
  split
  · exact ⟨⟨hm.count, hm.target_le, hm.enforced_lt, hm.points⟩, rfl⟩
  · exact ⟨hm, rfl⟩

/-- Fields of the machine that `Within` does not read may change. -/
theorem Within.of_eq (hm : m.Within) (hcount : m'.slotCount = m.slotCount)
    (hlimits : m'.slotLimits = m.slotLimits) (hpc : m'.pc = m.pc) : m'.Within := by
  refine ⟨hcount ▸ hm.count, ?_, ?_, fun t => ?_⟩
  · rw [targetHighestSlotid, enforcedHighestSlotid, hlimits]
    exact hm.target_le
  · rw [enforcedHighestSlotid, hlimits, hcount]
    exact hm.enforced_lt
  · rw [hpc, hcount]
    exact hm.points t

theorem Within.goto (hm : m.Within) (hcount : m'.slotCount = m.slotCount)
    (hlimits : m'.slotLimits = m.slotLimits) (hpcs : m'.pc = m.pc)
    (hpc : pc.Within m.slotCount) : (m'.goto t pc).Within := by
  have hm' := hm.of_eq hcount hlimits hpcs
  refine ⟨hm'.count, hm'.target_le, hm'.enforced_lt, fun u => ?_⟩
  by_cases hu : u = t
  · subst hu
    rw [goto_pc_self]
    exact hcount ▸ hpc
  · rw [goto_pc_of_ne m' pc hu]
    exact hm'.points u

theorem taskStep_within {act : Act} (h : m.taskStep sessionid t (m.pc t) act = some m')
    (hm : m.Within) : m'.Within := by
  have hpoint := hm.points t
  cases hpc : m.pc t with
  | idle =>
    cases act <;> simp only [hpc, taskStep, reduceCtorEq, Option.some.injEq] at h
    subst h
    exact hm.goto rfl rfl rfl trivial
  | acquiring =>
    cases act <;> simp only [hpc, taskStep, reduceCtorEq, Option.some.injEq] at h
    · split at h
      · cases h
        exact hm.goto rfl rfl rfl trivial
      · split at h
        · cases h
          exact hm.goto rfl rfl rfl trivial
        · cases h
    · subst h
      exact hm.goto rfl rfl rfl trivial
  | enabling =>
    cases act <;> simp only [hpc, taskStep, reduceCtorEq, Option.some.injEq] at h
    subst h
    exact hm.goto rfl rfl rfl trivial
  | ranging =>
    cases act <;> simp only [hpc, taskStep, reduceCtorEq, Option.some.injEq] at h
    subst h
    exact hm.goto rfl rfl rfl (Nat.lt_of_le_of_lt hm.target_le hm.enforced_lt)
  | scanning index last locked =>
    rw [hpc] at hpoint
    cases act <;> simp only [hpc, taskStep, reduceCtorEq] at h
    split at h
    · cases h
      exact hm.goto rfl rfl rfl trivial
    · next hle =>
      have hindex : index < m.slotCount := Nat.lt_of_le_of_lt (Nat.not_lt.mp hle) hpoint
      split at h
      · cases h
        exact hm.goto rfl rfl rfl ⟨hindex, hpoint⟩
      · cases h
        exact hm.goto rfl rfl rfl hpoint
  | inspecting index last locked =>
    rw [hpc] at hpoint
    cases act <;> simp only [hpc, taskStep, reduceCtorEq] at h
    split at h
    · cases h
      exact hm.goto rfl rfl rfl hpoint.1
    · cases h
      exact hm.goto rfl rfl rfl hpoint
  | rejecting index last locked =>
    rw [hpc] at hpoint
    cases act <;> simp only [hpc, taskStep, reduceCtorEq, Option.some.injEq] at h
    subst h
    exact hm.goto rfl rfl rfl hpoint.2
  | activating index =>
    rw [hpc] at hpoint
    cases act <;> simp only [hpc, taskStep, reduceCtorEq, Option.some.injEq] at h
    subst h
    exact hm.goto rfl rfl rfl hpoint
  | scanned locked =>
    cases act <;> simp only [hpc, taskStep, reduceCtorEq, Option.some.injEq] at h
    subst h
    refine hm.goto rfl rfl rfl ?_
    cases locked <;> trivial
  | parked =>
    cases act <;> simp only [hpc, taskStep, reduceCtorEq, Option.some.injEq] at h
    · split at h
      · cases h
        exact hm.goto rfl rfl rfl trivial
      · cases h
    · subst h
      exact hm.goto rfl rfl rfl trivial
  | holding slot =>
    rw [hpc] at hpoint
    cases act <;> simp only [hpc, taskStep, reduceCtorEq, Option.some.injEq] at h
    subst h
    exact hm.goto rfl rfl rfl hpoint
  | checking slot =>
    rw [hpc] at hpoint
    cases act <;> simp only [hpc, taskStep, reduceCtorEq, Option.some.injEq] at h
    subst h
    refine hm.goto rfl rfl rfl ?_
    cases m.requestHighestSlotid slot <;> exact hpoint
  | parkedHolding slot =>
    rw [hpc] at hpoint
    cases act <;> simp only [hpc, taskStep, reduceCtorEq, Option.some.injEq] at h
    · split at h
      · cases h
        exact hm.goto rfl rfl rfl hpoint
      · cases h
    · subst h
      exact hm.goto rfl rfl rfl hpoint
  | ready slot highest =>
    rw [hpc] at hpoint
    cases act <;> simp only [hpc, taskStep, reduceCtorEq, Option.some.injEq] at h <;> subst h <;>
      exact hm.goto rfl rfl rfl hpoint
  | armed slot highest =>
    rw [hpc] at hpoint
    cases act <;> simp only [hpc, taskStep, reduceCtorEq, Option.some.injEq] at h <;> subst h <;>
      exact hm.goto rfl rfl rfl hpoint
  | awaiting slot id =>
    rw [hpc] at hpoint
    cases act <;> simp only [hpc, taskStep, reduceCtorEq, Option.some.injEq] at h
    · subst h
      exact hm.goto rfl rfl rfl hpoint
    · split at h
      · cases h
        exact hm.goto rfl rfl rfl hpoint
      · cases h
        exact hm.goto rfl rfl rfl hpoint
  | settling slot result =>
    rw [hpc] at hpoint
    cases act <;> simp only [hpc, taskStep, reduceCtorEq, Option.some.injEq] at h
    subst h
    exact hm.settle.goto rfl rfl rfl hpoint
  | announcing slot =>
    rw [hpc] at hpoint
    cases act <;> simp only [hpc, taskStep, reduceCtorEq, Option.some.injEq] at h
    subst h
    exact hm.goto rfl rfl rfl hpoint
  | dropping g stage again =>
    rw [hpc] at hpoint
    cases act <;> cases stage <;>
      simp only [hpc, taskStep, reduceCtorEq, Option.some.injEq] at h
    case advance.retire =>
      subst h
      obtain ⟨hretire, hslot⟩ := hm.retire (g := g)
      have hcount : (m.retire g).1.slotCount = m.slotCount := by
        rw [Machine.retire]
        split <;> rfl
      refine hretire.goto rfl rfl rfl ?_
      change (m.retire g).2.slot < (m.retire g).1.slotCount
      rw [hslot, hcount]
      exact hpoint
    case advance.unlock | advance.clear | advance.notify =>
      subst h
      exact hm.goto rfl rfl rfl hpoint
    case advance.release =>
      subst h
      refine hm.goto rfl rfl rfl ?_
      cases again <;> trivial

theorem step_within {action : Action} (h : m.step sessionid action = some m') (hm : m.Within) :
    m'.Within := by
  cases action with
  | task t act => exact taskStep_within h hm
  | write =>
    simp only [step, write] at h
    split at h
    · cases h
    · cases h
      exact hm.of_eq rfl rfl rfl

/-! ### The highest slot in use -/

/-- The search from the end finds the last index that meets `p`. -/
theorem le_of_find?_reverse_range {p : ℕ → Bool} {n s : ℕ} (hs : s < n) (hp : p s = true) :
    s ≤ ((List.range n).reverse.find? p).getD 0 := by
  induction n with
  | zero => cases hs
  | succ n ih =>
    rw [List.range_succ, List.reverse_append, List.reverse_singleton, List.singleton_append,
      List.find?_cons]
    cases hn : p n with
    | true => exact Nat.lt_succ_iff.mp hs
    | false =>
      have hne : s ≠ n := by
        rintro rfl
        rw [hp] at hn
        cases hn
      exact ih (Nat.lt_of_le_of_ne (Nat.lt_succ_iff.mp hs) hne)

theorem le_activeHighestSlotid {s : ℕ} (hs : s < m.slotCount) (ha : m.active s = true) :
    s ≤ m.activeHighestSlotid := le_of_find?_reverse_range hs ha

/-- Task `t` is past `acquire` and has a guard on slot `s`. -/
def Guards (m : Machine) (t s : ℕ) : Prop := (m.pc t).status.guarded? = some s

theorem Within.lt_of_guards (hm : m.Within) {s : ℕ} (h : m.Guards t s) : s < m.slotCount := by
  have hpoint := hm.points t
  rw [Guards] at h
  cases hpc : m.pc t with
  | holding slot | checking slot | parkedHolding slot | ready slot _ | armed slot _
  | awaiting slot _ | settling slot _ | announcing slot =>
    rw [hpc] at h hpoint
    cases h
    exact hpoint
  | dropping g stage again =>
    rw [hpc] at h hpoint
    have hslot : g.slot = s := by
      cases stage with
      | retire =>
        rw [Pc.status] at h
        split at h <;> exact Option.some.inj h
      | unlock => exact Option.some.inj h
      | _ => cases h
    exact hslot ▸ hpoint
  | _ =>
    rw [hpc] at h
    cases h

/-- What `request_highest_slotid` returns covers what is flagged, and stays within
the limits. -/
theorem requestHighestSlotid_spec {s highest : ℕ} (hm : m.Within)
    (h : m.requestHighestSlotid s = .some highest) :
    m.activeHighestSlotid ≤ highest ∧ s ≤ highest ∧ highest ≤ m.enforcedHighestSlotid := by
  have htarget := hm.target_le
  rw [requestHighestSlotid] at h
  split at h
  · cases h
  · next hwithin =>
    split at h
    · next hactive =>
      cases h
      omega
    · cases h

/-! ### Runs that clear first -/

/-- No drop still has to clear the flag that this step sets. -/
def ClearedFirst (m : Machine) (action : Action) : Prop :=
  ∀ t act s, action = .task t act → m.pc t = .activating s →
    ∀ u, (m.pc u).status ≠ .clearing s

theorem flagged_of_clearedFirst {slotCount : UInt32}
    (h : Transition.Reaches (step sessionid) ClearedFirst (new slotCount) m) :
    m.Within ∧ m.life.Ok ∧ m.life.Flagged := by
  refine h.invariant (I := fun m => m.Within ∧ m.life.Ok ∧ m.life.Flagged)
    ⟨within_new slotCount, life_ok_new slotCount, fun t s ht => by cases ht⟩ ?_
  rintro m action m' ⟨hwithin, hok, hflagged⟩ hclear hstep
  refine ⟨step_within hstep hwithin, life_ok_step hstep hok, ?_⟩
  rcases step_life hstep hclear with heq | hlife
  · rwa [heq]
  · exact hlife.flagged hok hflagged

/-- **Active slots.**  In every run in which each drop clears its flag before the
next task sets it: every slot a task past `acquire` has a guard on is flagged, and
the highest slot `request_highest_slotid` returns is at least every such slot, at
least the caller's own, and at most the server's limit. -/
theorem active_of_clearedFirst (sessionid : Vector UInt8 16) (slotCount : UInt32) (m : Machine)
    (h : Transition.Reaches (step sessionid) ClearedFirst (new slotCount) m) :
    (∀ t s, m.Guards t s → m.active s = true) ∧
    ∀ t s highest m', m.pc t = .checking s → m.step sessionid (.task t .advance) = some m' →
      m'.pc t = .ready s highest →
      (∀ u s', m.Guards u s' → s' ≤ highest.toNat) ∧ s ≤ highest.toNat ∧
        highest.toNat ≤ m.enforcedHighestSlotid := by
  obtain ⟨hwithin, -, hflagged⟩ := flagged_of_clearedFirst h
  have hactive : ∀ t s, m.Guards t s → m.active s = true := fun t s ht => (hflagged t s ht).1
  refine ⟨hactive, ?_⟩
  intro t s highest m' hpc hstep hready
  simp only [step, hpc, taskStep, Option.some.injEq] at hstep
  subst hstep
  rw [goto_pc_self] at hready
  -- only one of the three ways a round can end leads to `ready`
  cases hround : m.requestHighestSlotid s with
  | none | wait =>
    rw [hround] at hready
    cases hready
  | some value =>
    rw [hround] at hready
    obtain ⟨hcover, hown, hlimit⟩ := requestHighestSlotid_spec hwithin hround
    have hexact : highest.toNat = value := by
      have hlt : value < 2 ^ 32 :=
        Nat.lt_of_le_of_lt hlimit (Nat.lt_trans hwithin.enforced_lt hwithin.count)
      cases hready
      exact UInt32.toNat_ofNat_of_lt' hlt
    rw [hexact]
    refine ⟨fun u s' hu => ?_, hown, hlimit⟩
    exact Nat.le_trans (le_activeHighestSlotid (hwithin.lt_of_guards hu) (hactive u s' hu)) hcover

/-- A task alone has nobody's flag to race with. -/
theorem clearedFirst_of_idle {act : Act} (h : ∀ u ≠ t, m.pc u = .idle) :
    ClearedFirst m (.task t act) := by
  rintro t' act' s ⟨⟩ hpc u
  by_cases hu : u = t
  · subst hu
    rw [hpc]
    exact fun hs => by cases hs
  · rw [h u hu]
    exact fun hs => by cases hs

theorem retire_pc (m : Machine) (g : SlotGuard) : (m.retire g).1.pc = m.pc := by
  rw [retire]
  split <;> rfl

/-- A step of one task leaves the others where they are. -/
theorem taskStep_pc_of_ne {act : Act} {u : ℕ} (hu : u ≠ t)
    (h : m.taskStep sessionid t pc act = some m') : m'.pc u = m.pc u := by
  have hgoto : ∀ (n : Machine) (pc : Pc), n.pc = m.pc → (n.goto t pc).pc u = m.pc u := by
    intro n pc hn
    rw [goto_pc_of_ne n pc hu, hn]
  rw [taskStep.eq_def] at h
  split at h
  all_goals
    repeat' split at h
    all_goals cases h
  all_goals first | exact hgoto _ _ rfl | exact hgoto _ _ (retire_pc m _)

/-- The runs of a session that one task uses clear first. -/
theorem reaches_of_single {slotCount : UInt32} (t : ℕ) (acts : List Act)
    (h : Transition.run (step sessionid) (new slotCount) (acts.map (.task t)) = some m) :
    Transition.Reaches (step sessionid) ClearedFirst (new slotCount) m := by
  have hrun : ∀ (acts : List Act) (m₀ : Machine), (∀ u ≠ t, m₀.pc u = .idle) →
      Transition.Reaches (step sessionid) ClearedFirst (new slotCount) m₀ →
      Transition.run (step sessionid) m₀ (acts.map (.task t)) = some m →
      Transition.Reaches (step sessionid) ClearedFirst (new slotCount) m := by
    intro acts
    induction acts with
    | nil =>
      intro m₀ _ hreach hm
      cases hm
      exact hreach
    | cons act acts ih =>
      intro m₀ hidle hreach hm
      obtain ⟨m₁, hfirst, hrest⟩ := Option.bind_eq_some_iff.mp hm
      refine ih m₁ (fun u hu => ?_) (hreach.next (clearedFirst_of_idle hidle) hfirst) hrest
      rw [taskStep_pc_of_ne hu hfirst]
      exact hidle u hu
  exact hrun acts (new slotCount) (fun _ _ => rfl) (.refl _ _ _) h

/-- One call on the only slot, about to ask for the highest slot. -/
theorem active_of_clearedFirst_one_call :
    ∃ m, Transition.run (step (Vector.replicate 16 0)) (new 1)
        ((.start :: List.replicate 7 .advance).map (.task 0)) = some m ∧
      m.Guards 0 0 ∧ m.active 0 = true :=
  ⟨_, rfl, rfl, (active_of_clearedFirst (Vector.replicate 16 0) 1 _
    (reaches_of_single 0 (.start :: List.replicate 7 .advance) rfl)).1 0 0 rfl⟩

/-! ### The late clear -/

/-- The reply to a request that holds nothing but `SEQUENCE`, in the session of
sixteen zero bytes. -/
def sequenceReply (sequenceid slotid highestSlotid targetHighestSlotid : UInt32) : Bytes :=
  CompoundReply.encode ⟨⟨[], Opaque.short_nil⟩, ⟨[.sequence (Vector.replicate 16 0) sequenceid slotid
    highestSlotid targetHighestSlotid 0], none⟩, show 1 < 2 ^ 32 by decide⟩

/-- Task 2 has a request on slot 0 and task 0 one on slot 1.  Task 0 is answered
and unlocks its slot; task 1 takes the slot and sends a request on it; then
task 0 clears the flag.  The answer to task 2 lowers the target to slot 0, and
task 3 takes slot 0. -/
def lateClear : List Action :=
  let run (t n : ℕ) : List Action := List.replicate n (.task t .advance)
  (.task 2 .start :: run 2 10) ++ (.task 0 .start :: run 0 11)
    ++ (.task 0 (.reply (sequenceReply 1 1 2 2)) :: run 0 4)
    ++ (.task 1 .start :: run 1 11) ++ run 0 3
    ++ (.task 2 (.reply (sequenceReply 1 0 2 0)) :: run 2 7)
    ++ (.task 3 .start :: run 3 8)

set_option maxRecDepth 4000 in
/-- **The flag of a slot in use is lost.**  At the end of the run the request on
slot 1 awaits its reply, slot 1 is not flagged, and slot 0 was returned as the
highest slot in use. -/
theorem active_lost :
    ∃ m, Transition.run (step (Vector.replicate 16 0)) (new 3) lateClear = some m ∧
      m.pc 1 = .awaiting 1 2 ∧ m.Guards 1 1 ∧ m.active 1 = false ∧ m.pc 3 = .ready 0 0 :=
  ⟨_, rfl, rfl, rfl, rfl, rfl⟩

end Machine

end NfsCrust.Slots
