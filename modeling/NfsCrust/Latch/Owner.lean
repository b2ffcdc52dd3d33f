import Mathlib
import NfsCrust.Latch.Machine

/-!
# The client's verifier

A client whose state was revoked must not be taken for its former self: it changes
the verifier it shows to the server.  Any number of sessions may notice at any
time, each of them only once, and the `fetch_or` by which a session notices and the
`compare_exchange` of the verifier are separate steps.  The `compare_exchange`
expects the verifier the session was opened under, so a session that is late does
nothing.

Verifiers are generated from fresh ULIDs; here they do not repeat (`FreshVerifiers`).

## Main definitions

* `Machine.Consistent` — the invariant: a verifier that was replaced does not come
  back, and a session with revoked state has replaced its verifier or is about to.

## Main results

* `Machine.owner_consistent` — each verifier is replaced at most once, only for a
  session that was opened under it and whose state was revoked, and certainly by
  the time such a session has latched what it was told.  The owner id never changes
  and open owners are never handed out twice.
-/

namespace NfsCrust.Latch

namespace Machine

variable {m m' : Machine} {t sid : ℕ} {a : Action}

/-- No verifier is generated twice. -/
def FreshVerifiers (m : Machine) : Action → Prop
  | .task _ (.rotate fresh) => fresh ∉ m.generated
  | _ => True

/-- The open owners handed out so far. -/
def ownerNames (n : ℕ) : List String :=
  (List.range n).map fun i => OPEN_OWNER_PREFIX ++ toString (UInt64.ofNat (i + 1)).toNat

/-- The invariant. -/
structure Consistent (m : Machine) : Prop where
  current : m.owner.verifier ∈ m.generated
  opened : ∀ sid s, m.sessions sid = some s → s.clientVerifier ∈ m.generated
  replaced : ∀ r ∈ m.rotations, r.1 ∈ m.generated ∧ r.1 ≠ m.owner.verifier
  once : (m.rotations.map Prod.fst).Nodup
  /-- Every replacement has its reason. -/
  reason : ∀ r ∈ m.rotations, ∃ sid s word, m.sessions sid = some s ∧ s.clientVerifier = r.1 ∧
    (sid, word) ∈ m.latched ∧ lostFlags word ≠ 0
  rotating : ∀ t sid, m.pc t = .rotating sid → ∃ word, (sid, word) ∈ m.latched ∧ lostFlags word ≠ 0
  latched : ∀ sid word, (sid, word) ∈ m.latched → ∃ s, m.sessions sid = some s ∧
    (lostFlags word ≠ 0 → lostFlags s.fatalSequenceFlags ≠ 0)
  /-- A session with revoked state has replaced its verifier or is about to. -/
  lost : ∀ sid s, m.sessions sid = some s → lostFlags s.fatalSequenceFlags ≠ 0 →
    s.clientVerifier ≠ m.owner.verifier ∨ ∃ t, m.pc t = .rotating sid
  names : m.names = ownerNames m.names.length
  counter : m.owner.ownerCounter = .ofNat (m.names.length + 1)

theorem consistent_new (verifier : UInt64) (ownerid : String) :
    (new verifier ownerid).Consistent where
  current := List.mem_cons_self
  opened := nofun
  replaced := nofun
  once := List.nodup_nil
  reason := nofun
  rotating := nofun
  latched := nofun
  lost := nofun
  names := rfl
  counter := rfl

/-! ### Steps -/

/-- A task moves, neither to nor from its `compare_exchange`. -/
theorem Consistent.goto {pc : Pc} (h : m.Consistent) (hold : ∀ sid, m.pc t ≠ .rotating sid)
    (hnew : ∀ sid, pc ≠ .rotating sid) : (m.goto t pc).Consistent where
  current := h.current
  opened := h.opened
  replaced := h.replaced
  once := h.once
  reason := h.reason
  rotating u sid hu := by
    by_cases hut : u = t
    · rw [hut, goto_pc_self] at hu
      exact absurd hu (hnew sid)
    · rw [goto_pc_of_ne m pc hut] at hu
      exact h.rotating u sid hu
  latched := h.latched
  lost sid s hs hlost := by
    refine (h.lost sid s hs hlost).imp_right ?_
    rintro ⟨u, hu⟩
    have hut : u ≠ t := by
      rintro rfl
      exact hold sid hu
    exact ⟨u, (goto_pc_of_ne m pc hut).trans hu⟩
  names := h.names
  counter := h.counter

theorem not_rotating_of_move {pc pc' : Pc} {act : Act} (h : Move m pc act pc') :
    (∀ sid, pc ≠ .rotating sid) ∧ ∀ sid, pc' ≠ .rotating sid := by
  cases h with
  | @pass _ _ again => exact ⟨nofun, by cases again <;> exact nofun⟩
  | leave hpc => exact ⟨by rcases hpc with rfl | rfl <;> exact nofun, nofun⟩
  | _ => exact ⟨nofun, nofun⟩

/-- The sessions are still there, under their verifiers, with the state they lost. -/
def Extends (m m' : Machine) : Prop :=
  ∀ sid s, m.sessions sid = some s → ∃ s', m'.sessions sid = some s' ∧
    s'.clientVerifier = s.clientVerifier ∧
    (lostFlags s.fatalSequenceFlags ≠ 0 → lostFlags s'.fatalSequenceFlags ≠ 0)

theorem extends_of_new {s : OpenSession} (h : m.sessions sid = none) :
    m.Extends (m.setSession sid s) := by
  intro sid' s' hs'
  have hne : sid' ≠ sid := by
    rintro rfl
    rw [h] at hs'
    cases hs'
  exact ⟨s', (setSession_sessions_of_ne m s hne).trans hs', rfl, id⟩

theorem extends_of_old {s s' : OpenSession} (h : m.sessions sid = some s)
    (hverifier : s'.clientVerifier = s.clientVerifier)
    (hlost : lostFlags s.fatalSequenceFlags ≠ 0 → lostFlags s'.fatalSequenceFlags ≠ 0) :
    m.Extends (m.setSession sid s') := by
  intro sid₁ s₁ hs₁
  by_cases hne : sid₁ = sid
  · subst hne
    rw [h] at hs₁
    cases hs₁
    exact ⟨s', setSession_sessions_self .., hverifier, hlost⟩
  · exact ⟨s₁, (setSession_sessions_of_ne m s' hne).trans hs₁, rfl, id⟩

theorem Consistent.reason_of_extends (h : m.Consistent) (hext : m.Extends m')
    {r : UInt64 × UInt64} (hr : r ∈ m.rotations) : ∃ sid s word, m'.sessions sid = some s ∧
      s.clientVerifier = r.1 ∧ (sid, word) ∈ m.latched ∧ lostFlags word ≠ 0 := by
  obtain ⟨sid, s, word, hs, hverifier, hword, hlost⟩ := h.reason r hr
  obtain ⟨s', hs', hsame, -⟩ := hext sid s hs
  exact ⟨sid, s', word, hs', hsame.trans hverifier, hword, hlost⟩

theorem Consistent.latched_of_extends (h : m.Consistent) (hext : m.Extends m')
    {word : UInt32} (hword : (sid, word) ∈ m.latched) : ∃ s, m'.sessions sid = some s ∧
      (lostFlags word ≠ 0 → lostFlags s.fatalSequenceFlags ≠ 0) := by
  obtain ⟨s, hs, hlost⟩ := h.latched sid word hword
  obtain ⟨s', hs', -, hkeep⟩ := hext sid s hs
  exact ⟨s', hs', fun hw => hkeep (hlost hw)⟩

/-- A session is opened, or one of its words changes. -/
theorem Consistent.setSession {s' : OpenSession} (h : m.Consistent)
    (hext : m.Extends (m.setSession sid s')) (hopened : s'.clientVerifier ∈ m.generated)
    (hlost : lostFlags s'.fatalSequenceFlags ≠ 0 →
      s'.clientVerifier ≠ m.owner.verifier ∨ ∃ t, m.pc t = .rotating sid) :
    (m.setSession sid s').Consistent where
  current := h.current
  opened sid₁ s₁ hs₁ := by
    rcases setSession_eq_some hs₁ with ⟨-, rfl⟩ | ⟨-, hold⟩
    · exact hopened
    · exact h.opened sid₁ s₁ hold
  replaced := h.replaced
  once := h.once
  reason _ hr := h.reason_of_extends hext hr
  rotating := h.rotating
  latched _ _ hword := h.latched_of_extends hext hword
  lost sid₁ s₁ hs₁ := by
    rcases setSession_eq_some hs₁ with ⟨rfl, rfl⟩ | ⟨-, hold⟩
    · exact hlost
    · exact h.lost sid₁ s₁ hold
  names := h.names
  counter := h.counter

theorem ownerNames_succ (n : ℕ) : ownerNames (n + 1)
    = ownerNames n ++ [OPEN_OWNER_PREFIX ++ toString (UInt64.ofNat (n + 1)).toNat] := by
  simp [ownerNames, List.range_succ]

theorem Consistent.openOwner (h : m.Consistent) :
    ({ m with owner := m.owner.nextOpenOwner.2
              names := m.names ++ [m.owner.nextOpenOwner.1] } : Machine).Consistent where
  current := h.current
  opened := h.opened
  replaced := h.replaced
  once := h.once
  reason := h.reason
  rotating := h.rotating
  latched := h.latched
  lost := h.lost
  names := by
    rw [List.length_append, List.length_singleton, ownerNames_succ, ← h.names, ← h.counter]
    rfl
  counter := by
    rw [List.length_append, List.length_singleton, UInt64.ofNat_add (m.names.length + 1), ← h.counter]
    rfl

/-- The `fetch_or`.  Only the first task to see revoked state goes on to the
`compare_exchange`; for the others the flags were already there. -/
theorem Consistent.fetchOr {s : OpenSession} {statusFlags : UInt32} (h : m.Consistent)
    (hpc : m.pc t = .latching sid statusFlags) (hs : m.sessions sid = some s) :
    ((m.fetchOr sid s statusFlags).goto t
      (if lostFlags statusFlags ≠ 0 ∧ lostFlags s.fatalSequenceFlags = 0 then .rotating sid
      else .ended sid)).Consistent := by
  have hext : m.Extends (m.fetchOr sid s statusFlags) :=
    extends_of_old hs rfl fun hlost => lostFlags_or_ne_zero (Or.inl hlost)
  have hnew : ∀ sid', (if lostFlags statusFlags ≠ 0 ∧ lostFlags s.fatalSequenceFlags = 0 then
      Pc.rotating sid else .ended sid) = .rotating sid' →
      sid' = sid ∧ lostFlags statusFlags ≠ 0 := by
    intro sid' heq
    split at heq
    · next hfirst =>
      cases heq
      exact ⟨rfl, hfirst.1⟩
    · cases heq
  generalize hpc' : (if lostFlags statusFlags ≠ 0 ∧ lostFlags s.fatalSequenceFlags = 0 then
    Pc.rotating sid else .ended sid) = pc' at hnew ⊢
  constructor
  case current => exact h.current
  case opened =>
    intro sid₁ s₁ hs₁
    rcases setSession_eq_some hs₁ with ⟨-, rfl⟩ | ⟨-, hold⟩
    · exact h.opened sid s hs
    · exact h.opened sid₁ s₁ hold
  case replaced => exact h.replaced
  case once => exact h.once
  case reason =>
    intro r hr
    obtain ⟨sid₁, s₁, word, hs₁, hverifier, hword, hlost⟩ := h.reason_of_extends hext hr
    exact ⟨sid₁, s₁, word, hs₁, hverifier, List.mem_cons_of_mem _ hword, hlost⟩
  case rotating =>
    intro u sid₁ hu
    by_cases hut : u = t
    · rw [hut, goto_pc_self] at hu
      obtain ⟨rfl, hlost⟩ := hnew sid₁ hu
      exact ⟨statusFlags, List.mem_cons_self, hlost⟩
    · rw [goto_pc_of_ne _ pc' hut] at hu
      obtain ⟨word, hword, hlost⟩ := h.rotating u sid₁ hu
      exact ⟨word, List.mem_cons_of_mem _ hword, hlost⟩
  case latched =>
    intro sid₁ word hword
    rcases List.mem_cons.mp hword with hword | hword
    · cases hword
      exact ⟨_, setSession_sessions_self .., fun hlost => lostFlags_or_ne_zero (Or.inr hlost)⟩
    · exact h.latched_of_extends hext hword
  case lost =>
    intro sid₁ s₁ hs₁ hlost
    -- tasks other than `t` stay where they are, and `t` was not at its `compare_exchange`
    have hstay : (∃ u, m.pc u = .rotating sid₁) →
        ∃ u, ((m.fetchOr sid s statusFlags).goto t pc').pc u = .rotating sid₁ := by
      rintro ⟨u, hu⟩
      refine ⟨u, (goto_pc_of_ne _ pc' ?_).trans hu⟩
      rintro rfl
      rw [hpc] at hu
      cases hu
    rcases setSession_eq_some hs₁ with ⟨rfl, rfl⟩ | ⟨-, hold⟩
    · by_cases hbefore : lostFlags s.fatalSequenceFlags = 0
      · right
        refine ⟨t, (goto_pc_self ..).trans (hpc'.symm.trans (if_pos ⟨?_, hbefore⟩))⟩
        intro hzero
        rw [lostFlags_or, hbefore, hzero] at hlost
        exact hlost rfl
      · exact (h.lost sid₁ s hs hbefore).imp_right hstay
    · exact (h.lost sid₁ s₁ hold hlost).imp_right hstay
  case names => exact h.names
  case counter => exact h.counter

/-- A task leaves its `compare_exchange`. -/
theorem Consistent.leave (h : m.Consistent) (hpc : m.pc t = .rotating sid)
    (hdone : ∀ s, m.sessions sid = some s → s.clientVerifier ≠ m.owner.verifier) :
    (m.goto t (.ended sid)).Consistent where
  current := h.current
  opened := h.opened
  replaced := h.replaced
  once := h.once
  reason := h.reason
  rotating u sid₁ hu := by
    by_cases hut : u = t
    · rw [hut, goto_pc_self] at hu
      cases hu
    · rw [goto_pc_of_ne m _ hut] at hu
      exact h.rotating u sid₁ hu
  latched := h.latched
  lost sid₁ s₁ hs₁ hlost := by
    by_cases hsid : sid₁ = sid
    · subst hsid
      exact Or.inl (hdone s₁ hs₁)
    · refine (h.lost sid₁ s₁ hs₁ hlost).imp_right ?_
      rintro ⟨u, hu⟩
      refine ⟨u, (goto_pc_of_ne m _ ?_).trans hu⟩
      rintro rfl
      rw [hpc] at hu
      cases hu
      exact hsid rfl
  names := h.names
  counter := h.counter

/-- A verifier is generated and not used. -/
theorem Consistent.generate (h : m.Consistent) (fresh : UInt64) :
    ({ m with generated := fresh :: m.generated } : Machine).Consistent where
  current := List.mem_cons_of_mem _ h.current
  opened sid s hs := List.mem_cons_of_mem _ (h.opened sid s hs)
  replaced r hr := ⟨List.mem_cons_of_mem _ (h.replaced r hr).1, (h.replaced r hr).2⟩
  once := h.once
  reason := h.reason
  rotating := h.rotating
  latched := h.latched
  lost := h.lost
  names := h.names
  counter := h.counter

/-- A verifier is generated and replaces the current one. -/
theorem Consistent.replace {s : OpenSession} {fresh : UInt64} {word : UInt32} (h : m.Consistent)
    (hfresh : fresh ∉ m.generated) (hs : m.sessions sid = some s)
    (hcurrent : s.clientVerifier = m.owner.verifier) (hword : (sid, word) ∈ m.latched)
    (hlost : lostFlags word ≠ 0) :
    ({ m with owner := { m.owner with verifier := fresh }
              generated := fresh :: m.generated
              rotations := (s.clientVerifier, fresh) :: m.rotations } : Machine).Consistent := by
  have hne : ∀ v ∈ m.generated, v ≠ fresh := by
    rintro v hv rfl
    exact hfresh hv
  constructor
  case current => exact List.mem_cons_self
  case opened => exact fun sid s hs => List.mem_cons_of_mem _ (h.opened sid s hs)
  case replaced =>
    intro r hr
    have hgenerated : r.1 ∈ m.generated := by
      rcases List.mem_cons.mp hr with rfl | hr
      · exact h.opened sid s hs
      · exact (h.replaced r hr).1
    exact ⟨List.mem_cons_of_mem _ hgenerated, hne _ hgenerated⟩
  case once =>
    refine List.nodup_cons.mpr ⟨fun hmem => ?_, h.once⟩
    obtain ⟨r, hr, heq⟩ := List.mem_map.mp hmem
    exact (h.replaced r hr).2 (heq.trans hcurrent)
  case reason =>
    intro r hr
    rcases List.mem_cons.mp hr with rfl | hr
    · exact ⟨sid, s, word, hs, rfl, hword, hlost⟩
    · exact h.reason r hr
  case rotating => exact h.rotating
  case latched => exact h.latched
  case lost => exact fun sid s hs _ => Or.inl (hne _ (h.opened sid s hs))
  case names => exact h.names
  case counter => exact h.counter

/-- The `compare_exchange`.  Afterwards the verifier is not the one the session was
opened under, whether it was replaced now or before. -/
theorem Consistent.rotate {s : OpenSession} {fresh : UInt64} (h : m.Consistent)
    (hfresh : fresh ∉ m.generated) (hpc : m.pc t = .rotating sid)
    (hs : m.sessions sid = some s) :
    ((m.rotate s fresh).goto t (.ended sid)).Consistent := by
  have hopened := h.opened sid s hs
  have hne : fresh ≠ s.clientVerifier := by
    rintro rfl
    exact hfresh hopened
  have hsame : ∀ s₁, m.sessions sid = some s₁ → s₁ = s := fun s₁ hs₁ =>
    Option.some.inj (hs₁.symm.trans hs)
  by_cases hcurrent : m.owner.verifier = s.clientVerifier
  · obtain ⟨word, hword, hlost⟩ := h.rotating t sid hpc
    have hreplaced := h.replace hfresh hs hcurrent.symm hword hlost
    simp only [Machine.rotate, ClientOwner.rotateVerifierIfCurrent, if_pos hcurrent, if_neg hne,
      if_true]
    refine hreplaced.leave hpc fun s₁ hs₁ => ?_
    rw [hsame s₁ hs₁]
    exact hne.symm
  · simp only [Machine.rotate, ClientOwner.rotateVerifierIfCurrent, if_neg hcurrent,
      Bool.false_eq_true, if_false]
    refine (h.generate fresh).leave hpc fun s₁ hs₁ => ?_
    rw [hsame s₁ hs₁]
    exact Ne.symm hcurrent

theorem Consistent.step (h : m.Consistent) (hok : FreshVerifiers m a)
    (hstep : m.step a = some m') : m'.Consistent := by
  cases step_does hstep with
  | connect hnone =>
    exact h.setSession (extends_of_new hnone) h.current fun hlost =>
      absurd (show lostFlags 0 = 0 by decide) hlost
  | @reclaim sid s hs =>
    exact h.setSession (extends_of_old hs rfl id) (h.opened sid s hs) (h.lost sid s hs)
  | openOwner => exact h.openOwner
  | move hmove =>
    obtain ⟨hold, hnew⟩ := not_rotating_of_move hmove
    exact h.goto hold hnew
  | fetchOr hpc hs => exact h.fetchOr hpc hs
  | rotate hpc hs => exact h.rotate hok hpc hs

/-! ### The result -/

/-- A `compare_exchange` leaves the verifier alone or makes it a fresh one. -/
theorem Consistent.verifier_step (h : m.Consistent) (hok : FreshVerifiers m a)
    (hstep : m.step a = some m') :
    m'.owner.verifier = m.owner.verifier ∨ m'.owner.verifier ∉ m.generated := by
  cases step_does hstep with
  | @rotate t sid fresh s hpc hs =>
    have hne : fresh ≠ s.clientVerifier := by
      rintro rfl
      exact hok (h.opened sid s hs)
    by_cases hcurrent : m.owner.verifier = s.clientVerifier
    · right
      change (m.rotate s fresh).owner.verifier ∉ _
      simp only [Machine.rotate, ClientOwner.rotateVerifierIfCurrent, if_pos hcurrent, if_neg hne]
      exact hok
    · left
      change (m.rotate s fresh).owner.verifier = _
      simp only [Machine.rotate, ClientOwner.rotateVerifierIfCurrent, if_neg hcurrent]
  | _ => exact Or.inl rfl

theorem generated_subset_step (hstep : m.step a = some m') : m.generated ⊆ m'.generated := by
  cases step_does hstep with
  | rotate => exact List.subset_cons_self ..
  | _ => exact List.Subset.refl _

theorem extends_step (hstep : m.step a = some m') : m.Extends m' := by
  cases step_does hstep with
  | connect hnone => exact extends_of_new hnone
  | reclaim hs => exact extends_of_old hs rfl id
  | fetchOr _ hs => exact extends_of_old hs rfl fun hlost => lostFlags_or_ne_zero (Or.inl hlost)
  | openOwner | move | rotate => exact fun sid s hs => ⟨s, hs, rfl, id⟩

/-- A verifier that is not current any more does not become current again. -/
theorem Consistent.verifier_ne {v : UInt64} (h : m.Consistent) (hv : v ∈ m.generated)
    (hne : m.owner.verifier ≠ v)
    (hrun : Transition.Reaches Machine.step FreshVerifiers m m') :
    m'.owner.verifier ≠ v := by
  refine (hrun.invariant (I := fun m => m.Consistent ∧ v ∈ m.generated ∧ m.owner.verifier ≠ v)
    ⟨h, hv, hne⟩ ?_).2.2
  rintro m a m' ⟨h, hv, hne⟩ hok hstep
  refine ⟨h.step hok hstep, generated_subset_step hstep hv, ?_⟩
  rcases h.verifier_step hok hstep with hsame | hfresh
  · rw [hsame]
    exact hne
  · rintro rfl
    exact hfresh hv

/-- A step of a session that was not opened under the current verifier does not
replace it. -/
theorem verifier_eq_of_stale {s : OpenSession} {act : Act} (hs : m.sessions sid = some s)
    (hstale : m.owner.verifier ≠ s.clientVerifier) (ht : (m.pc t).session? = some sid)
    (hstep : m.step (.task t act) = some m') : m'.owner.verifier = m.owner.verifier := by
  cases step_does hstep with
  | @rotate _ sid' fresh s' hpc hs' =>
    rw [hpc] at ht
    cases ht
    rw [hs] at hs'
    cases hs'
    change (m.rotate s fresh).owner.verifier = _
    simp only [Machine.rotate, ClientOwner.rotateVerifierIfCurrent, if_neg hstale]
  | _ => rfl

/-- Fewer than `2 ^ 64` open owners are all different. -/
theorem nodup_ownerNames {n : ℕ} (hn : n < 2 ^ 64) : (ownerNames n).Nodup := by
  refine List.Nodup.map_on ?_ List.nodup_range
  intro i hi j hj heq
  rw [List.mem_range] at hi hj
  have hdigits := Nat.repr_inj.mp ((String.append_right_inj _).mp heq)
  have hi' : i + 1 < 2 ^ 64 := by omega
  have hj' : j + 1 < 2 ^ 64 := by omega
  rw [UInt64.toNat_ofNat_of_lt' hi', UInt64.toNat_ofNat_of_lt' hj'] at hdigits
  exact Nat.succ_inj.mp hdigits

theorem ownerid_step (hstep : m.step a = some m') : m'.owner.ownerid = m.owner.ownerid := by
  cases step_does hstep with
  | @rotate t sid fresh s hpc hs =>
    change (m.rotate s fresh).owner.ownerid = _
    simp only [Machine.rotate, ClientOwner.rotateVerifierIfCurrent]
    split <;> rfl
  | _ => rfl

/-- **The owner of a client.**  In every run in which verifiers do not repeat:

* each verifier is replaced at most once, and only after a session that was opened
  under it has latched revoked state;
* a session that was opened under an older verifier never changes the current one;
* once a session that has latched revoked state has no latch call left, the current
  verifier is not its own;
* the owner id stays, and open owners are handed out once. -/
theorem owner_consistent {verifier : UInt64} {ownerid : String} (m : Machine)
    (hreached : Transition.Reaches step FreshVerifiers (new verifier ownerid) m) :
    (m.rotations.map Prod.fst).Nodup ∧
    (∀ r ∈ m.rotations, ∃ sid s word, m.sessions sid = some s ∧ s.clientVerifier = r.1 ∧
      (sid, word) ∈ m.latched ∧ lostFlags word ≠ 0) ∧
    (∀ sid s, m.sessions sid = some s → s.clientVerifier ≠ m.owner.verifier →
      ∀ m', Transition.Reaches step FreshVerifiers m m' → s.clientVerifier ≠ m'.owner.verifier ∧
        ∀ t act m'', (m'.pc t).session? = some sid → m'.step (.task t act) = some m'' →
          m''.owner.verifier = m'.owner.verifier) ∧
    (∀ sid s word, m.sessions sid = some s → (sid, word) ∈ m.latched → lostFlags word ≠ 0 →
      (∀ t, (∀ word', m.pc t ≠ .latching sid word') ∧ m.pc t ≠ .rotating sid) →
      s.clientVerifier ≠ m.owner.verifier) ∧
    m.owner.ownerid = ownerid ∧ (m.names.length < 2 ^ 64 → m.names.Nodup) := by
  have h : m.Consistent := hreached.invariant (consistent_new verifier ownerid)
    fun _ _ _ h hok hstep => h.step hok hstep
  refine ⟨h.once, h.reason, ?_, ?_, ?_, ?_⟩
  · intro sid s hs hstale m' hrun
    obtain ⟨s', hs', hsame⟩ := hrun.invariant
      (I := fun m => ∃ s', m.sessions sid = some s' ∧ s'.clientVerifier = s.clientVerifier)
      ⟨s, hs, rfl⟩ fun m _ _ ⟨s₁, hs₁, hsame⟩ _ hstep => by
        obtain ⟨s₂, hs₂, hkept, -⟩ := extends_step hstep sid s₁ hs₁
        exact ⟨s₂, hs₂, hkept.trans hsame⟩
    have hne := h.verifier_ne (h.opened sid s hs) (Ne.symm hstale) hrun
    refine ⟨Ne.symm hne, fun t act m'' ht hstep => verifier_eq_of_stale hs' ?_ ht hstep⟩
    rw [hsame]
    exact hne
  · intro sid s word hs hword hlost hdone
    obtain ⟨s', hs', hflags⟩ := h.latched sid word hword
    rw [hs] at hs'
    cases hs'
    rcases h.lost sid s hs (hflags hlost) with hne | ⟨t, ht⟩
    · exact hne
    · exact absurd ht (hdone t).2
  · exact hreached.invariant (I := fun m => m.owner.ownerid = ownerid) rfl
      fun _ _ _ h _ hstep => (ownerid_step hstep).trans h
  · intro hlt
    rw [h.names]
    exact nodup_ownerNames hlt

instance (m : Machine) (a : Action) : Decidable (FreshVerifiers m a) :=
  match a with
  | .task _ (.rotate fresh) => inferInstanceAs (Decidable (fresh ∉ m.generated))
  | .connect .. | .reclaim _ | .openOwner | .task _ .advance | .task _ (.refuse _)
  | .task _ .cancel | .task _ (.start ..) | .task _ (.reply _) => isTrue trivial

/-- Two sessions under one verifier report revoked state; the second is late. -/
def twoReports : List Action :=
  let run (t sid : ℕ) : List Action :=
    .task t (.start sid "remove" [.putRootFh]) :: List.replicate 6 (.task t .advance)
      ++ [.task t (.reply SEQ4_STATUS_ADMIN_STATE_REVOKED), .task t .advance, .task t .advance]
  let session : NfsSession :=
    { exportRoot := ⟨[1]⟩, clientid := 0, authBodyLen := 0, config := { «export» := "/" } }
  .connect 0 session :: .connect 1 session :: .openOwner :: .openOwner ::
    (run 0 0 ++ run 1 1 ++ [.task 0 (.rotate 7), .task 1 (.rotate 8)])

theorem owner_consistent_two_reports :
    ∃ m, Transition.Reaches step FreshVerifiers (new 1 "owner") m ∧ m.rotations = [(1, 7)] ∧
      m.owner.verifier = 7 ∧ m.names = ["nfs-crust-open-1", "nfs-crust-open-2"] ∧
      (m.rotations.map Prod.fst).Nodup ∧ m.owner.ownerid = "owner" := by
  have hrun : (Transition.run (Transition.guarded step FreshVerifiers) (new 1 "owner")
      twoReports).any (fun m => m.rotations == [(1, 7)] && (m.owner.verifier == 7 &&
        m.names == ["nfs-crust-open-1", "nfs-crust-open-2"])) = true := by
    decide +kernel
  obtain ⟨m, hm, htest⟩ := (Option.any_eq_true ..).mp hrun
  rw [Bool.and_eq_true, Bool.and_eq_true, beq_iff_eq, beq_iff_eq, beq_iff_eq] at htest
  obtain ⟨hrotations, hverifier, hnames⟩ := htest
  have hreached := Transition.reaches_of_guarded_run _ hm
  obtain ⟨honce, -, -, -, hownerid, -⟩ := owner_consistent m hreached
  exact ⟨m, hreached, hrotations, hverifier, hnames, honce, hownerid⟩

end Machine

end NfsCrust.Latch
