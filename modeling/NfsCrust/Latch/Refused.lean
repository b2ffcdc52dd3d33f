import NfsCrust.Latch.Machine

/-!
# Sessions with revoked state

Once a session has latched a status word that reports revoked state, no compound
gets past the first look at the latch.  The error it is refused with asks for a
new session, unless the latch also holds a flag the client does not know: unknown
flags are reported first, as a protocol error, and a protocol error does not lead
to a reconnect.

## Main results

* `Machine.refused_of_ordinary` — without unknown flags, every compound that is
  attempted on the session is refused with an error that requires a new session.
* `Machine.refused_for_good` — an unknown flag in a later reply hides the revoked
  state from the client.
-/

namespace NfsCrust.Latch

namespace Machine

variable {m m' : Machine} {t sid : ℕ} {a : Action}

/-- No reply carries a flag the client does not know, and every compound respects
the limits of its session. -/
def Ordinary (m : Machine) : Action → Prop
  | .task _ (.reply statusFlags) => unknownFlags statusFlags = 0
  | .task _ (.start sid tag ops) => ∀ s ∈ m.sessions sid,
      s.session.compoundRequestFits tag ops = true
  | _ => True

instance (m : Machine) (a : Action) : Decidable (Ordinary m a) :=
  match a with
  | .task _ (.reply statusFlags) => inferInstanceAs (Decidable (unknownFlags statusFlags = 0))
  | .task _ (.start sid tag ops) => inferInstanceAs (Decidable (∀ s ∈ m.sessions sid,
      s.session.compoundRequestFits tag ops = true))
  | .connect .. | .reclaim _ | .openOwner | .task _ .advance | .task _ (.refuse _)
  | .task _ .cancel | .task _ (.rotate _) => isTrue trivial

/-! ### Known flags -/

/-- The status word a task carries, known to the client. -/
def KnownWord : Pc → Prop
  | .replied _ statusFlags | .latching _ statusFlags => unknownFlags statusFlags = 0
  | _ => True

/-- No unknown flag has been seen. -/
structure Known (m : Machine) : Prop where
  sessions : ∀ sid s, m.sessions sid = some s → unknownFlags s.fatalSequenceFlags = 0
  tasks : ∀ t, KnownWord (m.pc t)

theorem Known.goto {pc : Pc} (h : m.Known) (hpc : KnownWord pc) : (m.goto t pc).Known := by
  refine ⟨h.sessions, fun u => ?_⟩
  by_cases hu : u = t
  · rw [hu, goto_pc_self]
    exact hpc
  · rw [goto_pc_of_ne m pc hu]
    exact h.tasks u

theorem Known.setSession {s : OpenSession} (h : m.Known)
    (hs : unknownFlags s.fatalSequenceFlags = 0) : (m.setSession sid s).Known := by
  refine ⟨fun sid' s' hs' => ?_, h.tasks⟩
  rcases setSession_eq_some hs' with ⟨-, rfl⟩ | ⟨-, hold⟩
  · exact hs
  · exact h.sessions sid' s' hold

theorem Known.step (h : m.Known) (hok : Ordinary m a) (hstep : m.step a = some m') :
    m'.Known := by
  cases step_does hstep with
  | connect _ => exact h.setSession (show unknownFlags 0 = 0 by decide)
  | reclaim hs =>
    have hflags := h.sessions _ _ hs
    exact h.setSession hflags
  | openOwner => exact ⟨h.sessions, h.tasks⟩
  | @move t act pc hmove =>
    have ht := h.tasks t
    refine h.goto ?_
    generalize m.pc t = old at hmove ht
    cases hmove with
    | reply => exact hok
    | alarm => exact ht
    | @pass _ _ again => cases again <;> trivial
    | _ => trivial
  | @fetchOr t sid statusFlags s hpc hs =>
    have ht := h.tasks t
    rw [hpc] at ht
    have hword : unknownFlags (s.fatalSequenceFlags ||| statusFlags) = 0 :=
      unknownFlags_or_eq_zero (h.sessions _ _ hs) ht
    refine Known.goto ⟨(h.setSession hword).sessions, h.tasks⟩ ?_
    split <;> trivial
  | rotate => exact Known.goto ⟨h.sessions, h.tasks⟩ trivial

/-! ### Refusal -/

/-- The session has latched revoked state. -/
def Lost (m : Machine) (sid : ℕ) : Prop :=
  ∃ s, m.sessions sid = some s ∧ lostFlags s.fatalSequenceFlags ≠ 0

theorem Lost.setSession {s s' : OpenSession} {sid' : ℕ} (h : m.Lost sid)
    (hs : m.sessions sid' = some s) (hs' : lostFlags s.fatalSequenceFlags ≠ 0 →
      lostFlags s'.fatalSequenceFlags ≠ 0) : (m.setSession sid' s').Lost sid := by
  obtain ⟨s₀, hs₀, hlost⟩ := h
  by_cases hsid : sid = sid'
  · subst hsid
    rw [hs₀] at hs
    cases hs
    exact ⟨s', setSession_sessions_self .., hs' hlost⟩
  · exact ⟨s₀, (setSession_sessions_of_ne m s' hsid).trans hs₀, hlost⟩

/-- Flags are never taken back. -/
theorem Lost.step (h : m.Lost sid) (hstep : m.step a = some m') : m'.Lost sid := by
  cases step_does hstep with
  | @connect sid' session hnone =>
    obtain ⟨s, hs, hlost⟩ := h
    refine ⟨s, (setSession_sessions_of_ne m _ ?_).trans hs, hlost⟩
    rintro rfl
    rw [hnone] at hs
    cases hs
  | reclaim hs => exact h.setSession hs id
  | openOwner => exact h
  | move _ => exact h
  | fetchOr _ hs => exact h.setSession hs fun hlost => lostFlags_or_ne_zero (Or.inl hlost)
  | rotate => exact h

/-- What can be said of a task that works on a session with revoked state. -/
inductive Refusing (sid : ℕ) : Pc → Prop
  | checking : Refusing sid (.checking sid false)
  | loaded {flags : UInt32} (hlost : lostFlags flags ≠ 0) (hknown : unknownFlags flags = 0) :
      Refusing sid (.loaded sid flags false)
  | refused {source : Error} (h : source.requiresSessionRebuild = true) :
      Refusing sid (.refused sid (.requestNotSent source))

/-- The error of a check on the latch, wrapped. -/
theorem refusing_of_lost {flags : UInt32} {reclaimComplete : Bool} {err : Error}
    (hlost : lostFlags flags ≠ 0) (hknown : unknownFlags flags = 0)
    (h : validateSequenceStatusFlags flags reclaimComplete = .error err) :
    Refusing sid (.refused sid err.notSent) := by
  obtain ⟨err', herr', hunsent, hrebuild⟩ := validateSequenceStatusFlags_lost reclaimComplete hlost
  obtain rfl : err' = err := by
    rw [herr'] at h
    cases h
    rfl
  have hwrap : err'.notSent = .requestNotSent err' := by
    cases err' <;> first | rfl | cases hunsent
  rw [hwrap]
  exact .refused (hrebuild hknown)

theorem Refusing.move {pc pc' : Pc} {act : Act} (hlost : m.Lost sid) (hknown : m.Known)
    (hok : Ordinary m (.task t act))
    (h : pc.session? = some sid → Refusing sid pc) (hmove : Move m pc act pc') :
    pc'.session? = some sid → Refusing sid pc' := by
  intro hpc'
  obtain ⟨s₀, hs₀, hlost⟩ := hlost
  cases hmove with
  | refuseAtOnce hs herr =>
    have hfits := hok _ hs
    rw [NfsSession.compoundRequestFits, herr] at hfits
    cases hfits
  | start =>
    cases hpc'
    exact .checking
  | load hs =>
    cases hpc'
    cases h rfl
    rw [hs₀] at hs
    cases hs
    exact .loaded hlost (hknown.sessions _ _ hs₀)
  | refuse _ herr =>
    cases hpc'
    cases h rfl with
    | loaded hlost hknown => exact refusing_of_lost hlost hknown herr
  | @pass sid' flags again s _ hpass =>
    obtain rfl : sid' = sid := by cases again <;> exact Option.some.inj hpc'
    cases h rfl with
    | loaded hlost _ =>
      obtain ⟨err, herr, -⟩ := validateSequenceStatusFlags_lost s.reclaimComplete hlost
      rw [hpass] at herr
      cases herr
  | leave => cases hpc'
  | acquire | notAcquired | send | notTaken | reply | drop | alarm | settle =>
    cases hpc'
    cases h rfl

/-- What a task on a session with revoked state does, whatever else happens. -/
theorem Refusing.step (hlost : m.Lost sid) (hknown : m.Known) (hok : Ordinary m a)
    (h : (m.pc t).session? = some sid → Refusing sid (m.pc t)) (hstep : m.step a = some m') :
    (m'.pc t).session? = some sid → Refusing sid (m'.pc t) := by
  cases step_does hstep with
  | connect | reclaim | openOwner => exact h
  | @move u act pc hmove =>
    by_cases htu : t = u
    · subst htu
      rw [goto_pc_self]
      exact Refusing.move hlost hknown hok h hmove
    · rw [goto_pc_of_ne m pc htu]
      exact h
  | @fetchOr u sid' statusFlags s hpc hs =>
    by_cases htu : t = u
    · subst htu
      rw [hpc] at h
      rw [goto_pc_self]
      intro hsid
      obtain rfl : sid' = sid := by
        split at hsid <;> exact Option.some.inj hsid
      cases h rfl
    · rw [goto_pc_of_ne _ _ htu]
      exact h
  | @rotate u sid' fresh s hpc hs =>
    by_cases htu : t = u
    · subst htu
      rw [hpc] at h
      rw [goto_pc_self]
      intro hsid
      cases hsid
      cases h rfl
    · rw [goto_pc_of_ne _ _ htu]
      exact h

/-- A task at this point is refused within two steps of its own. -/
theorem Refusing.ends (h : Refusing sid (m.pc t)) (hlost : m.Lost sid) (hknown : m.Known) :
    ∃ n ≤ 2, ∃ m' source, Transition.run Machine.step m (List.replicate n (.task t .advance)) = some m' ∧
      m'.pc t = .refused sid (.requestNotSent source) := by
  obtain ⟨s, hs, hflags⟩ := hlost
  -- the step that looks at the flags it has loaded
  have hlast : ∀ (m : Machine) (flags : UInt32), m.sessions sid = some s → lostFlags flags ≠ 0 →
      unknownFlags flags = 0 → m.pc t = .loaded sid flags false →
      ∃ m' source, m.step (.task t .advance) = some m' ∧
        m'.pc t = .refused sid (.requestNotSent source) := by
    intro m flags hs hlost hknown hpc
    obtain ⟨err, herr, -⟩ := validateSequenceStatusFlags_lost s.reclaimComplete hlost
    have hrefusing : Refusing sid (.refused sid err.notSent) := refusing_of_lost hlost hknown herr
    refine ⟨m.goto t (.refused sid err.notSent), ?_⟩
    cases hrefused : err.notSent with
    | requestNotSent source =>
      refine ⟨source, ?_, goto_pc_self ..⟩
      simp only [Machine.step, hpc, taskStep, hs, Option.map_some, herr, hrefused]
    | _ =>
      rw [hrefused] at hrefusing
      cases hrefusing
  generalize hpc : m.pc t = pc at h
  cases h with
  | checking =>
    have hload : m.step (.task t .advance)
        = some (m.goto t (.loaded sid s.fatalSequenceFlags false)) := by
      simp only [Machine.step, hpc, taskStep, hs, Option.map_some]
    obtain ⟨m', source, hstep, hend⟩ := hlast (m.goto t (.loaded sid s.fatalSequenceFlags false))
      s.fatalSequenceFlags hs hflags (hknown.sessions _ _ hs) (goto_pc_self ..)
    refine ⟨2, Nat.le_refl _, m', source, ?_, hend⟩
    simp [Transition.run, List.replicate, hload, hstep]
  | loaded hlost' hknown' =>
    obtain ⟨m', source, hstep, hend⟩ := hlast m _ hs hlost' hknown' hpc
    refine ⟨1, by decide, m', source, ?_, hend⟩
    simp [Transition.run, List.replicate, hstep]
  | @refused source _ => exact ⟨0, by decide, m, source, rfl, hpc⟩

/-- **Revoked state.**  In a run without unknown flags, a task that attempts a
compound on a session with revoked state does not send it; it is refused, with an
error that requires a new session. -/
theorem refused_of_ordinary {verifier : UInt64} {ownerid : String} (m m' : Machine) (sid t : ℕ)
    (hreached : Transition.Reaches step Ordinary (new verifier ownerid) m) (hlost : m.Lost sid)
    (hidle : m.pc t = .idle) (hrun : Transition.Reaches step Ordinary m m')
    (hsid : (m'.pc t).session? = some sid) :
    (m'.pc t).sent = false ∧
    (∀ err, m'.pc t = .refused sid err →
      err.isRequestNotSent = true ∧ err.requiresSessionRebuild = true) ∧
    ∃ n ≤ 2, ∃ m'' err, Transition.run step m' (List.replicate n (.task t .advance)) = some m'' ∧
      m''.pc t = .refused sid err := by
  have hknown : m.Known :=
    hreached.invariant ⟨nofun, fun _ => trivial⟩ fun _ _ _ h hok hstep => h.step hok hstep
  -- along the rest of the run the flags stay, and the task cannot pass
  obtain ⟨hknown', hlost', hrefusing⟩ := hrun.invariant
    (I := fun m' => m'.Known ∧ m'.Lost sid ∧
      ((m'.pc t).session? = some sid → Refusing sid (m'.pc t)))
    ⟨hknown, hlost, fun h => by rw [hidle] at h; cases h⟩
    fun _ _ _ ⟨hknown, hlost, h⟩ hok hstep =>
      ⟨hknown.step hok hstep, hlost.step hstep, Refusing.step hlost hknown hok h hstep⟩
  have hrefusing := hrefusing hsid
  obtain ⟨n, hn, m'', source, hends, hrefused⟩ := hrefusing.ends hlost' hknown'
  refine ⟨?_, ?_, n, hn, m'', _, hends, hrefused⟩
  · generalize m'.pc t = pc at hrefusing
    cases hrefusing <;> rfl
  · intro err herr
    rw [herr] at hrefusing
    cases hrefusing with
    | refused h => exact ⟨rfl, h⟩

/-! ### Runs -/

def someSession : NfsSession where
  exportRoot := ⟨[1]⟩
  clientid := 0
  authBodyLen := 0
  config := { «export» := "/" }

/-- A compound on session 0 that is sent by task `t`. -/
def sends (t : ℕ) : List Action :=
  .task t (.start 0 "remove" [.putRootFh]) :: List.replicate 6 (.task t .advance)

/-- The reply to it, up to the `fetch_or`. -/
def reported (t : ℕ) (statusFlags : UInt32) : List Action :=
  [.task t (.reply statusFlags), .task t .advance, .task t .advance]

def lostSession (m : Machine) : Bool :=
  (m.sessions 0).any fun s => lostFlags s.fatalSequenceFlags != 0

theorem lost_of_lostSession (h : m.lostSession = true) : m.Lost 0 := by
  obtain ⟨s, hs, hlost⟩ := (Option.any_eq_true ..).mp h
  exact ⟨s, hs, bne_iff_ne.mp hlost⟩

/-- Revoked state is reported to task 0; task 1 attempts a compound and is refused. -/
theorem refused_of_ordinary_one_report :
    ∃ m m', Transition.Reaches step Ordinary (new 1 "owner") m ∧ m.Lost 0 ∧ m.pc 1 = .idle ∧
      Transition.Reaches step Ordinary m m' ∧ (m'.pc 1).session? = some 0 ∧
      (m'.pc 1).sent = false := by
  have hruns : (Transition.run (Transition.guarded step Ordinary) (new 1 "owner")
      (.connect 0 someSession :: (sends 0 ++ reported 0 SEQ4_STATUS_ADMIN_STATE_REVOKED))).any
      (fun m => (m.pc 1 == .idle && m.lostSession) &&
        (Transition.run (Transition.guarded step Ordinary) m
          (.task 1 (.start 0 "remove" [.putRootFh]) :: List.replicate 2 (.task 1 .advance))).any
        fun m' => (m'.pc 1).session? == some 0) = true := by
    decide +kernel
  obtain ⟨m, hm, htest⟩ := (Option.any_eq_true ..).mp hruns
  rw [Bool.and_eq_true, Bool.and_eq_true, beq_iff_eq] at htest
  obtain ⟨⟨hidle, hlost⟩, hattempt⟩ := htest
  obtain ⟨m', hm', hsid⟩ := (Option.any_eq_true ..).mp hattempt
  have hreached := Transition.reaches_of_guarded_run _ hm
  have hrun := Transition.reaches_of_guarded_run _ hm'
  have hlost := lost_of_lostSession hlost
  have hsid := beq_iff_eq.mp hsid
  exact ⟨m, m', hreached, hlost, hidle, hrun, hsid,
    (refused_of_ordinary m m' 0 1 hreached hlost hidle hrun hsid).1⟩

/-- **An unknown flag hides revoked state.**  Tasks 0 and 1 have a compound in flight.
The reply to task 0 reports revoked state, the reply to task 1 a flag the client does
not know.  Task 2 is refused with an error that does not lead to a new session. -/
theorem refused_for_good :
    ∃ m m' err, Transition.Reaches step Transition.anyStep (new 1 "owner") m ∧ m.Lost 0 ∧
      m.pc 2 = .idle ∧ Transition.Reaches step Transition.anyStep m m' ∧
      m'.pc 2 = .refused 0 err ∧ err.requiresSessionRebuild = false := by
  have hruns : (Transition.run step (new 1 "owner") (.connect 0 someSession :: (sends 0 ++ sends 1
      ++ reported 0 SEQ4_STATUS_EXPIRED_ALL_STATE_REVOKED ++ reported 1 0x80000000))).any
      (fun m => (m.pc 2 == .idle && m.lostSession) &&
        (Transition.run step m
          (.task 2 (.start 0 "remove" [.putRootFh]) :: List.replicate 2 (.task 2 .advance))).any
        fun m' => match m'.pc 2 with
          | .refused sid err => sid == 0 && !err.requiresSessionRebuild
          | _ => false) = true := by
    decide +kernel
  obtain ⟨m, hm, htest⟩ := (Option.any_eq_true ..).mp hruns
  rw [Bool.and_eq_true, Bool.and_eq_true, beq_iff_eq] at htest
  obtain ⟨⟨hidle, hlost⟩, hattempt⟩ := htest
  obtain ⟨m', hm', hrefused⟩ := (Option.any_eq_true ..).mp hattempt
  split at hrefused
  · next sid err hpc =>
    rw [Bool.and_eq_true, beq_iff_eq, Bool.not_eq_true'] at hrefused
    obtain ⟨rfl, hrebuild⟩ := hrefused
    exact ⟨m, m', err, Transition.reaches_of_run _ hm, lost_of_lostSession hlost, hidle,
      Transition.reaches_of_run _ hm', hpc, hrebuild⟩
  · cases hrefused

end Machine

end NfsCrust.Latch
