import Mathlib.Data.List.Perm.Subperm
import NfsCrust.Lib.StateExcept
import NfsCrust.Rpc.Transport

/-!
# The map of pending calls

XIDs are drawn from a counter modulo `2 ^ 32` that leaves out zero, so fewer than
`2 ^ 32 - 1` calls have different ones.  Every entry of the map then belongs to one
call, for as long as the future of the call exists, and whoever takes its sender
can only give it a reply to its own request.

A call looks at `transport_closed` after it has registered and again after its
request is queued.  A call that awaits its reply therefore was in the map before the
transport was closed, and `fail_all`, which runs after that, has found it there.

## Main definitions

* `Machine.Drawn` — the XIDs of the calls.
* `Machine.Owned`, `Machine.Given`, `Machine.Closing`, `Machine.Unsent` — the entries
  of the map, the replies that were given out, the end of the transport, and the calls
  whose requests were queued.

## Main results

* `Machine.calls_answered` — what holds in every state of a connection.
-/

namespace NfsCrust.Rpc

open BigEndian
open Function (update update_self update_of_ne)

/-! ### Errors of the decoder -/

/-- The errors of a decoder do not say that a request was not sent. -/
def Sent {α : Type} (d : XdrM α) : Prop :=
  ∀ bs err, d.run bs = .error err → err.isRequestNotSent = false

section

variable {α β : Type}

theorem sent_pure (a : α) : Sent (pure a) := nofun

theorem Sent.bind {d : XdrM α} {f : α → XdrM β} (hd : Sent d) (hf : ∀ a, Sent (f a)) :
    Sent (d >>= f) := by
  intro bs err h
  cases hrun : d.run bs with
  | error err' =>
    rw [StateExcept.run_bind_error hrun] at h
    cases h
    exact hd bs err hrun
  | ok result =>
    rw [StateExcept.run_bind_ok hrun] at h
    exact hf _ _ _ h

theorem sent_throw {err : Error} (h : err.isRequestNotSent = false) : Sent (throw err : XdrM α) := by
  intro bs err' h'
  cases h'
  exact h

theorem sent_lift {x : Except Error α} (h : ∀ err, x = .error err → err.isRequestNotSent = false) :
    Sent (liftM x : XdrM α) := by
  intro bs err herr
  cases x with
  | error err' =>
    cases herr
    exact h _ rfl
  | ok a => cases herr

theorem sent_get : Sent (get : XdrM Bytes) := nofun

theorem sent_require (len : ℕ) : Sent (require len) := by
  refine sent_get.bind fun bs => ?_
  dsimp only
  split
  · exact sent_throw rfl
  · exact sent_pure ()

theorem sent_takeAfterRequire (take : Bytes → Option (α × Bytes)) :
    Sent (takeAfterRequire take) := by
  refine sent_get.bind fun bs => ?_
  split
  · exact Sent.bind (fun _ _ h => by cases h) fun _ => sent_pure _
  · exact sent_throw rfl

theorem sent_checkedAdd (a b : ℕ) (message : String) :
    Sent (liftM (checkedAdd a b message) : XdrM ℕ) := by
  refine sent_lift fun err h => ?_
  unfold checkedAdd at h
  split at h <;> cases h
  rfl

theorem sent_readU32Pair : Sent readU32Pair :=
  (sent_require 8).bind fun _ => (sent_takeAfterRequire _).bind fun _ =>
    (sent_takeAfterRequire _).bind fun _ => sent_pure _

theorem sent_decodeAcceptStat : Sent decodeAcceptStat := by
  refine Sent.bind ?_ fun (_, acceptStat) => ?_
  · refine sent_readU32Pair.bind fun (first, len) => ?_
    refine (sent_checkedAdd _ _ _).bind fun skipLen => (sent_checkedAdd _ _ _).bind fun _ => ?_
    exact (sent_require _).bind fun _ => Sent.bind
      ((sent_takeAfterRequire _).bind fun _ => sent_pure _) fun _ =>
        (sent_takeAfterRequire _).bind fun _ => sent_pure _
  · dsimp only
    split
    · exact sent_get
    · split
      · exact sent_throw rfl
      · split
        · exact sent_readU32Pair.bind fun _ => sent_throw rfl
        · repeat' split
          all_goals exact sent_throw rfl

theorem sent_decodeReplyFrom (xid : UInt32) : Sent (decodeReplyFrom xid) := by
  refine Sent.bind ?_ fun (_, _, _) => ?_
  · exact (sent_require 12).bind fun _ => (sent_takeAfterRequire _).bind fun _ =>
      (sent_takeAfterRequire _).bind fun _ => (sent_takeAfterRequire _).bind fun _ => sent_pure _
  · dsimp only
    split
    · exact sent_throw rfl
    · split
      · exact sent_throw rfl
      · split
        · exact sent_decodeAcceptStat
        · split <;> exact sent_throw rfl

/-- A reply is never taken for a request that was not sent. -/
theorem decodeReply_error {xid : UInt32} {response : Bytes} {err : Error}
    (h : decodeReply xid response = .error err) : err.isRequestNotSent = false := by
  unfold decodeReply at h
  cases hrun : (decodeReplyFrom xid).run response with
  | error err' =>
    rw [hrun] at h
    cases h
    exact sent_decodeReplyFrom xid response err hrun
  | ok result =>
    rw [hrun] at h
    cases h

end

namespace Pc

/-- The XID a call has drawn for its registration. -/
def drawn? : Pc → Option UInt32
  | inserting xid => some xid
  | pc => pc.xid?

/-- The call has not drawn an XID. -/
def early : Pc → Bool
  | idle | starting | drawing => true
  | redrawing | inserting _ | registered _ | sending _ | queued _ | awaiting _ | dropping ..
  | finished _ => false

/-- The call has not registered. -/
def unregistered : Pc → Bool
  | idle | starting | drawing | redrawing | inserting _ => true
  | registered _ | sending _ | queued _ | awaiting _ | dropping .. | finished _ => false

theorem drawn?_of_xid? {pc : Pc} {xid : UInt32} (h : pc.xid? = some xid) : pc.drawn? = some xid := by
  cases pc <;> first | exact h | cases h

theorem alive_of_xid? {pc : Pc} {xid : UInt32} (h : pc.xid? = some xid) : ¬ pc.alive = false := by
  cases pc <;> first | exact Bool.noConfusion | cases h

end Pc

namespace Machine

variable {m m' : Machine} {c d : ℕ} {a : Action}

theorem Move.xid? {pc pc' : Pc} {act : Act} (h : Move m c pc act pc') : pc'.xid? = pc.xid? := by
  cases h <;> rfl

theorem Move.not_idle {pc pc' : Pc} {act : Act} (h : Move m c pc act pc') :
    pc ≠ .idle ∧ pc' ≠ .idle := by
  cases h <;> exact ⟨nofun, nofun⟩

theorem Move.unregistered {pc pc' : Pc} {act : Act} (h : Move m c pc act pc')
    (hpc : pc.unregistered = false) : pc'.unregistered = false := by
  cases h <;> first | rfl | cases hpc

/-! ### XIDs -/

/-- The XIDs of the calls.  Each is the value of the counter after some draw. -/
structure Drawn (m : Machine) : Prop where
  counter : m.xid = m.stamp + .ofNat m.draws
  begun : ∀ c, c ∈ m.begun ↔ m.pc c ≠ .idle
  begun_nodup : m.begun.Nodup
  first : ∀ c ∈ m.first, (m.pc c).early = false
  first_nodup : m.first.Nodup
  count : m.draws = m.first.length + m.redrawn
  redrawn : m.redrawn ≤ m.zeros
  zeros : m.zeros ≤ 1
  zero : m.zeros = 1 → ∃ i, i ≤ m.draws ∧ m.stamp + .ofNat i = 0
  redrawing : ∀ c, m.pc c = .redrawing → c ∈ m.first ∧ m.zeros = 1 ∧ m.redrawn = 0
  alone : ∀ c d, m.pc c = .redrawing → m.pc d = .redrawing → c = d
  drawn : ∀ c ∈ m.first, m.draw c ≤ m.draws
  apart : ∀ c ∈ m.first, ∀ d ∈ m.first, m.draw c = m.draw d → c = d
  xid : ∀ c xid, (m.pc c).drawn? = some xid → c ∈ m.first ∧ xid = m.stamp + .ofNat (m.draw c)

theorem ofNat_inj_of_lt {stamp : UInt32} {i j : ℕ} (hi : i < 2 ^ 32) (hj : j < 2 ^ 32)
    (h : stamp + .ofNat i = stamp + .ofNat j) : i = j := by
  have hnat := congrArg UInt32.toNat h
  rw [UInt32.toNat_add, UInt32.toNat_add, UInt32.toNat_ofNat_of_lt' hi,
    UInt32.toNat_ofNat_of_lt' hj] at hnat
  omega

theorem Drawn.first_le (h : m.Drawn) : m.first.length ≤ m.begun.length := by
  refine (List.subperm_of_subset h.first_nodup fun c hc => (h.begun c).mpr fun hidle => ?_).length_le
  have := h.first c hc
  rw [hidle] at this
  cases this

theorem Drawn.draws_lt (h : m.Drawn) (hbound : m.begun.length < 2 ^ 32 - 1) : m.draws < 2 ^ 32 := by
  have h₁ := h.first_le
  have h₂ := h.count
  have h₃ := h.redrawn
  have h₄ := h.zeros
  omega

/-- Calls with the same XID are the same. -/
theorem Drawn.eq_of_xid {xid : UInt32} (h : m.Drawn) (hbound : m.begun.length < 2 ^ 32 - 1)
    (hc : (m.pc c).drawn? = some xid) (hd : (m.pc d).drawn? = some xid) : c = d := by
  obtain ⟨hc, hxid⟩ := h.xid c xid hc
  obtain ⟨hd, hxid'⟩ := h.xid d xid hd
  have hlt := h.draws_lt hbound
  refine h.apart c hc d hd (ofNat_inj_of_lt ?_ ?_ (hxid.symm.trans hxid'))
  · exact Nat.lt_of_le_of_lt (h.drawn c hc) hlt
  · exact Nat.lt_of_le_of_lt (h.drawn d hd) hlt

/-- A call goes on and draws nothing. -/
theorem Drawn.goto {pc : Pc} (h : m.Drawn) (hidle : pc ≠ .idle) (hbefore : m.pc c ≠ .idle)
    (hearly : pc.early = true → (m.pc c).early = true) (hredrawing : pc ≠ .redrawing)
    (hxid : ∀ xid, pc.drawn? = some xid → (m.pc c).drawn? = some xid) : (m.goto c pc).Drawn := by
  have hcases : ∀ d, d = c ∧ (m.goto c pc).pc d = pc ∨ d ≠ c ∧ (m.goto c pc).pc d = m.pc d := by
    intro d
    by_cases hd : d = c
    · exact Or.inl ⟨hd, by rw [hd, goto_pc_self]⟩
    · exact Or.inr ⟨hd, goto_pc_of_ne m pc hd⟩
  refine ⟨h.counter, fun d => ?_, h.begun_nodup, fun d hd => ?_, h.first_nodup, h.count, h.redrawn,
    h.zeros, h.zero, fun d hd => ?_, fun d e hd he => ?_, h.drawn, h.apart, fun d xid hd => ?_⟩
  · rcases hcases d with ⟨rfl, hpc⟩ | ⟨-, hpc⟩
    · rw [hpc]
      exact iff_of_true ((h.begun d).mpr hbefore) hidle
    · rw [hpc]
      exact h.begun d
  · have hlate := h.first d hd
    rcases hcases d with ⟨rfl, hpc⟩ | ⟨-, hpc⟩
    · rw [hpc, ← Bool.not_eq_true]
      intro hnew
      rw [hearly hnew] at hlate
      cases hlate
    · rw [hpc]
      exact hlate
  · rcases hcases d with ⟨rfl, hpc⟩ | ⟨-, hpc⟩
    · exact absurd (hpc.symm.trans hd) hredrawing
    · exact h.redrawing d (hpc.symm.trans hd)
  · rcases hcases d with ⟨rfl, hpc⟩ | ⟨-, hpc⟩
    · exact absurd (hpc.symm.trans hd) hredrawing
    · rcases hcases e with ⟨rfl, hpc'⟩ | ⟨-, hpc'⟩
      · exact absurd (hpc'.symm.trans he) hredrawing
      · exact h.alone d e (hpc.symm.trans hd) (hpc'.symm.trans he)
  · rcases hcases d with ⟨rfl, hpc⟩ | ⟨-, hpc⟩
    · rw [hpc] at hd
      exact h.xid d xid (hxid xid hd)
    · rw [hpc] at hd
      exact h.xid d xid hd

/-- A call draws an XID. -/
theorem Drawn.fetchAdd {pc : Pc} (h : m.Drawn) (first : List ℕ) (redrawn zeros : ℕ)
    (hfirst : ∀ d, d ∈ first ↔ d = c ∨ d ∈ m.first) (hnodup : first.Nodup)
    (hbefore : m.pc c ≠ .idle) (hlate : pc.early = false)
    (hcount : m.draws + 1 = first.length + redrawn) (hredrawn : redrawn ≤ zeros)
    (hzeros : zeros ≤ 1) (hzero : zeros = 1 → ∃ i, i ≤ m.draws + 1 ∧ m.stamp + .ofNat i = 0)
    (hredrawing : ∀ d, update m.pc c pc d = .redrawing → zeros = 1 ∧ redrawn = 0)
    (halone : ∀ d e, update m.pc c pc d = .redrawing → update m.pc c pc e = .redrawing → d = e)
    (hxid : ∀ xid, pc.drawn? = some xid → xid = m.xid + 1) :
    ({ m.fetchAdd c with first := first, redrawn := redrawn, zeros := zeros }.goto c pc).Drawn := by
  have hidle : pc ≠ .idle := by
    rintro rfl
    cases hlate
  have hcounter : m.xid + 1 = m.stamp + .ofNat (m.draws + 1) := by
    rw [h.counter, UInt32.ofNat_add, UInt32.add_assoc]
    rfl
  have hself : update m.draw c (m.draws + 1) c = m.draws + 1 := update_self ..
  have hother : ∀ d ≠ c, update m.draw c (m.draws + 1) d = m.draw d := fun d hd =>
    update_of_ne hd ..
  have hin : ∀ d ≠ c, d ∈ first → d ∈ m.first := fun d hd hmem =>
    ((hfirst d).mp hmem).resolve_left hd
  constructor
  case counter => exact hcounter
  case begun =>
    intro d
    change d ∈ m.begun ↔ update m.pc c pc d ≠ .idle
    by_cases hd : d = c
    · subst hd
      rw [update_self]
      exact iff_of_true ((h.begun d).mpr hbefore) hidle
    · rw [update_of_ne hd]
      exact h.begun d
  case begun_nodup => exact h.begun_nodup
  case first =>
    intro d hd
    change (update m.pc c pc d).early = false
    by_cases hdc : d = c
    · subst hdc
      rw [update_self, hlate]
    · rw [update_of_ne hdc]
      exact h.first d (hin d hdc hd)
  case first_nodup => exact hnodup
  case count => exact hcount
  case redrawn => exact hredrawn
  case zeros => exact hzeros
  case zero => exact hzero
  case redrawing =>
    intro d hd
    refine ⟨(hfirst d).mpr ?_, hredrawing d hd⟩
    by_cases hdc : d = c
    · exact Or.inl hdc
    · exact Or.inr (h.redrawing d ((update_of_ne hdc ..).symm.trans hd)).1
  case alone => exact halone
  case drawn =>
    intro d hd
    change update m.draw c (m.draws + 1) d ≤ m.draws + 1
    by_cases hdc : d = c
    · exact Nat.le_of_eq (by rw [hdc, hself])
    · rw [hother d hdc]
      exact Nat.le_succ_of_le (h.drawn d (hin d hdc hd))
  case apart =>
    intro d hd e he heq
    change update m.draw c (m.draws + 1) d = update m.draw c (m.draws + 1) e at heq
    -- the latest draw is later than all before
    by_cases hdc : d = c <;> by_cases hec : e = c
    · exact hdc.trans hec.symm
    · rw [hdc, hself, hother e hec] at heq
      have := h.drawn e (hin e hec he)
      omega
    · rw [hec, hself, hother d hdc] at heq
      have := h.drawn d (hin d hdc hd)
      omega
    · rw [hother d hdc, hother e hec] at heq
      exact h.apart d (hin d hdc hd) e (hin e hec he) heq
  case xid =>
    intro d xid hd
    change (update m.pc c pc d).drawn? = some xid at hd
    change d ∈ first ∧ xid = m.stamp + .ofNat (update m.draw c (m.draws + 1) d)
    by_cases hdc : d = c
    · subst hdc
      rw [update_self] at hd
      rw [hself, hxid xid hd]
      exact ⟨(hfirst d).mpr (Or.inl rfl), hcounter⟩
    · rw [update_of_ne hdc] at hd
      obtain ⟨hmem, hxid⟩ := h.xid d xid hd
      rw [hother d hdc]
      exact ⟨(hfirst d).mpr (Or.inr hmem), hxid⟩

/-- The first draw of a call is one of fewer than `2 ^ 32`. -/
theorem Drawn.draw_lt (h : m.Drawn) (hbound : m.begun.length < 2 ^ 32 - 1)
    (hpc : m.pc c = .drawing) : c ∉ m.first ∧ m.draws + 1 < 2 ^ 32 := by
  have hnew : c ∉ m.first := by
    intro hc
    have := h.first c hc
    rw [hpc] at this
    cases this
  have hle : (c :: m.first).length ≤ m.begun.length := by
    refine (List.subperm_of_subset (List.nodup_cons.mpr ⟨hnew, h.first_nodup⟩) ?_).length_le
    intro d hd
    refine (h.begun d).mpr fun hidle => ?_
    rcases List.mem_cons.mp hd with rfl | hd
    · rw [hpc] at hidle
      cases hidle
    · have := h.first d hd
      rw [hidle] at this
      cases this
  have h₁ := h.count
  have h₂ := h.redrawn
  have h₃ := h.zeros
  rw [List.length_cons] at hle
  exact ⟨hnew, by omega⟩

theorem Drawn.draw (h : m.Drawn) (hbound : m.begun.length < 2 ^ 32 - 1)
    (hpc : m.pc c = .drawing) :
    ({ m.fetchAdd c with first := c :: m.first }.goto c (.inserting (m.xid + 1))).Drawn := by
  obtain ⟨hnew, -⟩ := h.draw_lt hbound hpc
  have hredrawing : ∀ d, update m.pc c (.inserting (m.xid + 1)) d = .redrawing →
      m.pc d = .redrawing := by
    intro d hd
    by_cases hdc : d = c
    · rw [hdc, update_self] at hd
      cases hd
    · rwa [update_of_ne hdc] at hd
  refine h.fetchAdd (c :: m.first) m.redrawn m.zeros (fun d => List.mem_cons)
    (List.nodup_cons.mpr ⟨hnew, h.first_nodup⟩) (by rw [hpc]; exact nofun) rfl ?_ h.redrawn h.zeros
    ?_ ?_ ?_ ?_
  · have := h.count
    rw [List.length_cons]
    omega
  · intro hone
    obtain ⟨i, hi, hzero⟩ := h.zero hone
    exact ⟨i, Nat.le_succ_of_le hi, hzero⟩
  · exact fun d hd => (h.redrawing d (hredrawing d hd)).2
  · exact fun d e hd he => h.alone d e (hredrawing d hd) (hredrawing e he)
  · rintro xid ⟨⟩
    rfl

/-- Zero is drawn for the first time. -/
theorem Drawn.drawZero (h : m.Drawn) (hbound : m.begun.length < 2 ^ 32 - 1)
    (hpc : m.pc c = .drawing) (hxid : m.xid + 1 = 0) :
    ({ m.fetchAdd c with first := c :: m.first, zeros := m.zeros + 1 }.goto c .redrawing).Drawn := by
  obtain ⟨hnew, hlt⟩ := h.draw_lt hbound hpc
  have hcounter : m.stamp + .ofNat (m.draws + 1) = 0 := by
    rw [← hxid, h.counter, UInt32.ofNat_add, UInt32.add_assoc]
    rfl
  have hzeros : m.zeros = 0 := by
    have hle := h.zeros
    by_contra hne
    obtain ⟨i, hi, hzero⟩ := h.zero (by omega)
    have := ofNat_inj_of_lt (by omega) hlt (hzero.trans hcounter.symm)
    omega
  have hredrawn : m.redrawn = 0 := Nat.le_zero.mp (hzeros ▸ h.redrawn)
  have hredrawing : ∀ d, update m.pc c .redrawing d = .redrawing → d = c := by
    intro d hd
    by_contra hdc
    rw [update_of_ne hdc] at hd
    have := (h.redrawing d hd).2.1
    omega
  refine h.fetchAdd (c :: m.first) m.redrawn (m.zeros + 1) (fun d => List.mem_cons)
    (List.nodup_cons.mpr ⟨hnew, h.first_nodup⟩) (by rw [hpc]; exact nofun) rfl ?_ (by omega)
    (by omega) ?_ ?_ ?_ nofun
  · have := h.count
    rw [List.length_cons]
    omega
  · exact fun _ => ⟨_, Nat.le_refl _, hcounter⟩
  · exact fun d _ => ⟨by omega, hredrawn⟩
  · exact fun d e hd he => (hredrawing d hd).trans (hredrawing e he).symm

theorem Drawn.redraw (h : m.Drawn) (hpc : m.pc c = .redrawing) :
    ({ m.fetchAdd c with redrawn := m.redrawn + 1 }.goto c (.inserting (m.xid + 1))).Drawn := by
  obtain ⟨hmem, hzeros, hredrawn⟩ := h.redrawing c hpc
  have hnone : ∀ d, update m.pc c (.inserting (m.xid + 1)) d ≠ .redrawing := by
    intro d hd
    by_cases hdc : d = c
    · rw [hdc, update_self] at hd
      cases hd
    · rw [update_of_ne hdc] at hd
      exact hdc (h.alone d c hd hpc)
  refine h.fetchAdd m.first (m.redrawn + 1) m.zeros (fun d => ?_) h.first_nodup
    (by rw [hpc]; exact nofun) rfl ?_ (by omega) h.zeros ?_ ?_ ?_ ?_
  · exact ⟨Or.inr, fun hd => hd.elim (fun heq => heq ▸ hmem) id⟩
  · have := h.count
    omega
  · intro hone
    obtain ⟨i, hi, hzero⟩ := h.zero hone
    exact ⟨i, Nat.le_succ_of_le hi, hzero⟩
  · exact fun d hd => absurd hd (hnone d)
  · exact fun d _ hd => absurd hd (hnone d)
  · rintro xid ⟨⟩
    rfl

/-! ### Entries -/

/-- Every entry of the map is that of a registered call. -/
structure Owned (m : Machine) : Prop where
  owner : ∀ p ∈ m.pending, ∃ c, (m.pc c).xid? = some p.xid
  sender : ∀ p ∈ m.pending, ∀ c, p.tx = some c → (m.pc c).xid? = some p.xid

theorem xid?_goto {pc : Pc} (hxid : pc.xid? = (m.pc c).xid?) (d : ℕ) :
    ((m.goto c pc).pc d).xid? = (m.pc d).xid? := by
  by_cases hd : d = c
  · rw [hd, goto_pc_self, hxid]
  · rw [goto_pc_of_ne m pc hd]

/-- The registrations stay, and the entries are among those that were there. -/
theorem Owned.mono (h : m.Owned) (hpc : ∀ c, (m'.pc c).xid? = (m.pc c).xid?)
    (hpending : ∀ p ∈ m'.pending, ∃ q ∈ m.pending, q.xid = p.xid ∧ (p.tx = none ∨ p.tx = q.tx)) :
    m'.Owned := by
  refine ⟨fun p hp => ?_, fun p hp c hc => ?_⟩
  · obtain ⟨q, hq, hxid, -⟩ := hpending p hp
    obtain ⟨c, hc⟩ := h.owner q hq
    exact ⟨c, by rw [hpc, hc, hxid]⟩
  · obtain ⟨q, hq, hxid, hnone | hsame⟩ := hpending p hp
    · rw [hnone] at hc
      cases hc
    · rw [hpc, h.sender q hq c (hsame ▸ hc), hxid]

theorem mem_self {p : PendingCall} (hp : p ∈ m.pending) :
    ∃ q ∈ m.pending, q.xid = p.xid ∧ (p.tx = none ∨ p.tx = q.tx) :=
  ⟨p, hp, rfl, Or.inr rfl⟩

/-- The entries after the reader took a sender. -/
theorem mem_take {xid : UInt32} {p : PendingCall} (hp : p ∈ (m.take xid).pending) :
    ∃ q ∈ m.pending, q.xid = p.xid ∧ (p.tx = none ∨ p.xid ≠ xid ∧ p = q) := by
  obtain ⟨q, hq, rfl⟩ := List.mem_map.mp hp
  refine ⟨q, hq, ?_⟩
  split
  · exact ⟨rfl, Or.inl rfl⟩
  · next hne => exact ⟨rfl, Or.inr ⟨hne, rfl⟩⟩

theorem mem_remove {xid : UInt32} {p : PendingCall} (hp : p ∈ (m.remove xid).pending) :
    p ∈ m.pending ∧ p.xid ≠ xid := by
  obtain ⟨hmem, hne⟩ := List.mem_filter.mp hp
  exact ⟨hmem, bne_iff_ne.mp hne⟩

theorem Owned.insert {xid : UInt32} (h : m.Owned) (hpc : m.pc c = .inserting xid) :
    ((m.insert c xid).goto c (.registered xid)).Owned := by
  -- the calls that are registered already stay as they are
  have hother : ∀ d xid', (m.pc d).xid? = some xid' →
      (((m.insert c xid).goto c (.registered xid)).pc d).xid? = some xid' := by
    intro d xid' hd
    have hdc : d ≠ c := by
      rintro rfl
      rw [hpc] at hd
      cases hd
    rw [goto_pc_of_ne _ _ hdc]
    exact hd
  refine ⟨fun p hp => ?_, fun p hp d hd => ?_⟩
  · rcases List.mem_cons.mp hp with rfl | hp
    · exact ⟨c, by rw [goto_pc_self]; rfl⟩
    · obtain ⟨d, hd⟩ := h.owner p hp
      exact ⟨d, hother d _ hd⟩
  · rcases List.mem_cons.mp hp with rfl | hp
    · cases hd
      rw [goto_pc_self]
      rfl
    · exact hother d _ (h.sender p hp d hd)

theorem Owned.drop {xid : UInt32} {result : Option (Except Error Bytes)} (h : m.Owned)
    (hpc : m.pc c = .dropping xid result) : ((m.remove xid).goto c (.finished result)).Owned := by
  have hother : ∀ d xid', xid' ≠ xid → (m.pc d).xid? = some xid' →
      (((m.remove xid).goto c (.finished result)).pc d).xid? = some xid' := by
    intro d xid' hne hd
    have hdc : d ≠ c := by
      rintro rfl
      rw [hpc] at hd
      cases hd
      exact hne rfl
    rw [goto_pc_of_ne _ _ hdc]
    exact hd
  refine ⟨fun p hp => ?_, fun p hp d hd => ?_⟩
  · obtain ⟨hp, hne⟩ := mem_remove hp
    obtain ⟨d, hd⟩ := h.owner p hp
    exact ⟨d, hother d _ hne hd⟩
  · obtain ⟨hp, hne⟩ := mem_remove hp
    exact hother d _ hne (h.sender p hp d hd)

/-- No entry has the XID a call is about to register under. -/
theorem Owned.not_contains {xid : UInt32} (h : m.Owned) (hdrawn : m.Drawn)
    (hbound : m.begun.length < 2 ^ 32 - 1) (hpc : m.pc c = .inserting xid) :
    m.contains xid = false := by
  rw [← Bool.not_eq_true]
  intro hcontains
  obtain ⟨p, hp, hxid⟩ := List.any_eq_true.mp hcontains
  obtain ⟨d, hd⟩ := h.owner p hp
  rw [beq_iff_eq.mp hxid] at hd
  have hsame := hdrawn.eq_of_xid hbound (Pc.drawn?_of_xid? hd) (by rw [hpc]; rfl)
  rw [hsame, hpc] at hd
  cases hd

theorem Owned.step (h : m.Owned) (hstep : m.step a = some m') : m'.Owned := by
  cases step_does hstep with
  | start hpc => exact h.mono (xid?_goto (by rw [hpc]; rfl)) fun _ => mem_self
  | move hmove => exact h.mono (xid?_goto hmove.xid?) fun _ => mem_self
  | draw hpc | drawZero hpc | redraw hpc =>
    exact h.mono (xid?_goto (by rw [fetchAdd, hpc]; rfl)) fun _ => mem_self
  | insert hpc => exact h.insert hpc
  | enqueue hpc => exact h.mono (xid?_goto (by rw [enqueue, hpc]; rfl)) fun _ => mem_self
  | drop hpc => exact h.drop hpc
  | take =>
    refine h.mono (fun _ => rfl) fun p hp => ?_
    obtain ⟨q, hq, hxid, hnone | ⟨-, rfl⟩⟩ := mem_take hp
    · exact ⟨q, hq, hxid, Or.inl hnone⟩
    · exact mem_self hq
  | readerFail | writerFail => exact ⟨nofun, nofun⟩
  | _ => exact h.mono (fun _ => rfl) fun _ => mem_self

/-- Nothing but a draw changes what is known of the XIDs. -/
theorem Drawn.of_eq (h : m.Drawn) (hpc : m'.pc = m.pc) (hxid : m'.xid = m.xid)
    (hstamp : m'.stamp = m.stamp) (hbegun : m'.begun = m.begun) (hfirst : m'.first = m.first)
    (hredrawn : m'.redrawn = m.redrawn) (hzeros : m'.zeros = m.zeros) (hdraws : m'.draws = m.draws)
    (hdraw : m'.draw = m.draw) : m'.Drawn := by
  cases m
  cases m'
  subst hpc hxid hstamp hbegun hfirst hredrawn hzeros hdraws hdraw
  exact ⟨h.counter, h.begun, h.begun_nodup, h.first, h.first_nodup, h.count, h.redrawn, h.zeros,
    h.zero, h.redrawing, h.alone, h.drawn, h.apart, h.xid⟩

theorem Drawn.start (h : m.Drawn) (hpc : m.pc c = .idle) :
    ({ m with begun := c :: m.begun }.goto c .starting).Drawn := by
  have hcases : ∀ d, d = c ∧ update m.pc c .starting d = .starting ∨
      d ≠ c ∧ update m.pc c .starting d = m.pc d := by
    intro d
    by_cases hd : d = c
    · exact Or.inl ⟨hd, by rw [hd, update_self]⟩
    · exact Or.inr ⟨hd, update_of_ne hd ..⟩
  have hback : ∀ d pc, update m.pc c .starting d = pc → pc ≠ .starting → m.pc d = pc := by
    intro d pc hd hne
    rcases hcases d with ⟨-, hpc'⟩ | ⟨-, hpc'⟩
    · exact absurd (hd.symm.trans hpc') hne
    · exact hpc'.symm.trans hd
  refine ⟨h.counter, fun d => ?_, ?_, fun d hd => ?_, h.first_nodup, h.count, h.redrawn, h.zeros,
    h.zero, fun d hd => h.redrawing d (hback d _ hd nofun),
    fun d e hd he => h.alone d e (hback d _ hd nofun) (hback e _ he nofun), h.drawn, h.apart,
    fun d xid hd => ?_⟩
  · change d ∈ c :: m.begun ↔ update m.pc c .starting d ≠ .idle
    rcases hcases d with ⟨rfl, hpc'⟩ | ⟨hdc, hpc'⟩
    · rw [hpc']
      exact iff_of_true List.mem_cons_self nofun
    · rw [hpc', List.mem_cons, or_iff_right hdc]
      exact h.begun d
  · exact List.nodup_cons.mpr ⟨fun hmem => (h.begun c).mp hmem hpc, h.begun_nodup⟩
  · have hlate := h.first d hd
    change (update m.pc c .starting d).early = false
    rcases hcases d with ⟨rfl, -⟩ | ⟨-, hpc'⟩
    · rw [hpc] at hlate
      cases hlate
    · rw [hpc', hlate]
  · change (update m.pc c .starting d).drawn? = some xid at hd
    rcases hcases d with ⟨rfl, hpc'⟩ | ⟨-, hpc'⟩
    · rw [hpc'] at hd
      cases hd
    · rw [hpc'] at hd
      exact h.xid d xid hd

theorem Drawn.move {pc : Pc} {act : Act} (h : m.Drawn) (howned : m.Owned)
    (hbound : m.begun.length < 2 ^ 32 - 1) (hmove : Move m c (m.pc c) act pc) :
    (m.goto c pc).Drawn := by
  obtain ⟨hbefore, hidle⟩ := hmove.not_idle
  generalize hpc : m.pc c = before at hmove
  -- no call draws again because its XID is taken
  cases hmove with
  | collide hcontains =>
    rw [howned.not_contains h hbound hpc] at hcontains
    cases hcontains
  | proceed => exact h.goto hidle hbefore (by rw [hpc]; exact fun _ => rfl) nofun nofun
  | _ => exact h.goto hidle hbefore (by rw [hpc]; exact nofun) nofun (by rw [hpc]; exact fun _ => id)

theorem Drawn.step (h : m.Drawn) (howned : m.Owned) (hbound : m.begun.length < 2 ^ 32 - 1)
    (hstep : m.step a = some m') : m'.Drawn := by
  cases step_does hstep with
  | start hpc => exact h.start hpc
  | move hmove => exact h.move howned hbound hmove
  | draw hpc => exact h.draw hbound hpc
  | drawZero hpc hxid => exact h.drawZero hbound hpc hxid
  | redraw hpc => exact h.redraw hpc
  | @insert c xid hpc =>
    have h' : (m.insert c xid).Drawn := h.of_eq rfl rfl rfl rfl rfl rfl rfl rfl rfl
    have hpc' : (m.insert c xid).pc c = .inserting xid := hpc
    exact h'.goto nofun (hpc' ▸ nofun) nofun nofun (by rw [hpc']; exact fun _ => id)
  | @enqueue c xid hpc =>
    have h' : (m.enqueue ⟨c, xid⟩).Drawn := h.of_eq rfl rfl rfl rfl rfl rfl rfl rfl rfl
    have hpc' : (m.enqueue ⟨c, xid⟩).pc c = .sending xid := hpc
    exact h'.goto nofun (hpc' ▸ nofun) nofun nofun (by rw [hpc']; exact fun _ => id)
  | @drop c xid result hpc =>
    have h' : (m.remove xid).Drawn := h.of_eq rfl rfl rfl rfl rfl rfl rfl rfl rfl
    have hpc' : (m.remove xid).pc c = .dropping xid result := hpc
    exact h'.goto nofun (hpc' ▸ nofun) nofun nofun nofun
  | _ => exact h.of_eq rfl rfl rfl rfl rfl rfl rfl rfl rfl

/-! ### Requests -/

/-- The XIDs in the requests of the calls. -/
structure Carried (m : Machine) : Prop where
  xid : ∀ c xid, (m.pc c).xid? = some xid → m.carried c = some xid
  settled : ∀ c xid, m.carried c = some xid → (m.pc c).unregistered = false
  entered : ∀ request ∈ m.entered, m.carried request.call = some request.xid
  queue : ∀ request ∈ m.queue, request ∈ m.entered
  batch : ∀ batch, m.writer = .writing batch → ∀ request ∈ batch, request ∈ m.entered
  wire : ∀ request ∈ m.wire, request ∈ m.entered

/-- A call goes on, and its request is what it was. -/
theorem Carried.goto {pc : Pc} (h : m.Carried) (hpc : m'.pc = update m.pc c pc)
    (hxid : ∀ xid, pc.xid? = some xid → (m.pc c).xid? = some xid)
    (hunregistered : (m.pc c).unregistered = false → pc.unregistered = false)
    (hcarried : m'.carried = m.carried) (hentered : m'.entered = m.entered)
    (hqueue : m'.queue = m.queue) (hwriter : m'.writer = m.writer) (hwire : m'.wire = m.wire) :
    m'.Carried := by
  have hcases : ∀ d, d = c ∧ m'.pc d = pc ∨ m'.pc d = m.pc d := by
    intro d
    rw [hpc]
    by_cases hd : d = c
    · exact Or.inl ⟨hd, by rw [hd, update_self]⟩
    · exact Or.inr (update_of_ne hd ..)
  refine ⟨fun d xid hd => ?_, fun d xid hd => ?_, ?_, ?_, ?_, ?_⟩
  · rw [hcarried]
    rcases hcases d with ⟨rfl, hpc'⟩ | hpc'
    · exact h.xid d xid (hxid xid (hpc' ▸ hd))
    · exact h.xid d xid (hpc' ▸ hd)
  · rw [hcarried] at hd
    rcases hcases d with ⟨rfl, hpc'⟩ | hpc'
    · rw [hpc']
      exact hunregistered (h.settled d xid hd)
    · rw [hpc']
      exact h.settled d xid hd
  · rw [hentered, hcarried]
    exact h.entered
  · rw [hqueue, hentered]
    exact h.queue
  · rw [hwriter, hentered]
    exact h.batch
  · rw [hwire, hentered]
    exact h.wire

theorem Carried.insert {xid : UInt32} (h : m.Carried) (hpc : m.pc c = .inserting xid) :
    ((m.insert c xid).goto c (.registered xid)).Carried := by
  have hnone : ∀ d xid', m.carried d = some xid' → d ≠ c := by
    rintro d xid' hd rfl
    have := h.settled d xid' hd
    rw [hpc] at this
    cases this
  have hother : ∀ d ≠ c, update m.carried c (some xid) d = m.carried d := fun d hd =>
    update_of_ne hd ..
  refine ⟨fun d xid' hd => ?_, fun d xid' hd => ?_, fun request hrequest => ?_, h.queue, h.batch,
    h.wire⟩
  · change update m.carried c (some xid) d = some xid'
    by_cases hdc : d = c
    · subst hdc
      rw [goto_pc_self] at hd
      rw [update_self]
      exact hd
    · rw [goto_pc_of_ne _ _ hdc] at hd
      rw [hother d hdc]
      exact h.xid d xid' hd
  · change update m.carried c (some xid) d = some xid' at hd
    by_cases hdc : d = c
    · rw [hdc, goto_pc_self]
      rfl
    · rw [hother d hdc] at hd
      rw [goto_pc_of_ne _ _ hdc]
      exact h.settled d xid' hd
  · change update m.carried c (some xid) request.call = some request.xid
    have hentered := h.entered request hrequest
    rw [hother _ (hnone _ _ hentered), hentered]

theorem Carried.enqueue {xid : UInt32} (h : m.Carried) (hpc : m.pc c = .sending xid) :
    ((m.enqueue ⟨c, xid⟩).goto c (.queued xid)).Carried := by
  have hxid : m.carried c = some xid := h.xid c xid (by rw [hpc]; rfl)
  have hgoto : (m.goto c (.queued xid)).Carried :=
    h.goto rfl (by rw [hpc]; exact fun _ => id) (fun _ => rfl) rfl rfl rfl rfl rfl
  refine ⟨hgoto.xid, hgoto.settled, fun request hrequest => ?_, fun request hrequest => ?_,
    fun batch hbatch request hrequest => ?_, fun request hrequest => ?_⟩
  · rcases List.mem_cons.mp hrequest with rfl | hrequest
    · exact hxid
    · exact h.entered request hrequest
  · rcases List.mem_append.mp hrequest with hrequest | hrequest
    · exact List.mem_cons_of_mem _ (h.queue request hrequest)
    · cases List.mem_singleton.mp hrequest
      exact List.mem_cons_self
  · exact List.mem_cons_of_mem _ (h.batch batch hbatch request hrequest)
  · exact List.mem_cons_of_mem _ (h.wire request hrequest)

theorem Carried.step (h : m.Carried) (hstep : m.step a = some m') : m'.Carried := by
  cases step_does hstep with
  | start hpc => exact h.goto rfl nofun (by rw [hpc]; exact nofun) rfl rfl rfl rfl rfl
  | move hmove =>
    exact h.goto rfl (by rw [hmove.xid?]; exact fun _ => id) hmove.unregistered rfl rfl rfl rfl rfl
  | draw hpc | drawZero hpc | redraw hpc =>
    exact h.goto rfl nofun (by rw [hpc]; exact nofun) rfl rfl rfl rfl rfl
  | insert hpc => exact h.insert hpc
  | enqueue hpc => exact h.enqueue hpc
  | drop hpc => exact h.goto rfl nofun (fun _ => rfl) rfl rfl rfl rfl rfl
  | writerReceive =>
    refine ⟨h.xid, h.settled, h.entered, fun request hrequest => ?_, ?_, h.wire⟩
    · exact h.queue request (List.mem_of_mem_drop hrequest)
    · rintro batch ⟨⟩ request hrequest
      exact h.queue request (List.mem_of_mem_take hrequest)
  | written hwriter =>
    refine ⟨h.xid, h.settled, h.entered, h.queue, nofun, fun request hrequest => ?_⟩
    rcases List.mem_append.mp hrequest with hrequest | hrequest
    · exact h.wire request hrequest
    · exact h.batch _ hwriter request hrequest
  | writerFail => exact ⟨h.xid, h.settled, h.entered, nofun, nofun, h.wire⟩
  | writeError | writerClose => exact ⟨h.xid, h.settled, h.entered, h.queue, nofun, h.wire⟩
  | _ => exact ⟨h.xid, h.settled, h.entered, h.queue, h.batch, h.wire⟩

/-! ### Replies -/

/-- The calls that were given a record. -/
def givenTo (m : Machine) : List ℕ := m.delivered.map (·.2.2)

/-- The reader has a record in its hands. -/
inductive Reading : Reader → ℕ → UInt32 → Bytes → Prop
  | taking {record : ℕ} {xid : UInt32} {response : Bytes} :
      Reading (.taking record xid response) record xid response
  | holding {record : ℕ} {xid : UInt32} {response : Bytes} {call : ℕ} :
      Reading (.holding record xid response call) record xid response

/-- The record was read and its XID is the given one. -/
def IsRecord (m : Machine) (record : ℕ) (xid : UInt32) : Prop :=
  ∃ response, m.records[record]? = some response ∧ peekXid response = .ok xid

/-- The replies that were given out. -/
structure Given (m : Machine) : Prop where
  senders : ∀ p ∈ m.pending, ∀ c, p.tx = some c → c ∉ m.givenTo ∧
    ∀ record xid response, m.reader ≠ .holding record xid response c
  reading : ∀ record xid response, Reading m.reader record xid response →
    record + 1 = m.records.length ∧ m.IsRecord record xid ∧ ∀ r ∈ m.delivered, r.1 < record
  holding : ∀ record xid response c, m.reader = .holding record xid response c →
    m.carried c = some xid ∧ c ∉ m.givenTo
  given : ∀ r ∈ m.delivered, r.1 < m.records.length ∧ m.IsRecord r.1 r.2.1 ∧
    m.carried r.2.2 = some r.2.1
  records_nodup : (m.delivered.map (·.1)).Nodup
  calls_nodup : m.givenTo.Nodup

theorem Given.carried_ne (h : m.Given) (hc : c ∈ m.givenTo) : m.carried c ≠ none := by
  obtain ⟨r, hr, rfl⟩ := List.mem_map.mp hc
  rw [(h.given r hr).2.2]
  exact nofun

/-- Nothing is read or given out, and the senders in the map are those that were there,
or that of a call which has not been in it. -/
theorem Given.mono (h : m.Given) (hdelivered : m'.delivered = m.delivered)
    (hrecords : m'.records = m.records)
    (hcarried : ∀ c xid, m.carried c = some xid → m'.carried c = some xid)
    (hreader : m'.reader = m.reader ∨ ∀ record xid response, ¬ Reading m'.reader record xid response)
    (hpending : ∀ p ∈ m'.pending, ∀ c, p.tx = some c →
      (∃ q ∈ m.pending, q.tx = some c) ∨ m.carried c = none) : m'.Given := by
  have hgiven : m'.givenTo = m.givenTo := by
    rw [givenTo, givenTo, hdelivered]
  have hisRecord : ∀ record xid, m.IsRecord record xid → m'.IsRecord record xid := by
    intro record xid ⟨response, hrecord, hxid⟩
    exact ⟨response, hrecords ▸ hrecord, hxid⟩
  have hholding : ∀ record xid response c, m'.reader = .holding record xid response c →
      m.reader = .holding record xid response c := by
    intro record xid response c hc
    rcases hreader with heq | hnone
    · exact heq.symm.trans hc
    · exact absurd (hc ▸ Reading.holding) (hnone record xid response)
  refine ⟨fun p hp c hc => ?_, fun record xid response hreading => ?_,
    fun record xid response c hc => ?_, fun r hr => ?_, hdelivered ▸ h.records_nodup,
    hgiven ▸ h.calls_nodup⟩
  · rw [hgiven]
    rcases hpending p hp c hc with ⟨q, hq, hqc⟩ | hnone
    · obtain ⟨hnot, hheld⟩ := h.senders q hq c hqc
      exact ⟨hnot, fun record xid response hc => hheld _ _ _ (hholding record xid response c hc)⟩
    · refine ⟨fun hmem => h.carried_ne hmem hnone, fun record xid response hc => ?_⟩
      have := (h.holding _ _ _ _ (hholding record xid response c hc)).1
      rw [hnone] at this
      cases this
  · rcases hreader with heq | hnone
    · obtain ⟨hlength, hrecord, hlt⟩ := h.reading record xid response (heq ▸ hreading)
      rw [hrecords, hdelivered]
      exact ⟨hlength, hisRecord _ _ hrecord, hlt⟩
    · exact absurd hreading (hnone record xid response)
  · obtain ⟨hxid, hnot⟩ := h.holding _ _ _ _ (hholding record xid response c hc)
    rw [hgiven]
    exact ⟨hcarried c xid hxid, hnot⟩
  · obtain ⟨hlt, hrecord, hxid⟩ := h.given r (hdelivered ▸ hr)
    rw [hrecords]
    exact ⟨hlt, hisRecord _ _ hrecord, hcarried _ _ hxid⟩

theorem IsRecord.append {record : ℕ} {xid : UInt32} (response : Bytes) {reader : Reader}
    (h : m.IsRecord record xid) :
    { m with records := m.records ++ [response], reader := reader }.IsRecord record xid := by
  obtain ⟨found, hfound, hxid⟩ := h
  exact ⟨found, List.getElem?_append_left (List.getElem?_eq_some_iff.mp hfound).1 ▸ hfound, hxid⟩

theorem Given.record {response : Bytes} {reader : Reader} (h : m.Given)
    (hnext : (∃ xid, peekXid response = .ok xid ∧
      reader = .taking m.records.length xid response) ∨ ∃ err, reader = .closing err) :
    { m with records := m.records ++ [response], reader := reader }.Given := by
  have hnot : ∀ record xid response c, reader ≠ .holding record xid response c := by
    rintro record xid response c rfl
    obtain ⟨_, -, h⟩ | ⟨_, h⟩ := hnext <;> cases h
  refine ⟨fun p hp c hc => ⟨(h.senders p hp c hc).1, fun _ _ _ => hnot _ _ _ _⟩, ?_,
    fun _ _ _ _ hc => absurd hc (hnot _ _ _ _), fun r hr => ?_, h.records_nodup, h.calls_nodup⟩
  · intro record xid found hreading
    change Reading reader record xid found at hreading
    obtain ⟨xid', hpeek, rfl⟩ | ⟨err, rfl⟩ := hnext
    · cases hreading
      have hlength : (m.records ++ [response]).length = m.records.length + 1 := List.length_append
      refine ⟨hlength.symm, ⟨response, List.getElem?_concat_length, hpeek⟩, fun r hr => ?_⟩
      exact (h.given r hr).1
    · cases hreading
  · obtain ⟨hlt, hrecord, hxid⟩ := h.given r hr
    refine ⟨?_, hrecord.append response, hxid⟩
    exact Nat.lt_of_lt_of_le hlt (List.length_append ▸ Nat.le_add_right _ _)

/-- The entry whose sender the reader takes. -/
theorem mem_of_sender? {xid : UInt32} (h : m.sender? xid = some c) :
    ∃ p ∈ m.pending, p.xid = xid ∧ p.tx = some c := by
  obtain ⟨p, hfind, htx⟩ := Option.bind_eq_some_iff.mp h
  exact ⟨p, List.mem_of_find?_eq_some hfind, beq_iff_eq.mp (List.find?_some hfind :), htx⟩

theorem Given.take {record : ℕ} {xid : UInt32} {response : Bytes} (h : m.Given) (howned : m.Owned)
    (hcarried : m.Carried) (hreader : m.reader = .taking record xid response)
    (hsender : m.sender? xid = some c) :
    { m.take xid with reader := .holding record xid response c }.Given := by
  obtain ⟨p, hp, hxid, htx⟩ := mem_of_sender? hsender
  have hpc : (m.pc c).xid? = some xid := hxid ▸ howned.sender p hp c htx
  refine ⟨fun q hq d hd => ?_, fun record' xid' found hreading => ?_, ?_, h.given, h.records_nodup,
    h.calls_nodup⟩
  · obtain ⟨q', hq', hxid', hnone | ⟨hne, rfl⟩⟩ := mem_take hq
    · rw [hnone] at hd
      cases hd
    · refine ⟨(h.senders q hq' d hd).1, ?_⟩
      -- the sender that was taken is in no other entry
      rintro record' xid'' found ⟨⟩
      have := howned.sender q hq' c hd
      rw [hpc] at this
      exact hne (Option.some.inj this).symm
  · cases hreading
    exact h.reading record xid response (hreader ▸ .taking)
  · rintro record' xid' found d ⟨⟩
    exact ⟨hcarried.xid c xid hpc, (h.senders p hp c htx).1⟩

theorem Given.deliver {record : ℕ} {xid : UInt32} {response : Bytes} (h : m.Given)
    (mailbox : ℕ → Option (Except Error Bytes))
    (hreader : m.reader = .holding record xid response c) :
    { m with
      reader := .reading
      mailbox := mailbox
      delivered := (record, xid, c) :: m.delivered }.Given := by
  obtain ⟨hlength, hrecord, hlt⟩ := h.reading record xid response (hreader ▸ .holding)
  obtain ⟨hxid, hnot⟩ := h.holding record xid response c hreader
  refine ⟨fun p hp d hd => ⟨fun hmem => ?_, nofun⟩, nofun, nofun, fun r hr => ?_, ?_, ?_⟩
  · obtain ⟨hnew, hheld⟩ := h.senders p hp d hd
    rcases List.mem_cons.mp hmem with rfl | hmem
    · exact hheld _ _ _ hreader
    · exact hnew hmem
  · rcases List.mem_cons.mp hr with rfl | hr
    · exact ⟨Nat.lt_of_succ_le (Nat.le_of_eq hlength), hrecord, hxid⟩
    · exact h.given r hr
  · refine List.nodup_cons.mpr ⟨fun hmem => ?_, h.records_nodup⟩
    obtain ⟨r, hr, hrecord'⟩ := List.mem_map.mp hmem
    exact Nat.ne_of_lt (hlt r hr) hrecord'
  · exact List.nodup_cons.mpr ⟨hnot, h.calls_nodup⟩

theorem Given.step (h : m.Given) (howned : m.Owned) (hcarried : m.Carried)
    (hstep : m.step a = some m') : m'.Given := by
  have hsame : ∀ p ∈ m.pending, ∀ c, p.tx = some c →
      (∃ q ∈ m.pending, q.tx = some c) ∨ m.carried c = none := fun p hp _ hc => Or.inl ⟨p, hp, hc⟩
  cases step_does hstep with
  | @insert c xid hpc =>
    have hnone : m.carried c = none := by
      refine Option.eq_none_iff_forall_ne_some.mpr fun xid' hxid' => ?_
      have := hcarried.settled c xid' hxid'
      rw [hpc] at this
      cases this
    refine h.mono rfl rfl (fun d xid' hd => ?_) (Or.inl rfl) fun p hp d hd => ?_
    · change update m.carried c (some xid) d = some xid'
      rw [update_of_ne, hd]
      rintro rfl
      rw [hnone] at hd
      cases hd
    · rcases List.mem_cons.mp hp with rfl | hp
      · cases hd
        exact Or.inr hnone
      · exact hsame p hp d hd
  | drop =>
    exact h.mono rfl rfl (fun _ _ => id) (Or.inl rfl) fun p hp => hsame p (mem_remove hp).1
  | record _ hnext => exact h.record hnext
  | take hreader hsender => exact h.take howned hcarried hreader hsender
  | deliver hreader => exact h.deliver _ hreader
  | readError | ignore | readerClose | readerLeave =>
    exact h.mono rfl rfl (fun _ _ => id) (Or.inr nofun) hsame
  | readerFail => exact h.mono rfl rfl (fun _ _ => id) (Or.inr nofun) nofun
  | writerFail => exact h.mono rfl rfl (fun _ _ => id) (Or.inl rfl) nofun
  | _ => exact h.mono rfl rfl (fun _ _ => id) (Or.inl rfl) hsame

/-! ### The end of the transport -/

/-- The reader has closed the transport. -/
def readerDone (m : Machine) : Bool :=
  match m.reader with
  | .failing _ | .leaving | .stopped => true
  | .reading | .taking .. | .holding .. | .closing _ => false

/-- The writer has closed the transport. -/
def writerDone (m : Machine) : Bool :=
  match m.writer with
  | .failing _ | .stopped => true
  | .receiving | .writing _ | .closing _ => false

/-- Past the check that comes after the registration, and not yet ending. -/
inductive Waiting : Pc → Prop
  | sending {xid : UInt32} : Waiting (.sending xid)
  | queued {xid : UInt32} : Waiting (.queued xid)
  | awaiting {xid : UInt32} : Waiting (.awaiting xid)

/-- What holds at the end of the transport. -/
structure Closing (m : Machine) : Prop where
  reader : m.readerDone = true → m.transportClosed = true
  writer : m.writerDone = true → m.transportClosed = true
  failed : m.failed = true → m.transportClosed = true
  drained : m.failed = true → ∀ c, Waiting (m.pc c) → ∀ p ∈ m.pending, p.tx ≠ some c

/-- The senders in the map are those that were there, or of calls that do not wait. -/
theorem Closing.drained_of (h : m.Closing) (hfailed : m'.failed = true → m.failed = true)
    (hpc : m.failed = true → ∀ c, Waiting (m'.pc c) → Waiting (m.pc c))
    (hpending : ∀ p ∈ m'.pending, ∀ c, p.tx = some c → Waiting (m'.pc c) →
      ∃ q ∈ m.pending, q.tx = some c) :
    m'.failed = true → ∀ c, Waiting (m'.pc c) → ∀ p ∈ m'.pending, p.tx ≠ some c := by
  intro hfailed' c hc p hp htx
  obtain ⟨q, hq, hqc⟩ := hpending p hp c htx hc
  exact h.drained (hfailed hfailed') c (hpc (hfailed hfailed') c hc) q hq hqc

theorem Waiting.of_goto {pc : Pc} (hpc : Waiting pc → Waiting (m.pc c))
    (hd : Waiting (update m.pc c pc d)) : Waiting (m.pc d) := by
  by_cases hdc : d = c
  · subst hdc
    rw [update_self] at hd
    exact hpc hd
  · rwa [update_of_ne hdc] at hd

/-- A call waits only while the transport is open. -/
theorem Move.waiting {pc : Pc} {act : Act} (h : Move m c (m.pc c) act pc)
    (hclosed : m.transportClosed = true) (hpc : Waiting pc) : Waiting (m.pc c) := by
  generalize m.pc c = before at h
  cases h with
  | pass hopen =>
    rw [hclosed] at hopen
    cases hopen
  | wait => exact .queued
  | _ => cases hpc

theorem Closing.step (h : m.Closing) (hstep : m.step a = some m') : m'.Closing := by
  have hsame : ∀ p ∈ m.pending, ∀ c, p.tx = some c → ∃ q ∈ m.pending, q.tx = some c :=
    fun p hp _ hc => ⟨p, hp, hc⟩
  cases step_does hstep with
  | start | draw | drawZero | redraw =>
    refine ⟨h.reader, h.writer, h.failed, ?_⟩
    exact h.drained_of id (fun _ _ => Waiting.of_goto nofun) fun p hp c hc _ => hsame p hp c hc
  | enqueue hpc =>
    refine ⟨h.reader, h.writer, h.failed, ?_⟩
    refine h.drained_of id (fun _ _ => Waiting.of_goto ?_) fun p hp c hc _ => hsame p hp c hc
    exact fun _ => hpc ▸ .sending
  | insert =>
    refine ⟨h.reader, h.writer, h.failed, ?_⟩
    refine h.drained_of id (fun _ _ => Waiting.of_goto nofun) fun p hp c hc hw => ?_
    -- the call that registers does not wait yet
    rcases List.mem_cons.mp hp with rfl | hp
    · cases hc
      rw [goto_pc_self] at hw
      cases hw
    · exact hsame p hp c hc
  | drop =>
    refine ⟨h.reader, h.writer, h.failed, ?_⟩
    refine h.drained_of id (fun _ _ => Waiting.of_goto nofun) fun p hp c hc _ => ?_
    exact hsame p (mem_remove hp).1 c hc
  | move hmove =>
    refine ⟨h.reader, h.writer, h.failed, ?_⟩
    refine h.drained_of id (fun hfailed _ => Waiting.of_goto ?_) fun p hp c hc _ => hsame p hp c hc
    exact hmove.waiting (h.failed hfailed)
  | record hreader hnext =>
    refine ⟨fun hdone => ?_, h.writer, h.failed, h.drained⟩
    obtain ⟨_, -, rfl⟩ | ⟨_, rfl⟩ := hnext <;> cases hdone
  | readError | ignore | deliver => exact ⟨nofun, h.writer, h.failed, h.drained⟩
  | take =>
    refine ⟨nofun, h.writer, h.failed, ?_⟩
    refine h.drained_of id (fun _ _ => id) fun p hp c hc _ => ?_
    obtain ⟨q, hq, -, hnone | ⟨-, rfl⟩⟩ := mem_take hp
    · rw [hnone] at hc
      cases hc
    · exact hsame p hq c hc
  | readerClose | readerLeave => exact ⟨fun _ => rfl, fun _ => rfl, fun _ => rfl, h.drained⟩
  | writerClose => exact ⟨fun _ => rfl, fun _ => rfl, fun _ => rfl, h.drained⟩
  | readerFail hreader =>
    have hclosed : m.transportClosed = true := h.reader (by rw [readerDone, hreader])
    exact ⟨fun _ => hclosed, h.writer, fun _ => hclosed, nofun⟩
  | writerFail hwriter =>
    have hclosed : m.transportClosed = true := h.writer (by rw [writerDone, hwriter])
    exact ⟨h.reader, fun _ => hclosed, fun _ => hclosed, nofun⟩
  | writerReceive | written | writeError => exact ⟨h.reader, nofun, h.failed, h.drained⟩

/-! ### Requests that were not sent -/

/-- A call with this result may have queued its request. -/
def SentResult (result : Option (Except Error Bytes)) : Prop :=
  ∀ err, result = some (.error err) → err.isRequestNotSent = false

theorem sentResult_none : SentResult none := nofun

theorem sentResult_error {err : Error} (h : err.isRequestNotSent = false) :
    SentResult (some (.error err)) := by
  rintro err' ⟨⟩
  exact h

/-- The call may have queued its request. -/
inductive Dispatched : Pc → Prop
  | queued {xid : UInt32} : Dispatched (.queued xid)
  | awaiting {xid : UInt32} : Dispatched (.awaiting xid)
  | dropping {xid : UInt32} {result : Option (Except Error Bytes)} (h : SentResult result) :
      Dispatched (.dropping xid result)
  | finished {result : Option (Except Error Bytes)} (h : SentResult result) :
      Dispatched (.finished result)

/-- The calls whose requests were queued. -/
structure Unsent (m : Machine) : Prop where
  mailbox : ∀ c, SentResult (m.mailbox c)
  entered : ∀ request ∈ m.entered, Dispatched (m.pc request.call)

theorem Unsent.goto {pc : Pc} (h : m.Unsent) (hpc : m'.pc = update m.pc c pc)
    (hdispatched : Dispatched (m.pc c) → Dispatched pc) (hmailbox : m'.mailbox = m.mailbox)
    (hentered : m'.entered = m.entered) : m'.Unsent := by
  refine ⟨hmailbox ▸ h.mailbox, fun request hrequest => ?_⟩
  have hbefore := h.entered request (hentered ▸ hrequest)
  rw [hpc]
  by_cases hc : request.call = c
  · rw [hc, update_self]
    exact hdispatched (hc ▸ hbefore)
  · rw [update_of_ne hc]
    exact hbefore

theorem Move.dispatched {pc : Pc} {act : Act} (h : Move m c (m.pc c) act pc) (hunsent : m.Unsent)
    (hpc : Dispatched (m.pc c)) : Dispatched pc := by
  generalize m.pc c = before at h hpc
  cases h with
  | stop => exact .dropping (sentResult_error rfl)
  | wait => exact .awaiting
  | receive hmail => exact .dropping (hmail ▸ hunsent.mailbox c)
  | gone => exact .dropping (sentResult_error rfl)
  | timeout => exact .dropping (sentResult_error rfl)
  | cancelAwaiting => exact .dropping sentResult_none
  | _ => cases hpc

theorem Unsent.step (h : m.Unsent) (hstep : m.step a = some m') : m'.Unsent := by
  cases step_does hstep with
  | start hpc | draw hpc | drawZero hpc | redraw hpc | insert hpc =>
    exact h.goto rfl (by rw [hpc]; exact nofun) rfl rfl
  | move hmove => exact h.goto rfl (hmove.dispatched h) rfl rfl
  | @enqueue c xid hpc =>
    have hgoto : (m.goto c (.queued xid)).Unsent := h.goto rfl (fun _ => .queued) rfl rfl
    refine ⟨h.mailbox, fun request hrequest => ?_⟩
    rcases List.mem_cons.mp hrequest with rfl | hrequest
    · rw [goto_pc_self]
      exact .queued
    · exact hgoto.entered request hrequest
  | drop hpc =>
    refine h.goto rfl (fun hdispatched => ?_) rfl rfl
    rw [hpc] at hdispatched
    cases hdispatched with
    | dropping hresult => exact .finished hresult
  | @deliver record xid response call =>
    refine ⟨fun c => ?_, h.entered⟩
    change SentResult (update m.mailbox call (some (decodeReply xid response)) c)
    by_cases hc : c = call
    · rw [hc, update_self]
      intro err herr
      exact decodeReply_error (Option.some.inj herr)
    · rw [update_of_ne hc]
      exact h.mailbox c
  | @readerFail err | @writerFail err =>
    refine ⟨fun c => ?_, h.entered⟩
    change SentResult (if m.pending.any (·.tx == some c) then
      some (.error (.connectionLost err.display)) else m.mailbox c)
    split
    · exact sentResult_error rfl
    · exact h.mailbox c
  | _ => exact ⟨h.mailbox, h.entered⟩

/-! ### Runs -/

/-- All that holds on a connection. -/
structure Sound (m : Machine) : Prop where
  drawn : m.Drawn
  owned : m.Owned
  carried : m.Carried
  given : m.Given
  closing : m.Closing
  unsent : m.Unsent

theorem Sound.new (stamp : UInt32) (pendingCapacity : ℕ) : (new stamp pendingCapacity).Sound where
  drawn := by
    constructor
    case counter => exact (UInt32.add_zero stamp).symm
    case count => rfl
    case redrawn => exact Nat.le_refl 0
    case zeros => exact Nat.zero_le 1
    case begun => exact fun c => iff_of_false nofun (not_not_intro rfl)
    case begun_nodup | first_nodup => exact List.nodup_nil
    all_goals exact nofun
  owned := ⟨nofun, nofun⟩
  carried := ⟨nofun, nofun, nofun, nofun, nofun, nofun⟩
  given := ⟨nofun, nofun, nofun, nofun, List.nodup_nil, List.nodup_nil⟩
  closing := ⟨nofun, nofun, nofun, nofun⟩
  unsent := ⟨fun _ => sentResult_none, nofun⟩

theorem Sound.step (h : m.Sound) (hbound : m.begun.length < 2 ^ 32 - 1)
    (hstep : m.step a = some m') : m'.Sound where
  drawn := h.drawn.step h.owned hbound hstep
  owned := h.owned.step hstep
  carried := h.carried.step hstep
  given := h.given.step h.owned h.carried hstep
  closing := h.closing.step hstep
  unsent := h.unsent.step hstep

/-- No call that began is forgotten. -/
theorem begun_le (hstep : m.step a = some m') : m.begun.length ≤ m'.begun.length := by
  cases step_does hstep with
  | start => exact Nat.le_succ _
  | _ => exact Nat.le_refl _

theorem sound_of_reachable {stamp : UInt32} {pendingCapacity : ℕ}
    (h : m.Reachable stamp pendingCapacity) (hbound : m.begun.length < 2 ^ 32 - 1) : m.Sound := by
  refine Transition.Reaches.invariant (I := fun m => m.begun.length < 2 ^ 32 - 1 → m.Sound) h
    (fun _ => Sound.new stamp pendingCapacity) ?_ hbound
  intro before action after hbefore _ hstep hafter
  have hlt := Nat.lt_of_le_of_lt (begun_le hstep) hafter
  exact (hbefore hlt).step hlt hstep

/-- A registration lasts as long as the future of its call. -/
theorem Owned.pending_nil (h : m.Owned) (halive : ∀ c, (m.pc c).alive = false) :
    m.pending = [] := by
  refine List.eq_nil_iff_forall_not_mem.mpr fun p hp => ?_
  obtain ⟨c, hc⟩ := h.owner p hp
  exact absurd (halive c) (Pc.alive_of_xid? hc)

/-- A call whose request was queued does not say that it was not sent. -/
theorem Unsent.not_entered {err : Error} (h : m.Unsent)
    (hpc : m.pc c = .finished (some (.error err))) (herr : err.isRequestNotSent = true) :
    ∀ request ∈ m.entered, request.call ≠ c := by
  rintro request hrequest rfl
  have hdispatched := h.entered request hrequest
  rw [hpc] at hdispatched
  cases hdispatched with
  | finished hsent =>
    rw [hsent err rfl] at herr
    cases herr

/-- On a connection with fewer than `2 ^ 32 - 1` calls, registered calls have different
XIDs; a record is given out once, and to the call whose request carries its XID; a
call that says its request was not sent has queued none; no call awaits a reply with
its sender in the map when the transport is closed and the pending calls have been
failed; and the map is empty when no call exists. -/
theorem calls_answered {stamp : UInt32} {pendingCapacity : ℕ}
    (h : m.Reachable stamp pendingCapacity) (hbound : m.begun.length < 2 ^ 32 - 1) :
    (∀ c d xid, (m.pc c).xid? = some xid → (m.pc d).xid? = some xid → c = d) ∧
    ((m.delivered.map (·.1)).Nodup ∧ m.givenTo.Nodup ∧
      ∀ record xid c, (record, xid, c) ∈ m.delivered → m.IsRecord record xid ∧
        m.carried c = some xid ∧ ∀ request ∈ m.entered, request.call = c → request.xid = xid) ∧
    (∀ c err, m.pc c = .finished (some (.error err)) → err.isRequestNotSent = true →
      ∀ request ∈ m.entered, request.call ≠ c) ∧
    (m.transportClosed = true → m.failed = true →
      ∀ c xid, m.pc c = .awaiting xid → ∀ p ∈ m.pending, p.tx ≠ some c) ∧
    ((∀ c, (m.pc c).alive = false) → m.pending = []) := by
  have hsound := sound_of_reachable h hbound
  refine ⟨fun c d xid hc hd => ?_, ⟨hsound.given.records_nodup, hsound.given.calls_nodup,
    fun record xid c hmem => ?_⟩, fun c err => hsound.unsent.not_entered, ?_,
    hsound.owned.pending_nil⟩
  · exact hsound.drawn.eq_of_xid hbound (Pc.drawn?_of_xid? hc) (Pc.drawn?_of_xid? hd)
  · obtain ⟨-, hrecord, hxid⟩ := hsound.given.given _ hmem
    refine ⟨hrecord, hxid, fun request hrequest hcall => ?_⟩
    have hentered := hsound.carried.entered request hrequest
    rw [hcall, hxid] at hentered
    exact (Option.some.inj hentered).symm
  · intro _ hfailed c xid hpc
    exact hsound.closing.drained hfailed c (hpc ▸ .awaiting)

/-- Two calls, the reader gives the first its reply and then fails. -/
def oneReply : List Action :=
  let send (c : ℕ) : List Action := .call c .start :: List.replicate 6 (.call c .advance)
  let reply : Bytes := [0, 0, 0, 8, 0, 0, 0, 1] ++ List.replicate 16 0
  send 0 ++ send 1 ++ [.writer (.receive 2), .writer .written, .reader (.record reply),
    .reader .advance, .reader .advance, .reader (.error (.rpc "closed")), .reader .advance,
    .reader .advance] ++ List.replicate 2 (.call 0 .advance) ++ List.replicate 2 (.call 1 .advance)

theorem calls_answered_one_reply :
    ∃ m : Machine, m.Reachable 7 1 ∧ m.begun = [1, 0] ∧ m.delivered = [(0, 8, 0)] ∧
      m.wire = [⟨0, 8⟩, ⟨1, 9⟩] ∧ m.failed = true ∧ m.carried 0 = some 8 ∧ m.pending = [] := by
  have hrun : (Transition.run step (new 7 1) oneReply).any (fun m => m.begun == [1, 0] &&
      (m.delivered == [(0, 8, 0)] && (m.wire == [⟨0, 8⟩, ⟨1, 9⟩] && (m.failed &&
        (m.pending == []))))) = true := by
    decide +kernel
  obtain ⟨m, hm, htest⟩ := (Option.any_eq_true ..).mp hrun
  simp only [Bool.and_eq_true, beq_iff_eq] at htest
  obtain ⟨hbegun, hdelivered, hwire, hfailed, hpending⟩ := htest
  have hreached : m.Reachable 7 1 := Transition.reaches_of_run _ hm
  obtain ⟨-, ⟨-, -, hgiven⟩, -⟩ := calls_answered hreached (by rw [hbegun]; decide)
  have hcarried := (hgiven 0 8 0 (by rw [hdelivered]; exact List.mem_cons_self)).2.1
  exact ⟨m, hreached, hbegun, hdelivered, hwire, hfailed, hcarried, hpending⟩

end Machine

end NfsCrust.Rpc
