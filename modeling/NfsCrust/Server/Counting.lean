import NfsCrust.Server.Keeps

/-!
# Counting operations

How often operations of a kind were executed, and how often they can have been in the
end, when every compound that was lost has arrived.  A drift only moves operations
from the second count to the first.

## Main definitions

* `World.ran`, `World.mayRun` — the two counts.
* `World.Bounds` — bounds on them.

## Main results

* `World.Bounds.drift` — a drift keeps the bounds.
* `Environment.quiet_bounds` — so does a call without operations of the kind.
-/

namespace NfsCrust

/-- An operation that satisfies `p` was executed. -/
def Event.ran (p : NfsOp → Bool) : Event → Bool
  | executed op _ => p op
  | sent _ | refused .. => false

theorem countP_happened (p : NfsOp → Bool) (ops : List NfsOp) (results : List OpRes)
    (failure : Option Failure) (hle : results.length ≤ ops.length) :
    (happened ops results failure).countP (Event.ran p) = (ops.take results.length).countP p := by
  induction results generalizing ops with
  | nil => cases ops <;> cases failure <;> rfl
  | cons r results ih =>
    cases ops with
    | nil => cases hle
    | cons op ops =>
      rw [happened, List.length_cons, List.take_succ_cons, List.countP_cons, List.countP_cons,
        ih ops (Nat.le_of_succ_le_succ hle)]
      rfl

namespace World

variable {S : Type} (w : World S) (p : NfsOp → Bool)

/-- How many operations that satisfy `p` were executed. -/
def ran : ℕ := w.events.countP (Event.ran p)

/-- How many there can have been in the end. -/
def mayRun : ℕ := w.ran p + (w.late.map (List.countP p)).sum

@[simp] theorem ran_send (ops : List NfsOp) : (w.send ops).ran p = w.ran p := by
  simp [ran, send, Event.ran]

@[simp] theorem mayRun_send (ops : List NfsOp) : (w.send ops).mayRun p = w.mayRun p := by
  rw [mayRun, ran_send]
  rfl

@[simp] theorem ran_lose (ops : List NfsOp) : (w.lose ops).ran p = w.ran p := by
  simp [ran, lose, Event.ran]

theorem mayRun_lose (ops : List NfsOp) : (w.lose ops).mayRun p = w.mayRun p + ops.countP p := by
  rw [mayRun, ran_lose, mayRun, lose]
  simp [Nat.add_assoc]

variable {ops : List NfsOp} {t : Replies}

theorem ran_deliver (st : S) (hle : t.results.length ≤ ops.length) :
    (w.deliver ops t st).ran p = w.ran p + (ops.take t.results.length).countP p := by
  have hsent : Event.ran p (.sent ops) = false := rfl
  rw [ran, deliver, List.countP_append, List.countP_cons, countP_happened p _ _ _ hle, hsent]
  rfl

theorem mayRun_deliver (st : S) (hle : t.results.length ≤ ops.length) :
    (w.deliver ops t st).mayRun p = w.mayRun p + (ops.take t.results.length).countP p := by
  rw [mayRun, w.ran_deliver p st hle, mayRun]
  exact Nat.add_right_comm ..

theorem ran_le_mayRun : w.ran p ≤ w.mayRun p := Nat.le_add_right ..

/-- At least `least` were executed, and at most `most` will have been. -/
structure Bounds (p : NfsOp → Bool) (least most : ℕ) (w : World S) : Prop where
  least : least ≤ w.ran p
  most : w.mayRun p ≤ most

variable {w p} {w' : World S} {least most : ℕ} {env : Environment S}

theorem Bounds.driftStep (hw : w.Bounds p least most) (h : env.DriftStep w w') :
    w'.Bounds p least most := by
  cases h with
  | state => exact ⟨hw.least, hw.most⟩
  | @late before after ops t st ctx hlate hexec _ =>
    have hran : (w.arrive before after ops t st).ran p
        = w.ran p + (ops.take t.results.length).countP p := by
      rw [ran, arrive, List.countP_append, countP_happened p _ _ _ hexec.length_le]
      rfl
    have hsum : ((w.arrive before after ops t st).late.map (List.countP p)).sum + ops.countP p
        = (w.late.map (List.countP p)).sum := by
      rw [hlate]
      simp only [arrive, List.map_append, List.map_cons, List.sum_append, List.sum_cons]
      omega
    have hle : (ops.take t.results.length).countP p ≤ ops.countP p :=
      (List.take_sublist ..).countP_le
    obtain ⟨hleast, hmost⟩ := hw
    rw [mayRun] at hmost
    refine ⟨?_, ?_⟩
    · rw [hran]
      omega
    · rw [mayRun, hran]
      omega

/-- A drift moves operations from those that may be executed to those that were. -/
theorem Bounds.drift (hw : w.Bounds p least most) (h : env.Drifts w w') :
    w'.Bounds p least most := by
  induction h with
  | refl => exact hw
  | tail _ hstep ih => exact ih.driftStep hstep

end World

namespace Environment

variable {S : Type} {env : Environment S} {p : NfsOp → Bool} {least most : ℕ}

theorem stable_bounds : env.Stable (World.Bounds p least most) where
  drift _ _ hw h := hw.drift h
  latched _ _ hw := ⟨hw.least, hw.most⟩
  queue _ _ hw := ⟨hw.least, hw.most⟩

/-- A call without operations of the kind. -/
theorem quiet_bounds {s : NfsSession} {call : SessionCall} (h : (call.ops s).countP p = 0) :
    env.Quiet (World.Bounds p least most) s call := by
  rintro w out w' ⟨hleast, hmost⟩ hcall
  cases hcall with
  | notSent => exact ⟨hleast, hmost⟩
  | rejected =>
    refine ⟨?_, ?_⟩
    · rwa [World.ran_send]
    · rwa [World.mayRun_send]
  | @delivered t st ctx _ hexec _ _ _ =>
    have htake : ((call.ops s).take t.results.length).countP p = 0 :=
      Nat.le_zero.mp (h ▸ (List.take_sublist ..).countP_le)
    refine ⟨?_, ?_⟩
    · rwa [w.ran_deliver p st hexec.length_le, htake]
    · rwa [w.mayRun_deliver p st hexec.length_le, htake]
  | lost =>
    refine ⟨?_, ?_⟩
    · rwa [World.ran_lose]
    · rwa [w.mayRun_lose p, h]

end Environment

end NfsCrust
