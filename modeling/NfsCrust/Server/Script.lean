import NfsCrust.Lib.Replay
import NfsCrust.Server.Environment

/-!
# Scripted runs

To exhibit a run of the client, its surroundings follow a script: what becomes of each
compound, in the order in which they are sent.  The script computes, and what it computes
is a run against the environment it was written for.

## Main definitions

* `Script`, `Script.player` — how a script answers the requests of the client.
* `anyServer` — a server that answers anything, with the scripts for it.

## Main results

* `Script.plays` — what a script answers is allowed.
-/

namespace NfsCrust

open Interaction Relation

/-- What a script has in store for a compound. -/
inductive Fate (A : Type)
  | answer (a : A)
  | lose

/-- A script: the server answers a compound as an action of type `A` says. -/
structure Script {S : Type} (env : Environment S) (A : Type) where
  session : NfsSession
  name : String
  now : ℕ := 0
  lossy : Bool := false
  respond : List NfsOp → S → A → Option (Replies × S)
  allowed : env.session session
  named : ∀ st, env.tempName st name
  faults : lossy = true → ∀ ops, env.faults ops
  sound : ∀ {ops st a t st'}, respond ops st a = some (t, st') →
    ∃ st₁ ctx, ReflTransGen env.between st st₁ ∧
      env.Executes ops (st₁, env.start) t (st', ctx) ∧ env.admits ops st₁ t

/-- The rest of a script, and the world it has come to. -/
structure Stage (S A : Type) where
  fates : List (Fate A)
  world : World S

namespace Script

variable {S A : Type} {env : Environment S} (P : Script env A)

/-- All compounds are sent on this slot. -/
def slot : SlotUse := ⟨.replicate 16 0, 0, 0⟩

/-- The reply of a server that executed a compound. -/
def reply (t : Replies) : Replies := ⟨.sequence slot.sessionid 0 0 0 0 0 :: t.results, t.failure⟩

def exchange (ops : List NfsOp) (c : Stage S A) :
    Option (Except Error (SlotUse × Bytes) × Stage S A) :=
  match c.fates with
  | [] => none
  | .lose :: fates =>
      if P.lossy then some (.error (.connectionLost ""), ⟨fates, c.world.lose ops⟩) else none
  | .answer a :: fates =>
    match P.respond ops c.world.state a with
    | none => none
    | some (t, st) =>
      if h : (reply t).length < 2 ^ 32 then
        some (.ok (slot, (CompoundReply.mk ⟨[], Opaque.short_nil⟩ (reply t) h).encode),
          ⟨fates, c.world.deliver ops t st⟩)
      else none

def player : Player effects (Stage S A) where
  answer
    | .exchange _ _ ops, c => P.exchange ops c
    | .sleepBeforeTransientRetry .., c => some ((), c)
    | .sessionSlotCount _, c => some ((1 : ℕ), c)
    | .fusedPutSupported s, c => some (decide (s ∉ c.world.latched), c)
    | .latchFusedPutOff s, c =>
        some ((), { c with world := { c.world with latched := s :: c.world.latched } })
    | .nextOwner _, c => some (([] : Bytes), c)
    | .deferClose s opened, c =>
        some (true, { c with world := { c.world with queue := c.world.queue ++ [(s, opened)] } })
    | .tempFileName, c => some (P.name, c)
    | .unixNowMillis, c => some (P.now, c)
    | .currentSession, c => some ((⟨P.session, 0⟩ : ClientSession), c)
    | .reconnect .., c => some ((.ok () : Except Error Unit), c)
  choose c := (0, c)

theorem drifts_state {w : World S} {st : S} (h : ReflTransGen env.between w.state st) :
    env.Drifts w { w with state := st } := by
  induction h with
  | refl => exact .refl
  | tail _ hstep ih => exact ih.tail (.state hstep)

theorem serve_exchange {s : NfsSession} {tag : String} {ops : List NfsOp} {c c' : Stage S A}
    {r : Except Error (SlotUse × Bytes)} (h : P.exchange ops c = some (r, c')) :
    env.serve (.exchange s tag ops) c.world r c'.world := by
  unfold exchange at h
  split at h
  · cases h
  · split at h
    · next hlossy =>
      cases h
      exact ⟨c.world, .refl, .lost (P.faults hlossy ops) rfl⟩
    · cases h
  · split at h
    · cases h
    · next t st hrespond =>
      split at h
      · next hlength =>
        cases h
        obtain ⟨st₁, ctx, hbetween, hexec, hadmits⟩ := P.sound hrespond
        exact ⟨_, drifts_state hbetween, .delivered hexec hadmits ⟨_, 0, 0, 0, rfl, rfl⟩⟩
      · cases h

/-- **What a script answers is allowed.** -/
theorem plays : P.player.Plays env.serve Stage.world where
  answer e c r c' h := by
    cases e with
    | exchange s tag ops => exact P.serve_exchange h
    | fusedPutSupported s =>
      cases h
      exact ⟨of_decide_eq_true, fun hfalse => Or.inr (not_not.mp (of_decide_eq_false hfalse)), rfl⟩
    | deferClose s opened =>
      cases h
      exact ⟨fun _ => rfl, nofun⟩
    | tempFileName =>
      cases h
      exact ⟨P.named _, rfl⟩
    | currentSession =>
      cases h
      exact ⟨P.allowed, rfl⟩
    | _ =>
      cases h
      rfl
  choose _ := rfl

end Script

/-- A server that can execute every compound, with replies of a length that can be sent, or
reject it, is always answered. -/
theorem Environment.responsive_of_executes {S : Type} {env : Environment S}
    (hexec : ∀ ops st, (∃ t st' ctx, env.Executes ops (st, env.start) t (st', ctx) ∧
      env.admits ops st t ∧ t.results.length < 2 ^ 31) ∨ env.rejects ops)
    (hname : ∀ st, ∃ name, env.tempName st name) (hsession : ∃ s, env.session s) :
    env.Responsive := by
  intro e w
  cases e with
  | exchange s tag ops =>
    rcases hexec ops w.state with ⟨t, st', ctx, hexec, hadmits, hlength⟩ | hrejects
    · have hshort : (Script.reply t).length < 2 ^ 32 := by
        cases hf : t.failure <;> simp only [Script.reply, Replies.length, List.length_cons, hf,
          Option.isSome_none, Option.isSome_some, if_true, Bool.false_eq_true, if_false] <;> omega
      exact ⟨.ok (Script.slot, (CompoundReply.mk ⟨[], by decide⟩ (Script.reply t) hshort).encode), _,
        w, .refl, .delivered hexec hadmits ⟨_, 0, 0, 0, rfl, rfl⟩⟩
    · let f : Failure := ⟨.sequence, .DELAY⟩
      have hshort : (Replies.mk [] (some f)).length < 2 ^ 32 := by decide
      exact ⟨.ok (Script.slot, (CompoundReply.mk ⟨[], by decide⟩ ⟨[], some f⟩ hshort).encode), _, w,
        .refl, .rejected hrejects ⟨_, f, rfl, ⟨by decide, Or.inl rfl⟩, rfl⟩⟩
  | fusedPutSupported s =>
    by_cases hs : s ∈ w.latched
    · exact ⟨false, w, by simp, fun _ => Or.inr hs, rfl⟩
    · exact ⟨true, w, fun _ => hs, by simp, rfl⟩
  | latchFusedPutOff s => exact ⟨(), _, rfl⟩
  | deferClose s opened => exact ⟨false, w, by simp, fun _ => rfl⟩
  | tempFileName =>
    obtain ⟨name, hname⟩ := hname w.state
    exact ⟨name, w, hname, rfl⟩
  | currentSession =>
    obtain ⟨s, hs⟩ := hsession
    exact ⟨⟨s, 0⟩, w, hs, rfl⟩
  | sleepBeforeTransientRetry => exact ⟨(), w, rfl⟩
  | sessionSlotCount => exact ⟨(0 : ℕ), w, rfl⟩
  | nextOwner => exact ⟨([] : Bytes), w, rfl⟩
  | unixNowMillis => exact ⟨(0 : ℕ), w, rfl⟩
  | reconnect => exact ⟨.ok (), w, rfl⟩

/-! ### A server that answers anything -/

def anyServer (faulty : Bool) : Environment Unit where
  Ctx := Unit
  start := ()
  exec op _ r _ := r.opcode = op.opcode
  refuse op _ f := f.Answers op.opcode
  within _ _ := False
  between _ _ := False
  admits _ _ _ := True
  rejects _ := False
  faults _ := faulty = true
  latches := False
  tempName _ _ := True
  session _ := True
  opcode h := h
  answers h := h

theorem executes_anyServer {faulty : Bool} {ops : List NfsOp} {t : Replies}
    (h : Replies.Answers (ops.map NfsOp.opcode) t) :
    (anyServer faulty).Executes ops ((), ()) t ((), ()) := by
  obtain ⟨results, failure⟩ := t
  induction ops generalizing results with
  | nil =>
    obtain ⟨rfl, rfl⟩ := h
    exact .done
  | cons op ops ih =>
    cases results with
    | nil =>
      obtain ⟨f, rfl, hf⟩ := h
      exact .refused hf
    | cons r results =>
      have hexec : (anyServer faulty).exec op ((), ()) r ((), ()) := h.1
      exact .next hexec .refl (ih results h.2)

instance (op : OpCode) (f : Failure) : Decidable (f.Answers op) :=
  inferInstanceAs (Decidable (_ ∧ _))

instance decidableAnswers : (ops : List OpCode) → (t : Replies) → Decidable (Replies.Answers ops t)
  | [], ⟨results, failure⟩ =>
      decidable_of_iff (results.isEmpty = true ∧ failure.isNone = true) (by
        rw [List.isEmpty_iff, Option.isNone_iff_eq_none]
        rfl)
  | op :: _, ⟨[], none⟩ => isFalse nofun
  | op :: _, ⟨[], some f⟩ =>
      decidable_of_iff (f.Answers op) ⟨fun h => ⟨f, rfl, h⟩, fun ⟨_, h, hf⟩ => by
        cases h
        exact hf⟩
  | op :: ops, ⟨r :: results, failure⟩ =>
      have := decidableAnswers ops ⟨results, failure⟩
      decidable_of_iff (r.opcode = op ∧ Replies.Answers ops ⟨results, failure⟩) Iff.rfl

/-- A session with the default configuration. -/
def plainSession : NfsSession where
  exportRoot := ⟨[1]⟩
  clientid := 0
  authBodyLen := 0
  config := { «export» := "/" }

/-- The result of an `OPEN`, without a delegation. -/
def plainOpen : OpenRes where
  stateid := ⟨1, .replicate 12 0⟩
  cinfo := ⟨true, 0, 1⟩
  rflags := 0
  attrset := ⟨[], WireBitmap.short_nil⟩
  delegation := .none

/-- The answers are written out in the script. -/
def anyScript (session : NfsSession) (name : String) (lossy : Bool) :
    Script (anyServer lossy) Replies where
  session := session
  name := name
  lossy := lossy
  respond ops _ t := if Replies.Answers (ops.map NfsOp.opcode) t then some (t, ()) else none
  allowed := trivial
  named _ := trivial
  faults h _ := h
  sound {ops st a t st'} h := by
    split at h
    · next hans =>
      cases h
      exact ⟨(), (), .refl, executes_anyServer hans, trivial⟩
    · cases h

end NfsCrust
