import NfsCrust.Delivery

/-!
# Servers and networks

A server executes the operations of a compound in order and stops at the first it
refuses, which changes nothing.  What an operation does to the state of the server is
a parameter, and so is what other clients do in between.

The network decides about every compound: it is not sent, it is rejected at `SEQUENCE`,
its reply is delivered, or its reply is lost.  A compound whose reply is lost may
reach the server at any later time, or never.

What happened is recorded as a list of events, so that a property of the whole run can
be stated in its last world.

## Main definitions

* `Environment`, `Environment.Executes` — a server, and how it executes a compound.
* `World`, `Environment.serve` — what a program runs against.

## Main results

* `Environment.callServed_of_serve` — what a session call makes of an exchange.
* `Environment.safe_call`, `Environment.safe_call_of_keeps` — the rules for session calls.
-/

namespace NfsCrust

open Interaction Thread Relation

/-! ### Servers -/

/-- A server and what is around it. -/
structure Environment (S : Type) where
  /-- What a compound carries from one operation to the next. -/
  Ctx : Type
  start : Ctx
  /-- An operation succeeds. -/
  exec : NfsOp → S × Ctx → OpRes → S × Ctx → Prop
  /-- An operation is refused. -/
  refuse : NfsOp → S × Ctx → Failure → Prop
  /-- What can happen between two operations of a compound. -/
  within : S → S → Prop
  /-- What can happen between two compounds. -/
  between : S → S → Prop
  /-- Which executions of a compound are considered. -/
  admits : List NfsOp → S → Replies → Prop
  /-- A compound may be rejected at `SEQUENCE`. -/
  rejects : List NfsOp → Prop
  /-- A compound may fail to be sent, and its reply may be lost. -/
  faults : List NfsOp → Prop
  /-- The fused put may be latched off by others. -/
  latches : Prop
  /-- The names a temporary file can get. -/
  tempName : S → String → Prop
  /-- The sessions the client can be on. -/
  session : NfsSession → Prop
  opcode : ∀ {op x r y}, exec op x r y → r.opcode = op.opcode
  answers : ∀ {op x f}, refuse op x f → f.Answers op.opcode

/-- Something that happened at the server, or was sent to it.  When an operation is refused,
`rest` is what was not executed of its compound, from that operation on. -/
inductive Event
  | sent (ops : List NfsOp)
  | executed (op : NfsOp) (result : OpRes)
  | refused (rest : List NfsOp) (failure : Failure)

/-- What happens when the operations `ops` are answered by `results` and `failure`. -/
def happened : List NfsOp → List OpRes → Option Failure → List Event
  | op :: ops, r :: results, failure => .executed op r :: happened ops results failure
  | op :: ops, [], some f => [.refused (op :: ops) f]
  | _, _, _ => []

/-- The server, the network, and what the client keeps outside of its operations. -/
structure World (S : Type) where
  state : S
  /-- Compounds that may still be executed. -/
  late : List (List NfsOp) := []
  events : List Event := []
  /-- The sessions whose fused put is latched off. -/
  latched : List NfsSession := []
  /-- The files that wait to be closed. -/
  queue : List (NfsSession × OpenedFile) := []

namespace World

variable {S : Type}

def send (w : World S) (ops : List NfsOp) : World S :=
  { w with events := w.events ++ [.sent ops] }

def deliver (w : World S) (ops : List NfsOp) (t : Replies) (state : S) : World S :=
  { w with state, events := w.events ++ .sent ops :: happened ops t.results t.failure }

def lose (w : World S) (ops : List NfsOp) : World S :=
  { w with late := w.late ++ [ops], events := w.events ++ [.sent ops] }

/-- A compound that was lost reaches the server. -/
def arrive (w : World S) (before after : List (List NfsOp)) (ops : List NfsOp) (t : Replies)
    (state : S) : World S :=
  { w with
    state
    late := before ++ after
    events := w.events ++ happened ops t.results t.failure }

end World

namespace Environment

variable {S : Type} (env : Environment S)

/-- The server executes a compound. -/
inductive Executes : List NfsOp → S × env.Ctx → Replies → S × env.Ctx → Prop
  | done {x : S × env.Ctx} : Executes [] x ⟨[], none⟩ x
  | refused {op : NfsOp} {ops : List NfsOp} {x : S × env.Ctx} {f : Failure}
      (h : env.refuse op x f) : Executes (op :: ops) x ⟨[], some f⟩ x
  | next {op : NfsOp} {ops : List NfsOp} {x y z : S × env.Ctx} {st : S} {r : OpRes}
      {results : List OpRes} {failure : Option Failure} (h : env.exec op x r y)
      (hwithin : ReflTransGen env.within y.1 st)
      (hrest : Executes ops (st, y.2) ⟨results, failure⟩ z) :
      Executes (op :: ops) x ⟨r :: results, failure⟩ z

/-- What happens around the server, and compounds that arrive late. -/
inductive DriftStep : World S → World S → Prop
  | state {w : World S} {st : S} (h : env.between w.state st) :
      DriftStep w { w with state := st }
  | late {w : World S} {before after : List (List NfsOp)} {ops : List NfsOp} {t : Replies}
      {st : S} {ctx : env.Ctx} (hlate : w.late = before ++ ops :: after)
      (hexec : env.Executes ops (w.state, env.start) t (st, ctx))
      (hadmits : env.admits ops w.state t) :
      DriftStep w (w.arrive before after ops t st)

def Drifts : World S → World S → Prop := ReflTransGen env.DriftStep

/-- What can come of a compound. -/
inductive Exchanged (ops : List NfsOp) (w : World S) :
    Except Error (SlotUse × Bytes) → World S → Prop
  | notSent {source : Error} (h : env.faults ops) :
      Exchanged ops w (.error (.requestNotSent source)) w
  | rejected {slot : SlotUse} {response : Bytes} (h : env.rejects ops)
      (hresponse : Rejected response) : Exchanged ops w (.ok (slot, response)) (w.send ops)
  | delivered {slot : SlotUse} {response : Bytes} {t : Replies} {st : S} {ctx : env.Ctx}
      (hexec : env.Executes ops (w.state, env.start) t (st, ctx))
      (hadmits : env.admits ops w.state t) (hresponse : Delivered slot t response) :
      Exchanged ops w (.ok (slot, response)) (w.deliver ops t st)
  | lost {err : Error} (h : env.faults ops) (herr : err.isForeign = true) :
      Exchanged ops w (.error err) (w.lose ops)

/-- How the surroundings answer a request of the client. -/
def serve : (e : Effect) → World S → e.Response → World S → Prop
  | .exchange _ _ ops, w, resp, w' => ∃ w₁, env.Drifts w w₁ ∧ env.Exchanged ops w₁ resp w'
  | .fusedPutSupported s, w, supported, w' =>
      (supported = true → s ∉ w.latched) ∧ (supported = false → env.latches ∨ s ∈ w.latched) ∧
        w' = w
  | .latchFusedPutOff s, w, _, w' => w' = { w with latched := s :: w.latched }
  | .deferClose s opened, w, queued, w' =>
      (queued = true → w' = { w with queue := w.queue ++ [(s, opened)] }) ∧
        (queued = false → w' = w)
  | .tempFileName, w, name, w' => env.tempName w.state name ∧ w' = w
  | .currentSession, w, snapshot, w' => env.session snapshot.session ∧ w' = w
  | .sleepBeforeTransientRetry .., w, _, w' | .sessionSlotCount _, w, _, w' | .nextOwner _, w, _, w'
  | .unixNowMillis, w, _, w' | .reconnect .., w, _, w' => w' = w

/-- The surroundings answer every request, if only with an error. -/
def Responsive : Prop := ∀ e w, ∃ r w', env.serve e w r w'

/-- Worlds that can follow, whatever the client asks. -/
def Later : World S → World S → Prop := ReflTransGen fun w w' => ∃ e r, env.serve e w r w'

variable {env} {w w' : World S} {ops : List NfsOp} {t : Replies}

/-- The replies answer the operations in order. -/
theorem Executes.answers {x y : S × env.Ctx} (h : env.Executes ops x t y) :
    Replies.Answers (ops.map NfsOp.opcode) t := by
  induction h with
  | done => exact ⟨rfl, rfl⟩
  | refused h => exact ⟨_, rfl, env.answers h⟩
  | next h _ _ ih => exact ⟨env.opcode h, ih⟩

theorem Executes.length_le {x y : S × env.Ctx} (h : env.Executes ops x t y) :
    t.results.length ≤ ops.length := by
  induction h with
  | done | refused => exact Nat.zero_le _
  | next _ _ _ ih => exact Nat.succ_le_succ ih

/-- Without a failure, every operation was executed. -/
theorem Executes.length_eq {x y : S × env.Ctx} (h : env.Executes ops x t y)
    (hnone : t.failure = none) : t.results.length = ops.length := by
  induction h with
  | done => rfl
  | refused => cases hnone
  | next _ _ _ ih => exact congrArg (· + 1) (ih hnone)

/-- The operation a compound stopped at. -/
theorem Executes.stopped {x y : S × env.Ctx} {f : Failure} (h : env.Executes ops x t y)
    (hf : t.failure = some f) :
    ∃ op rest, ops = ops.take t.results.length ++ op :: rest ∧ f.Answers op.opcode := by
  induction h with
  | done => cases hf
  | @refused op ops x f' h =>
    cases hf
    exact ⟨op, ops, rfl, env.answers h⟩
  | @next op ops x y z st r results failure _ _ _ ih =>
    obtain ⟨op', rest, hops, hanswers⟩ := ih hf
    refine ⟨op', rest, ?_, hanswers⟩
    rw [List.length_cons, List.take_succ_cons, List.cons_append, ← hops]

/-! ### Calls -/

variable {s : NfsSession} {call : SessionCall}

/-- What a session call makes of one exchange.  What is sent respects the negotiated
limits. -/
inductive CallServed (env : Environment S) (s : NfsSession) (call : SessionCall) (w : World S) :
    Except CompoundDecodeError call.Result → World S → Prop
  | notSent {source : Error}
      (h : env.faults (call.ops s) ∨
        ∃ err, s.validateCompoundRequest call.tag (call.ops s) = .error err) :
      CallServed env s call w (.error (.ofError (.requestNotSent source))) w
  | rejected {err : Error} (h : env.rejects (call.ops s))
      (hvalid : s.validateCompoundRequest call.tag (call.ops s) = .ok ())
      (herr : err.isForeign = true ∨ ∃ status, status ≠ .OK ∧ err = .ofStatus status .sequence) :
      CallServed env s call w (.error (.ofError err)) (w.send (call.ops s))
  | delivered {t : Replies} {st : S} {ctx : env.Ctx} {out : Except CompoundDecodeError call.Result}
      (hexec : env.Executes (call.ops s) (w.state, env.start) t (st, ctx))
      (hadmits : env.admits (call.ops s) w.state t)
      (hvalid : s.validateCompoundRequest call.tag (call.ops s) = .ok ())
      (hout : (call.expectation t.results).Holds t 1 out) :
      CallServed env s call w out (w.deliver (call.ops s) t st)
  | lost {err : Error} (h : env.faults (call.ops s))
      (hvalid : s.validateCompoundRequest call.tag (call.ops s) = .ok ())
      (herr : err.isForeign = true) :
      CallServed env s call w (.error (.ofError err)) (w.lose (call.ops s))

theorem callServed_of_serve {resp : Except Error (SlotUse × Bytes)}
    (hvalid : s.validateCompoundRequest call.tag (call.ops s) = .ok ())
    (h : env.serve (.exchange s call.tag (call.ops s)) w resp w') :
    ∃ w₁, env.Drifts w w₁ ∧ CallServed env s call w₁ (call.received resp) w' := by
  obtain ⟨w₁, hdrift, hexchanged⟩ := h
  refine ⟨w₁, hdrift, ?_⟩
  cases hexchanged with
  | notSent hfaults => exact .notSent (Or.inl hfaults)
  | rejected hrejects hresponse =>
    obtain ⟨err, hreceived, herr⟩ := call.received_rejected hresponse
    rw [hreceived]
    exact .rejected hrejects hvalid herr
  | delivered hexec hadmits hresponse =>
    exact .delivered hexec hadmits hvalid (call.received_delivered hresponse hexec.answers)
  | lost hfaults herr => exact .lost hfaults hvalid herr

section

variable {rely guar : World S → World S → Prop}

/-- **The rule for a call with retries.**  `P` holds whenever the compound is sent. -/
theorem safe_compoundDecodeDetailed (post : Except CompoundDecodeError call.Result → World S → Prop)
    {retryTransients : Bool} {left : ℕ} (P : World S → Prop) (hP : P w)
    (hrely : ∀ w w', P w → rely w w' → P w') (hdrift : ∀ w w', P w → env.Drifts w w' → P w')
    (hrefl : ∀ w, P w → guar w w)
    (hserved : ∀ w w₁ out w', P w → env.Drifts w w₁ → P w₁ → CallServed env s call w₁ out w' →
      guar w w' ∧ post out w' ∧ ∀ err, out = .error err →
        (NfsSession.retryStatus? (call.ops s) retryTransients err).isSome → P w') :
    Safe (E := effects) env.serve rely guar (fun x w => post x.1 w)
      (s.compoundDecodeDetailed call retryTransients left) w := by
  refine NfsCrust.safe_compoundDecodeDetailed post P hP hrely ?_ ?_ ?_
  · intro w err hw hinvalid
    have hsource : ∃ source, err.notSent = .requestNotSent source := by
      cases err <;> exact ⟨_, rfl⟩
    obtain ⟨source, hsource⟩ := hsource
    rw [hsource]
    exact (hserved w w _ w hw .refl hw (.notSent (Or.inr ⟨err, hinvalid⟩))).2.1
  · intro w₁ resp w₂ hvalid hw hserve
    obtain ⟨w', hdrifts, hcall⟩ := callServed_of_serve hvalid hserve
    exact hserved w₁ w' _ w₂ hw hdrifts (hdrift _ _ hw hdrifts) hcall
  · rintro status attempt w₁ w₂ hw rfl
    exact ⟨hrefl _ hw, hw⟩

/-- The rule for a call. -/
theorem safe_call {post : Except Error call.Result → World S → Prop} (P : World S → Prop) (hP : P w)
    (hrely : ∀ w w', P w → rely w w' → P w') (hdrift : ∀ w w', P w → env.Drifts w w' → P w')
    (hrefl : ∀ w, P w → guar w w)
    (hserved : ∀ w w₁ out w', P w → env.Drifts w w₁ → P w₁ → CallServed env s call w₁ out w' →
      guar w w' ∧ post (out.mapError CompoundDecodeError.error) w' ∧ ∀ err, out = .error err →
        (NfsSession.retryStatus? (call.ops s) call.retryTransients err).isSome → P w') :
    Safe (E := effects) env.serve rely guar post (s.call call).run w :=
  safe_bind (safe_compoundDecodeDetailed
    (fun r w => post (r.mapError CompoundDecodeError.error) w) P hP hrely hdrift hrefl hserved)

/-- A call that keeps `J`, whatever comes of it. -/
theorem safe_call_of_keeps (J : World S → Prop) (hJ : J w)
    (hrely : ∀ w w', J w → rely w w' → J w') (hdrift : ∀ w w', J w → env.Drifts w w' → J w')
    (hguar : ∀ w w', J w → J w' → guar w w')
    (hserved : ∀ w out w', J w → CallServed env s call w out w' → J w') :
    Safe (E := effects) env.serve rely guar (fun _ w' => J w') (s.call call).run w := by
  refine safe_call J hJ hrely hdrift (fun w hw => hguar w w hw hw) ?_
  intro w w₁ out w' hw _ hw₁ hcall
  have hw' := hserved w₁ out w' hw₁ hcall
  exact ⟨hguar w w' hw hw', hw', fun _ _ _ => hw'⟩

end

end Environment

end NfsCrust
