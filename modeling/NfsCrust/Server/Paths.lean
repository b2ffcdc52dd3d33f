import NfsCrust.Read.Mismatch
import NfsCrust.Sweep.Delete

/-!
# Reading what a path names

A server among clients that bind and unbind names between any two of its compounds.  A
compound is executed at one moment; what a handle names does not change, but the handle may
become stale.  Operations may be refused, requests may fail to be sent, and replies may be
lost.

What the server answers to operations on the current object is a parameter.

## Main definitions

* `PathServer`, `PathServer.serve` — the server.
* `Moments.Later` — what others did to the names.

## Main results

* `PathServer.executed_path` — a compound that follows a path and reads what it finds.
* `PathServer.ensures_call` — the rule for a call that follows a path.
-/

namespace NfsCrust

open Interaction Thread Relation

variable {F : Type}

/-- Others changed the names any number of times. -/
def Moments.Later : Moments F → Moments F → Prop := ReflTransGen Moments.Then

/-- What was the case at some moment, was the case later. -/
theorem Moments.Later.mem {m m' : Moments F} (h : m.Later m') {T : Files F}
    (hT : T ∈ m.tree :: m.past) : T ∈ m'.tree :: m'.past := by
  induction h with
  | refl => exact hT
  | tail _ hthen ih =>
    rw [hthen]
    exact List.mem_cons_of_mem _ ih

/-- A server that looks up names and reads objects. -/
structure PathServer (F : Type) where
  /-- What it answers to an operation on an object. -/
  answer : Files F → FileHandle → NfsOp → OpRes → Prop
  /-- The errors of the network. -/
  fails : Error → Prop
  /-- The sessions the client can be on. -/
  session : NfsSession → Prop
  opcode : ∀ {T fh op r}, answer T fh op r → r.opcode = op.opcode

namespace PathServer

/-- An operation succeeds.  No entry of a directory has an empty name. -/
inductive Step (P : PathServer F) (T : Files F) :
    NfsOp → Option FileHandle → OpRes → Option FileHandle → Prop
  | putFh {fh : FileHandle} {c : Option FileHandle} (h : (T.node fh).isSome) :
      Step P T (.putFh fh) c .putFh (some fh)
  | lookup {name : String} {d fh : FileHandle} (hname : name ≠ "")
      (hchild : T.child d name = some fh) : Step P T (.lookup name) (some d) .lookup (some fh)
  | object {op : NfsOp} {fh : FileHandle} {r : OpRes} (hop : op.onFile = true)
      (h : P.answer T fh op r) : Step P T op (some fh) r (some fh)

/-- The server executes a compound, at one moment. -/
inductive Executed (P : PathServer F) (T : Files F) : List NfsOp → Option FileHandle → Replies → Prop
  | done {c : Option FileHandle} : Executed P T [] c ⟨[], none⟩
  | refused {op : NfsOp} {ops : List NfsOp} {c : Option FileHandle} {f : Failure}
      (h : f.Answers op.opcode) : Executed P T (op :: ops) c ⟨[], some f⟩
  | next {op : NfsOp} {ops : List NfsOp} {c c' : Option FileHandle} {r : OpRes}
      {results : List OpRes} {failure : Option Failure} (h : Step P T op c r c')
      (hrest : Executed P T ops c' ⟨results, failure⟩) :
      Executed P T (op :: ops) c ⟨r :: results, failure⟩

/-- How the surroundings answer a request of the client. -/
def serve (P : PathServer F) : (e : Effect) → Moments F → e.Response → Moments F → Prop
  | .exchange _ _ ops, m, resp, m' => m.Later m' ∧ (∀ err, resp = .error err → P.fails err) ∧
      ∀ slot response, resp = .ok (slot, response) →
        Rejected response ∨ ∃ t, Delivered slot t response ∧ P.Executed m'.tree ops none t
  | .reconnect .., m, result, m' => m.Later m' ∧ ∀ err, result = .error err → P.fails err
  | .currentSession, m, snapshot, m' => P.session snapshot.session ∧ m' = m
  | _, m, _, m' => m' = m

variable {P : PathServer F} {T : Files F} {ops tail : List NfsOp} {c : Option FileHandle}
  {t : Replies} {root fh : FileHandle} {components : List String}

/-- Whatever is asked, time only goes on. -/
theorem later_of_serve {m m' : Moments F} {e : Effect} {r : e.Response} (h : P.serve e m r m') :
    m.Later m' := by
  cases e with
  | exchange | reconnect => exact h.1
  | currentSession => exact h.2 ▸ .refl
  | _ => exact h ▸ .refl

theorem Step.opcode {op : NfsOp} {r : OpRes} {c' : Option FileHandle} (h : Step P T op c r c') :
    r.opcode = op.opcode := by
  cases h with
  | putFh | lookup => rfl
  | object _ h => exact P.opcode h

theorem Executed.answers (h : P.Executed T ops c t) :
    Replies.Answers (ops.map NfsOp.opcode) t := by
  induction h with
  | done => exact ⟨rfl, rfl⟩
  | refused h => exact ⟨_, rfl, h⟩
  | next h _ ih => exact ⟨h.opcode, ih⟩

/-- Every answer on an object comes from there. -/
theorem Executed.answers_object (h : P.Executed T ops (some fh) t)
    (hops : ∀ op ∈ ops, op.onFile = true) :
    ∀ p ∈ ops.zip t.results, P.answer T fh p.1 p.2 := by
  generalize hc : some fh = c at h
  induction h with
  | done | refused => simp
  | @next op ops c c' r results failure hstep _ ih =>
    subst hc
    have hop := hops op List.mem_cons_self
    cases hstep with
    | putFh | lookup => cases hop
    | object _ hanswer =>
      intro p hp
      rcases List.mem_cons.mp hp with rfl | hp
      · exact hanswer
      · exact ih (fun op' hop' => hops op' (List.mem_cons_of_mem op hop')) rfl p hp

/-- A compound that reads an object to its end. -/
theorem Executed.forall₂_object (h : P.Executed T ops (some fh) t)
    (hops : ∀ op ∈ ops, op.onFile = true) (hnone : t.failure = none) :
    List.Forall₂ (P.answer T fh) ops t.results := by
  generalize hc : some fh = c at h
  induction h with
  | done => exact .nil
  | refused => cases hnone
  | @next op ops c c' r results failure hstep _ ih =>
    subst hc
    have hop := hops op List.mem_cons_self
    cases hstep with
    | putFh | lookup => cases hop
    | object _ hanswer =>
      exact .cons hanswer (ih (fun op' hop' => hops op' (List.mem_cons_of_mem op hop')) hnone rfl)

theorem Executed.lookups (h : P.Executed T (components.map .lookup ++ tail) (some root) t)
    (htail : ∀ op ∈ tail, op.onFile = true) (hnone : t.failure = none) :
    ∃ fh os, T.resolve root components = some fh ∧
      t.results = List.replicate components.length .lookup ++ os ∧
      List.Forall₂ (P.answer T fh) tail os := by
  induction components generalizing root t with
  | nil => exact ⟨root, t.results, rfl, rfl, h.forall₂_object htail hnone⟩
  | cons name names ih =>
    cases h with
    | refused => cases hnone
    | next hstep hrest =>
      cases hstep with
      | lookup hname hchild =>
        obtain ⟨fh, os, hresolve, hresults, hos⟩ := ih hrest hnone
        refine ⟨fh, os, ?_, congrArg (OpRes.lookup :: ·) hresults, hos⟩
        rw [FileTree.resolve_cons, hchild]
        exact hresolve
      | object hop => cases hop

/-- **A compound that follows a path and reads what it finds** does so at one moment. -/
theorem executed_path (h : P.Executed T (exportPathOps root components ++ tail) none t)
    (htail : ∀ op ∈ tail, op.onFile = true) (hnone : t.failure = none) :
    ∃ fh os, T.resolve root components = some fh ∧
      t.results = .putFh :: (List.replicate components.length .lookup ++ os) ∧
      List.Forall₂ (P.answer T fh) tail os := by
  cases h with
  | refused => cases hnone
  | next hstep hrest =>
    cases hstep with
    | putFh =>
      obtain ⟨fh, os, hresolve, hresults, hos⟩ := hrest.lookups htail hnone
      exact ⟨fh, os, hresolve, congrArg (OpRes.putFh :: ·) hresults, hos⟩

/-! ### Calls -/

variable {m : Moments F} {s : NfsSession} {call : SessionCall}

/-- **The rule for a call that follows a path.**  What it returns was decoded from a response,
and is what the server answered about the object that the path named at one moment. -/
theorem ensures_call {post : Except Error call.Result → Moments F → Prop}
    (hops : call.ops s = exportPathOps s.exportRoot components ++ tail)
    (htail : ∀ op ∈ tail, op.onFile = true) (htyped : ∀ op status, call.typed op status = none)
    (herr : ∀ err m', m.Later m' → post (.error err) m')
    (hok : ∀ value m' fh os, m.Later m' → m'.tree.resolve s.exportRoot components = some fh →
      List.Forall₂ (P.answer m'.tree fh) tail os → (∃ response, call.decode response = .ok value) →
      call.value (.putFh :: (List.replicate components.length .lookup ++ os)) = some value →
      post (.ok value) m') :
    Ensures (E := effects) P.serve (fun _ => True) (liftM (s.call call) : ClientM _).run m post := by
  apply ensures_liftThreadExcept trivial
  apply safe_call (fun m' => m.Later m') .refl
  · rintro w _ hw rfl
    exact hw
  · intro w err hw _ _
    exact herr _ _ hw
  · intro w₁ resp w₂ _ hw₁ hresp
    obtain ⟨hlater, -, hdelivered⟩ := hresp
    have hw₂ : m.Later w₂ := hw₁.trans hlater
    refine ⟨trivial, fun _ => ?_, fun _ _ _ => hw₂⟩
    cases hreceived : call.received resp with
    | error err => exact herr _ _ hw₂
    | ok value =>
      obtain ⟨slot, response, rfl, hdecode⟩ := SessionCall.received_ok hreceived
      rcases hdelivered slot response rfl with hrejected | ⟨t, ht, hexec⟩
      · obtain ⟨err, hrec, -⟩ := call.received_rejected hrejected
        cases hreceived.symm.trans hrec
      · have hholds := call.received_delivered (s := s) ht hexec.answers
        rw [hreceived] at hholds
        obtain ⟨-, ⟨hnone, hvalue⟩ | ⟨f, -, hcaught⟩⟩ := hholds
        · rw [hops] at hexec
          obtain ⟨fh, os, hresolve, hresults, hos⟩ := executed_path hexec htail hnone
          exact hok value w₂ fh os hw₂ hresolve hos ⟨response, hdecode⟩ (hresults ▸ hvalue)
        · cases (htyped f.op f.status).symm.trans hcaught
  · rintro status attempt w₁ _ hw₁ rfl
    exact ⟨trivial, hw₁⟩

end PathServer

end NfsCrust
