import NfsCrust.Server.Environment

/-!
# What is recorded of a compound

A compound that reaches the server is recorded as the operations that were executed, in
order, and the one that was refused.

## Main results

* `executed_mem_happened`, `refused_mem_happened` — the recorded operations are those of
  the compound.
* `happened_append` — a compound whose first part was executed.
-/

namespace NfsCrust

variable {ops ops' rest : List NfsOp} {op : NfsOp} {results : List OpRes} {r : OpRes}
  {failure : Option Failure} {f : Failure}

theorem refused_mem_happened (h : .refused rest f ∈ happened ops results failure) :
    failure = some f ∧ rest = ops.drop results.length := by
  induction results generalizing ops with
  | nil =>
    cases ops with
    | nil => cases h
    | cons op ops =>
      cases failure with
      | none => cases h
      | some f' =>
        rw [happened, List.mem_singleton] at h
        cases h
        exact ⟨rfl, rfl⟩
  | cons r results ih =>
    cases ops with
    | nil => cases h
    | cons op ops =>
      rw [happened, List.mem_cons] at h
      rcases h with h | h
      · cases h
      · exact ih h

theorem executed_mem_happened (h : .executed op r ∈ happened ops results failure) :
    op ∈ ops.take results.length ∧ r ∈ results := by
  induction results generalizing ops with
  | nil =>
    cases ops with
    | nil => cases h
    | cons op' ops =>
      cases failure with
      | none => cases h
      | some f =>
        rw [happened, List.mem_singleton] at h
        cases h
  | cons r' results ih =>
    cases ops with
    | nil => cases h
    | cons op' ops =>
      rw [happened, List.mem_cons] at h
      rw [List.length_cons, List.take_succ_cons]
      rcases h with h | h
      · cases h
        exact ⟨List.mem_cons_self, List.mem_cons_self⟩
      · exact ⟨List.mem_cons_of_mem _ (ih h).1, List.mem_cons_of_mem _ (ih h).2⟩

theorem sent_not_mem_happened : .sent ops' ∉ happened ops results failure := by
  induction results generalizing ops with
  | nil => cases ops <;> cases failure <;> simp [happened]
  | cons r results ih =>
    cases ops with
    | nil => simp [happened]
    | cons op ops => simpa [happened] using ih

/-- A compound whose first part was executed. -/
theorem happened_append (h : ops.length ≤ results.length) :
    happened (ops ++ ops') results failure
      = happened ops (results.take ops.length) none
        ++ happened ops' (results.drop ops.length) failure := by
  induction ops generalizing results with
  | nil => cases results <;> rfl
  | cons op ops ih =>
    cases results with
    | nil => cases h
    | cons r results =>
      rw [List.cons_append, happened, ih (Nat.le_of_succ_le_succ h)]
      rfl

/-- The last operation of a compound that was executed in full. -/
theorem happened_concat {last : NfsOp} (h : results.length = ops.length + 1) :
    ∃ r, happened (ops ++ [last]) results none
      = happened ops (results.take ops.length) none ++ [.executed last r] := by
  have hdrop : (results.drop ops.length).length = 1 := by
    rw [List.length_drop, h]
    omega
  obtain ⟨r, hr⟩ := List.length_eq_one_iff.mp hdrop
  exact ⟨r, by rw [happened_append (h ▸ Nat.le_succ _), hr]; rfl⟩

namespace Environment

variable {S : Type} {env : Environment S} {t : Replies} {x y : S × env.Ctx} {w w' : World S}

/-- A result that was recorded is one of the operation it is recorded with. -/
theorem Executes.opcode_eq (hexec : env.Executes ops x t y)
    (h : .executed op r ∈ happened ops t.results t.failure) : r.opcode = op.opcode := by
  induction hexec with
  | done => cases h
  | refused =>
    rw [happened, List.mem_singleton] at h
    cases h
  | next hop _ _ ih =>
    rw [happened, List.mem_cons] at h
    rcases h with h | h
    · cases h
      exact env.opcode hop
    · exact ih h

theorem Executes.map_opcode (hexec : env.Executes ops x t y) :
    t.results.map OpRes.opcode = (ops.take t.results.length).map NfsOp.opcode := by
  induction hexec with
  | done | refused => rfl
  | next hop _ _ ih =>
    rw [List.map_cons, List.length_cons, List.take_succ_cons, List.map_cons, env.opcode hop, ih]

/-- Without a failure, every operation was recorded as executed. -/
theorem Executes.executed_mem (hexec : env.Executes ops x t y) (hnone : t.failure = none)
    (hop : op ∈ ops) : ∃ r, .executed op r ∈ happened ops t.results t.failure := by
  induction hexec with
  | done => cases hop
  | refused => cases hnone
  | next _ _ _ ih =>
    rcases List.mem_cons.mp hop with rfl | hop
    · exact ⟨_, List.mem_cons_self⟩
    · obtain ⟨r, hr⟩ := ih hnone hop
      exact ⟨r, List.mem_cons_of_mem _ hr⟩

/-- An operation that was reached was executed or refused. -/
theorem Executes.reached_mem (hexec : env.Executes ops x t y)
    (hop : op ∈ ops.take (t.results.length + 1)) :
    (∃ r, .executed op r ∈ happened ops t.results t.failure) ∨
      ∃ rest f, .refused (op :: rest) f ∈ happened ops t.results t.failure := by
  induction hexec with
  | done => cases hop
  | refused =>
    cases List.mem_singleton.mp hop
    exact Or.inr ⟨_, _, List.mem_cons_self⟩
  | next _ _ _ ih =>
    rcases List.mem_cons.mp hop with rfl | hop
    · exact Or.inl ⟨_, List.mem_cons_self⟩
    · rcases ih hop with ⟨r, hr⟩ | ⟨rest, f, hr⟩
      · exact Or.inl ⟨r, List.mem_cons_of_mem _ hr⟩
      · exact Or.inr ⟨rest, f, List.mem_cons_of_mem _ hr⟩

/-- Without compounds under way, a drift only changes the state of the server. -/
theorem Drifts.eq_state (h : env.Drifts w w') (hlate : w.late = []) :
    w' = { w with state := w'.state } := by
  induction h with
  | refl => rfl
  | tail _ hstep ih =>
    cases hstep with
    | state =>
      rw [ih]
    | late hlate' =>
      rw [ih, hlate] at hlate'
      simp at hlate'

end Environment

end NfsCrust
