import NfsCrust.Exchange
import NfsCrust.Limits
import NfsCrust.Lib.Traces

/-!
# Batches of closes

`close_batch` closes the files whose publish is done, several in one compound.  Where a
group ends is found by trial: it starts with as many files as the operation limit allows and
gives up one after the other until the request fits, or one file is left.

## Main definitions

* `NfsSession.closeGroups` — the groups, in the order of their compounds.
* `NfsSession.CloseFits` — the compound of a group respects both limits.

## Main results

* `NfsSession.closeBatchLen_spec` — where a group ends.
* `NfsSession.closeBatch_groups` — what `close_batch` sends.
-/

namespace NfsCrust

open Interaction

theorem nonempty_response (e : Effect) : Nonempty e.Response := by
  cases e with
  | exchange s tag ops => exact ⟨.error default⟩
  | sleepBeforeTransientRetry status attempt => exact ⟨()⟩
  | latchFusedPutOff s => exact ⟨()⟩
  | sessionSlotCount s => exact ⟨Nat.zero⟩
  | unixNowMillis => exact ⟨Nat.zero⟩
  | fusedPutSupported s => exact ⟨false⟩
  | deferClose s opened => exact ⟨false⟩
  | nextOwner s => exact ⟨[]⟩
  | tempFileName => exact ⟨""⟩
  | currentSession => exact ⟨⟨⟨⟨[]⟩, 0, 0, { «export» := "" }⟩, 0⟩⟩
  | reconnect failedGeneration attempt cause => exact ⟨.ok ()⟩

namespace NfsSession

variable (s : NfsSession)

/-- One `PUTFH` and `CLOSE` for each file. -/
def closeOps (files : List OpenedFile) : List NfsOp :=
  files.flatMap fun file => [.putFh file.fh, .close file.closeSeqid file.stateid]

/-- The compound of a group respects the operation limit and the request size. -/
def CloseFits (files : List OpenedFile) : Prop :=
  2 * files.length + 1 ≤ s.config.maxCompoundOps.toNat ∧
    s.encodedCallLen (compoundWithSequenceEncodedLen "close-batch" (closeOps files))
      ≤ s.config.maxRequestSize.toNat

/-- The number of files that the operation limit allows in one compound, from 1 to 16. -/
def maxFilesByOps : ℕ :=
  max 1 (min ((s.config.maxCompoundOps.toNat - 1) / 2) MAX_DEFERRED_CLOSE_BATCH)

/-- The groups, in the order of their compounds. -/
def closeGroups : (turns : ℕ) → List OpenedFile → List (List OpenedFile)
  | 0, _ | _ + 1, [] => []
  | turns + 1, files@(_ :: _) =>
    let len := s.closeBatchLen files (min s.maxFilesByOps files.length)
    files.take len :: closeGroups turns (files.drop len)

theorem length_closeOps (files : List OpenedFile) : (closeOps files).length = 2 * files.length := by
  induction files with
  | nil => rfl
  | cons file files ih =>
    have hcons : closeOps (file :: files)
        = [.putFh file.fh, .close file.closeSeqid file.stateid] ++ closeOps files := rfl
    rw [hcons, List.length_append, ih]
    simp only [List.length_cons, List.length_nil]
    omega

theorem fits_iff {files : List OpenedFile} :
    s.compoundRequestFits "close-batch" ((SessionCall.closeBatch files).ops s) = true ↔
      s.CloseFits files := by
  have hvalidate : s.compoundRequestFits "close-batch" ((SessionCall.closeBatch files).ops s) = true ↔
      s.validateCompoundRequest "close-batch" (closeOps files) = .ok () := by
    constructor
    · exact validate_of_fits
    · intro h
      rw [compoundRequestFits]
      show (s.validateCompoundRequest "close-batch" (closeOps files)).toOption.isSome = true
      rw [h]
      rfl
  have hmax := s.config.maxCompoundOps.toNat_lt
  rw [hvalidate, validateCompoundRequest_eq_ok, length_closeOps, saturatingAdd, CloseFits]
  omega

/-! ### One group -/

/-- **Where a group ends.**  Trying `n` files first, the trial ends with at least one and at most
`n`; two or more fit, and no longer group up to `n` does. -/
theorem closeBatchLen_spec (files : List OpenedFile) {n : ℕ} (hn : 0 < n) :
    0 < s.closeBatchLen files n ∧ s.closeBatchLen files n ≤ n ∧
    (2 ≤ s.closeBatchLen files n → s.CloseFits (files.take (s.closeBatchLen files n))) ∧
    ∀ m, s.closeBatchLen files n < m → m ≤ n → ¬ s.CloseFits (files.take m) := by
  induction n with
  | zero => cases hn
  | succ n ih =>
    cases n with
    | zero =>
      have hone : s.closeBatchLen files 1 = 1 := rfl
      rw [hone]
      exact ⟨Nat.one_pos, Nat.le_refl 1, by omega, by omega⟩
    | succ n =>
      rw [closeBatchLen]
      split
      · next hfits =>
        rw [fits_iff] at hfits
        exact ⟨by omega, Nat.le_refl _, fun _ => hfits, by omega⟩
      · next hfits =>
        rw [fits_iff] at hfits
        obtain ⟨hpos, hle, hfit, hlongest⟩ := ih (Nat.succ_pos n)
        refine ⟨hpos, by omega, hfit, fun m hm hmn => ?_⟩
        -- the group that was just tried, or a shorter one
        by_cases hlast : m = n + 2
        · rw [hlast]
          exact hfits
        · exact hlongest m hm (by omega)

/-! ### All groups -/

theorem maxFilesByOps_pos : 0 < s.maxFilesByOps := Nat.le_max_left _ _

theorem maxFilesByOps_le : s.maxFilesByOps ≤ 16 := by
  have hdef : MAX_DEFERRED_CLOSE_BATCH = 16 := rfl
  unfold maxFilesByOps
  omega

/-- A group is not empty and has at most 16 files; it is within the limits unless it is a
single file, and no longer group of the files that were left when it began is. -/
structure GroupOf (group later : List OpenedFile) : Prop where
  ne_nil : group ≠ []
  length_le : group.length ≤ 16
  fits : 2 ≤ group.length → s.CloseFits group
  longest : ∀ m, group.length < m → m ≤ s.maxFilesByOps → m ≤ (group ++ later).length →
    ¬ s.CloseFits ((group ++ later).take m)

theorem groupOf_take (files : List OpenedFile) (hfiles : files ≠ []) :
    s.GroupOf (files.take (s.closeBatchLen files (min s.maxFilesByOps files.length)))
      (files.drop (s.closeBatchLen files (min s.maxFilesByOps files.length))) := by
  have hbound := s.maxFilesByOps_pos
  have hbound' := s.maxFilesByOps_le
  have hlen : 0 < files.length := List.length_pos_iff.mpr hfiles
  obtain ⟨hpos, hle, hfit, hlongest⟩ :=
    s.closeBatchLen_spec files (n := min s.maxFilesByOps files.length) (by omega)
  generalize s.closeBatchLen files (min s.maxFilesByOps files.length) = len at *
  have htake : (files.take len).length = len := by
    rw [List.length_take]
    omega
  refine ⟨?_, by omega, ?_, ?_⟩
  · intro hnil
    rw [hnil] at htake
    simp only [List.length_nil] at htake
    omega
  · rw [htake]
    exact hfit
  · rw [htake, List.take_append_drop]
    intro m hm hbound hmlen
    exact hlongest m hm (by omega)

theorem flatten_closeGroups {turns : ℕ} {files : List OpenedFile} (h : files.length ≤ turns) :
    (s.closeGroups turns files).flatten = files := by
  induction turns generalizing files with
  | zero =>
    obtain rfl := List.length_eq_zero_iff.mp (Nat.le_zero.mp h)
    rfl
  | succ turns ih =>
    cases files with
    | nil => rfl
    | cons file files =>
      have hgroup := s.groupOf_take (file :: files) (List.cons_ne_nil file files)
      have hpos := List.length_pos_iff.mpr hgroup.ne_nil
      rw [closeGroups, List.flatten_cons, ih, List.take_append_drop]
      rw [List.length_take] at hpos
      rw [List.length_drop]
      omega

theorem groupOf_closeGroups {turns : ℕ} {files : List OpenedFile} (h : files.length ≤ turns)
    {before after : List (List OpenedFile)} {group : List OpenedFile}
    (hsplit : s.closeGroups turns files = before ++ group :: after) :
    s.GroupOf group after.flatten := by
  induction turns generalizing files before with
  | zero =>
    rw [closeGroups] at hsplit
    cases before <;> cases hsplit
  | succ turns ih =>
    cases files with
    | nil =>
      rw [closeGroups] at hsplit
      cases before <;> cases hsplit
    | cons file files =>
      have hgroup := s.groupOf_take (file :: files) (List.cons_ne_nil file files)
      have hpos := List.length_pos_iff.mpr hgroup.ne_nil
      rw [List.length_take] at hpos
      rw [closeGroups] at hsplit
      generalize s.closeBatchLen (file :: files) _ = len at *
      have hrest : ((file :: files).drop len).length ≤ turns := by
        rw [List.length_drop]
        omega
      cases before with
      | nil =>
        cases hsplit
        rw [s.flatten_closeGroups hrest]
        exact hgroup
      | cons first before =>
        rw [List.cons_append, List.cons.injEq] at hsplit
        exact ih hrest hsplit.2

/-! ### What is sent -/

/-- The request for a group. -/
def closeRequest (group : List OpenedFile) : Effect := .exchange s "close-batch" (closeOps group)

theorem traces_compoundRawOnce {tag : String} {ops : List NfsOp} {es : List Effect}
    {r : Except Error Bytes} (h : (s.compoundRawOnce tag ops).run.Traces es r) :
    (es = [] ∧ ∃ err, r = .error err) ∨ es = [.exchange s tag ops] := by
  unfold compoundRawOnce at h
  split at h
  · obtain ⟨rfl, rfl⟩ := Thread.traces_ret.mp h
    exact .inl ⟨rfl, _, rfl⟩
  · right
    rcases Thread.traces_bindExcept.mp h with ⟨es₁, es₂, ⟨slot, response⟩, h₁, h₂, rfl⟩ |
      ⟨err, h₁, rfl⟩
    · obtain rfl := Thread.eq_singleton_of_traces_request h₁
      -- nothing is asked after the exchange
      dsimp only at h₂
      cases hsequence : decodeSequenceResult response slot.sessionid slot.sequenceid slot.slotid with
      | ok result =>
        rw [hsequence] at h₂
        obtain ⟨rfl, _⟩ := Thread.traces_ret.mp h₂
        rfl
      | error err =>
        rw [hsequence] at h₂
        obtain ⟨rfl, _⟩ := Thread.traces_ret.mp h₂
        rfl
    · exact Thread.eq_singleton_of_traces_request h₁

/-- Without retries a call is made once. -/
theorem traces_of_no_retry {call : SessionCall} {left : ℕ} {es : List Effect}
    {outcome : Except CompoundDecodeError call.Result × ℕ}
    (h : (s.compoundDecodeDetailed call false left).Traces es outcome) :
    (s.compoundDecodeOnce call).Traces es outcome.1 := by
  cases left with
  | zero =>
    obtain ⟨es₁, es₂, a, h₁, h₂, rfl⟩ := Thread.traces_bind.mp h
    obtain ⟨rfl, rfl⟩ := Thread.traces_ret.mp h₂
    rwa [List.append_nil]
  | succ left =>
    obtain ⟨es₁, es₂, a, h₁, h₂, rfl⟩ := Thread.traces_bind.mp h
    cases a with
    | ok result =>
      obtain ⟨rfl, rfl⟩ := Thread.traces_ret.mp h₂
      rwa [List.append_nil]
    | error err =>
      obtain ⟨rfl, rfl⟩ := Thread.traces_ret.mp h₂
      rwa [List.append_nil]

/-- The compound of a group is sent once, if at all. -/
theorem traces_call_closeBatch {group : List OpenedFile} {es : List Effect} {r : Except Error Unit}
    (h : (s.call (.closeBatch group)).run.Traces es r) :
    (es = [] ∧ ∃ err, r = .error err) ∨ es = [s.closeRequest group] := by
  obtain ⟨es₁, es₂, outcome, h₁, h₂, rfl⟩ := Thread.traces_bind.mp h
  obtain ⟨rfl, rfl⟩ := Thread.traces_ret.mp h₂
  rw [List.append_nil]
  obtain ⟨es₃, es₄, a, h₃, h₄, rfl⟩ := Thread.traces_bind.mp (s.traces_of_no_retry h₁)
  have hes₄ : es₄ = [] := by
    cases a with
    | ok response => exact (Thread.traces_ret.mp h₄).1
    | error err => exact (Thread.traces_ret.mp h₄).1
  subst hes₄
  rw [List.append_nil]
  rcases s.traces_compoundRawOnce h₃ with ⟨rfl, err, rfl⟩ | rfl
  · obtain ⟨_, hout⟩ := Thread.traces_ret.mp h₄
    exact .inl ⟨rfl, CompoundDecodeError.error (.ofError err), by rw [hout]; rfl⟩
  · exact .inr rfl

/-- The loop sends the compounds of the groups in order; it stops at the first that fails. -/
theorem traces_closeBatchFrom {turns : ℕ} {files : List OpenedFile} {es : List Effect}
    {r : Except Error Unit}
    (h : (s.closeBatchFrom s.maxFilesByOps turns files).run.Traces es r) :
    es <+: (s.closeGroups turns files).map s.closeRequest ∧
    (r = .ok () → es = (s.closeGroups turns files).map s.closeRequest) ∧
    (∀ err, r = .error err → ∃ group ∈ s.closeGroups turns files, ∃ es',
      (s.call (.closeBatch group)).run.Traces es' (.error err)) := by
  induction turns generalizing files es with
  | zero =>
    rw [closeBatchFrom] at h
    obtain ⟨rfl, rfl⟩ := Thread.traces_ret.mp h
    exact ⟨List.prefix_refl _, fun _ => rfl, nofun⟩
  | succ turns ih =>
    cases files with
    | nil =>
      rw [closeBatchFrom] at h
      obtain ⟨rfl, rfl⟩ := Thread.traces_ret.mp h
      exact ⟨List.prefix_refl _, fun _ => rfl, nofun⟩
    | cons file files =>
      rw [closeBatchFrom] at h
      rw [closeGroups]
      generalize s.closeBatchLen (file :: files) _ = len at h ⊢
      rw [List.map_cons]
      rcases Thread.traces_bindExcept.mp h with ⟨es₁, es₂, _, h₁, h₂, rfl⟩ | ⟨err, h₁, rfl⟩
      · obtain ⟨hpre, hall, herr⟩ := ih h₂
        rcases s.traces_call_closeBatch h₁ with ⟨_, err, hr⟩ | rfl
        · cases hr
        · refine ⟨?_, ?_, ?_⟩
          · exact List.prefix_cons_inj _ |>.mpr hpre
          · intro hr
            rw [hall hr]
            rfl
          · intro err hr
            obtain ⟨group, hmem, hgroup⟩ := herr err hr
            exact ⟨group, List.mem_cons_of_mem _ hmem, hgroup⟩
      · refine ⟨?_, nofun, ?_⟩
        · rcases s.traces_call_closeBatch h₁ with ⟨rfl, _⟩ | rfl
          · exact List.nil_prefix
          · exact List.prefix_cons_inj _ |>.mpr List.nil_prefix
        · rintro err ⟨⟩
          exact ⟨_, List.mem_cons_self, es, h₁⟩

end NfsSession

end NfsCrust
