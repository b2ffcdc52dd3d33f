import NfsCrust.Read.Honest
import NfsCrust.Read.Pipelined

/-!
# Reads of one file

Against a server that serves one file, every way to read a handle ends and returns
the same bytes, whatever the chunk sizes, the depth of the pipeline, the order of the
replies and the lengths of short reads.

## Main results

* `must_readHandleToBytesSequentialInto`, `must_readHandleToBytesPipelinedInto`,
  `must_readHandleSingleChunkOrContinue` — the three ways.
* `readHandle_serving` — the choice between them.
* `readHandle_beyond` — why the expected end must lie in the range that is read.
-/

namespace NfsCrust

open Interaction Ranges

/-- What is asked of the requirements of a read: the result fits the limit, and an
expected EOF is the end of the file and lies in the range. -/
structure ReadRequirements.Meets (requirements : ReadRequirements) (F : Bytes) (initial : ℕ)
    (start len : ℕ) : Prop where
  limit : ∀ l, requirements.limit = some l → initial + (slice F start len).length ≤ l
  eof : ∀ x, requirements.expectedEof = some x →
    x.offset = F.length ∧ start ≤ F.length ∧ F.length ≤ start + len ∧ 0 < len

section

variable {s : NfsSession} {fh : FileHandle} {F : Bytes} {requirements : ReadRequirements}
  {initial : Bytes} {start len : ℕ}

/-- What a read of a range can learn about the end of the file. -/
def Observes (F : Bytes) (start len : ℕ) (observed : Option ℕ) : Prop :=
  observed = some (max F.length start) ∨ observed = none ∧ (start + len < F.length ∨ len = 0)

/-- The end that was observed is the one that was expected. -/
theorem ReadRequirements.Meets.validate (h : requirements.Meets F initial.length start len)
    {observed : Option ℕ} (hobserved : Observes F start len observed) :
    validateOptionalObservedEof requirements.expectedEof observed = .ok () := by
  cases hexpected : requirements.expectedEof with
  | none => rfl
  | some x =>
    obtain ⟨hx, hstart, hend, hlen⟩ := h.eof x hexpected
    rcases hobserved with rfl | ⟨rfl, hnone⟩
    · simp only [validateOptionalObservedEof]
      rw [if_neg (not_not_intro (by omega))]
    · omega

/-- A part of the file fits the limit, after `n` bytes. -/
def ReadRequirements.Fits (requirements : ReadRequirements) (F : Bytes) (n start len : ℕ) : Prop :=
  ∀ l, requirements.limit = some l → n + (slice F start len).length ≤ l

/-- The result of a read: the part of the file that was asked for, unless the end that was
observed is not the one that was expected. -/
def ReadRequirements.Outcome (requirements : ReadRequirements) (F initial : Bytes) (start len : ℕ)
    (r : Except Error Bytes) : Prop :=
  ∃ observed, Observes F start len observed ∧
    r = (validateOptionalObservedEof requirements.expectedEof observed).map
      fun _ => initial ++ slice F start len

/-- The result of a read that has seen the end of the file only if it lies in the range. -/
def ReadRequirements.Ended (requirements : ReadRequirements) (F initial : Bytes) (start len : ℕ)
    (r : Except Error Bytes) : Prop :=
  ∃ observed, Observes F start len observed ∧ (observed ≠ none → F.length ≤ start + len) ∧
    r = (validateOptionalObservedEof requirements.expectedEof observed).map
      fun _ => initial ++ slice F start len

theorem ReadRequirements.Ended.outcome {r : Except Error Bytes}
    (h : requirements.Ended F initial start len r) :
    requirements.Outcome F initial start len r := by
  obtain ⟨observed, hobserved, -, hr⟩ := h
  exact ⟨observed, hobserved, hr⟩

theorem ReadRequirements.Meets.eq_ok {r : Except Error Bytes}
    (h : requirements.Meets F initial.length start len)
    (hr : requirements.Outcome F initial start len r) : r = .ok (initial ++ slice F start len) := by
  obtain ⟨observed, hobserved, rfl⟩ := hr
  rw [h.validate hobserved]
  rfl

/-- An end that is not where it was expected is an error. -/
theorem ReadRequirements.Outcome.eq_error {r : Except Error Bytes} {x : ExpectedEof}
    (hr : requirements.Outcome F initial start len r) (hx : requirements.expectedEof = some x)
    (hne : x.offset ≠ max F.length start) :
    ∃ actual, r = .error (sizeExpectationError x actual) := by
  obtain ⟨observed, hobserved, rfl⟩ := hr
  rw [hx]
  rcases hobserved with rfl | ⟨rfl, -⟩
  · exact ⟨_, congrArg (Except.map _) (if_pos hne)⟩
  · exact ⟨_, rfl⟩

/-! ### Sequential reads -/

/-- The loop variables of a sequential read before a turn. -/
structure Reading.Before (F : Bytes) (initial : Bytes) (start len : ℕ) (n : ℕ)
    (r : SequentialRead) : Prop where
  remaining : r.remaining = n
  start_le : start ≤ r.offset
  range : r.offset + r.remaining = start + len
  out : r.out = initial ++ slice F start (r.offset - start)
  observed : r.observedEof = none
  below : r.offset = start ∨ r.offset < F.length

/-- The loop variables after the last turn. -/
structure Reading.After (F : Bytes) (initial : Bytes) (start len : ℕ) (r : SequentialRead) :
    Prop where
  out : r.out = initial ++ slice F start len
  observed : Observes F start len r.observedEof

namespace Reading.Before

variable {n count : ℕ} {r : SequentialRead} {read : ReadData}

theorem out_append (h : Before F initial start len n r) (hserved : Served F r.offset count read) :
    r.out ++ read.data = initial ++ slice F start (r.offset + read.data.length - start) := by
  have hstart := h.start_le
  have hjoin := slice_append F start (r.offset - start) read.data.length
  rw [Nat.add_sub_of_le hstart, ← hserved.data] at hjoin
  rw [h.out, List.append_assoc, hjoin, Nat.sub_add_comm hstart]

/-- Nothing was read: the end lies at the start of the range. -/
theorem empty (h : Before F initial start len n r) (hserved : Served F r.offset count read)
    (hcount : 0 < count) (hdata : read.data = []) :
    After F initial start len { r with
      observedEof := if read.eof then some (r.offset + read.data.length) else r.observedEof } := by
  have hend := hserved.length_le hcount hdata
  have hoffset : r.offset = start := h.below.resolve_right (by omega)
  refine ⟨?_, Or.inl ?_⟩
  · rw [h.out]
    congr 1
    exact slice_eq_slice (by omega) (by omega)
  · rw [if_pos (hserved.eof_of_empty hcount hdata), hdata, List.length_nil, Nat.add_zero, hoffset,
      Nat.max_eq_right (by omega)]

/-- The end of the file was read. -/
theorem last (h : Before F initial start len n r) (hserved : Served F r.offset count read)
    (hcount : count ≤ r.remaining) (hdata : read.data ≠ []) (heof : read.eof = true) :
    After F initial start len
      { out := r.out ++ read.data
        offset := r.offset + read.data.length
        remaining := r.remaining - read.data.length
        observedEof := some (r.offset + read.data.length) } := by
  have hstop := hserved.stop_le hdata
  have hend := hserved.eof.mp heof
  have hshort := hserved.short
  have hstart := h.start_le
  have hrange := h.range
  refine ⟨?_, Or.inl ?_⟩
  · dsimp only
    rw [h.out_append hserved]
    congr 1
    exact slice_eq_slice (by omega) (by omega)
  · dsimp only
    congr 1
    omega

/-- More is to be read. -/
theorem advance (h : Before F initial start len n r) (hserved : Served F r.offset count read)
    (hcount : count ≤ r.remaining) (heof : ¬ read.eof = true) :
    Before F initial start len (r.remaining - read.data.length)
      { out := r.out ++ read.data
        offset := r.offset + read.data.length
        remaining := r.remaining - read.data.length
        observedEof := r.observedEof } := by
  have hend := fun hle => heof (hserved.eof.mpr hle)
  have hshort := hserved.short
  have hstart := h.start_le
  have hrange := h.range
  exact
    { remaining := rfl
      start_le := by dsimp only; omega
      range := by dsimp only; omega
      out := h.out_append hserved
      observed := h.observed
      below := Or.inr (Nat.lt_of_not_le hend) }

end Reading.Before

theorem must_sequentialReadTurn (hadmits : s.AdmitsRead fh) (hchunk : 0 < s.readChunkSize)
    (hend : start + len < 2 ^ 64) (hfits : requirements.Fits F initial.length start len) {n : ℕ}
    {r : SequentialRead}
    (h : Reading.Before F initial start len n r) :
    Must (E := effects) (servesFile fh F) (fun
      | .ok (.inl r'), _ => ∃ m < n, Reading.Before F initial start len m r'
      | .ok (.inr r'), _ => Reading.After F initial start len r' ∧
          (r'.observedEof ≠ none → F.length ≤ start + len)
      | .error _, _ => False) (sequentialReadTurn s fh requirements r).run () := by
  have hrange := h.range
  unfold sequentialReadTurn
  split
  · next hzero =>
    refine must_pure ⟨⟨?_, Or.inr ⟨h.observed, ?_⟩⟩, fun hsome => absurd h.observed hsome⟩
    · rw [h.out, show r.offset - start = len by omega]
    · rcases h.below with hbelow | hbelow <;> omega
  · next hpos =>
    generalize hcount : min r.remaining s.readChunkSize = count
    have hcountpos : 0 < count := by omega
    have hle : count ≤ r.remaining := by omega
    have hsmall : count < 2 ^ 32 := by
      have := s.config.readChunkSize.toNat_lt
      unfold NfsSession.readChunkSize at hcount
      omega
    dsimp only
    rw [asU32_eq hsmall]
    refine must_bindExcept (must_liftThreadExcept
      ((finishes_readAnonymous hadmits hsmall).mono ?_))
    rintro _ _ ⟨read, rfl, hserved⟩
    have hadd : addU64 r.offset read.data.length = .ok (r.offset + read.data.length) := by
      have hshort := hserved.short
      exact addU64_eq (by omega)
    have hobserve : observeEof r.offset read r.observedEof
        = .ok (if read.eof then some (r.offset + read.data.length) else r.observedEof) := by
      unfold observeEof
      rw [hadd]
      split <;> rfl
    refine must_bindExcept (must_except ?_)
    rw [hserved.validate hcountpos]
    refine must_bindExcept (must_except ?_)
    rw [hobserve]
    dsimp only
    split
    · next hdata =>
      have hend := hserved.length_le hcountpos hdata
      exact must_pure ⟨h.empty hserved hcountpos hdata, fun _ => by omega⟩
    · next hdata =>
      have hstop := hserved.stop_le hdata
      have hshort := hserved.short
      have hstart := h.start_le
      have hlimit : ensureBufferedReadWithinLimit r.out.length read.data.length
          requirements.expectedLen requirements.limit = .ok () := by
        refine ensureBufferedReadWithinLimit_eq fun l hl => ?_
        have hfits := hfits l hl
        rw [length_slice] at hfits
        rw [h.out, List.length_append, length_slice]
        omega
      refine must_bindExcept (must_except ?_)
      rw [hlimit]
      refine must_bindExcept (must_except ?_)
      rw [hadd]
      dsimp only
      split
      · next heof =>
        have hend := hserved.eof.mp heof
        exact must_pure ⟨h.last hserved hle hdata heof, fun _ => by omega⟩
      · next heof =>
        have hlen := List.length_pos_iff.mpr hdata
        have hn := h.remaining
        exact must_pure ⟨r.remaining - read.data.length, by omega, h.advance hserved hle heof⟩

/-- A sequential read returns the part of the file that was asked for. -/
theorem must_readHandleToBytesSequentialInto (hadmits : s.AdmitsRead fh)
    (hchunk : 0 < s.readChunkSize) (hend : start + len < 2 ^ 64)
    (hfits : requirements.Fits F initial.length start len) :
    Must (E := effects) (servesFile fh F) (fun r _ => requirements.Ended F initial start len r)
      (readHandleToBytesSequentialInto s fh initial start len requirements).run () := by
  have hstart : Reading.Before F initial start len len
      { out := initial, offset := start, remaining := len, observedEof := none } :=
    ⟨rfl, Nat.le_refl _, rfl, by simp, rfl, Or.inl rfl⟩
  refine must_bindExcept (must_loopExcept (fun n r _ => Reading.Before F initial start len n r)
    hstart fun n r _ hr => (must_sequentialReadTurn hadmits hchunk hend hfits hr).mono ?_)
  rintro r _ hr
  match r, hr with
  | .ok (.inl r'), hr => exact hr
  | .ok (.inr r'), hr =>
    refine must_bindExcept (must_except ?_)
    cases hvalid : validateOptionalObservedEof requirements.expectedEof r'.observedEof with
    | ok _ => exact must_pure ⟨_, hr.1.observed, hr.2, by rw [hvalid, hr.1.out]; rfl⟩
    | error err => exact ⟨_, hr.1.observed, hr.2, by rw [hvalid]; rfl⟩

/-! ### One chunk -/

/-- The reply fits the limit, as the whole read does. -/
theorem Served.within {read : ReadData} (h : Served F start len read)
    (hfits : requirements.Fits F 0 start len) :
    ensureBufferedReadWithinLimit 0 read.data.length requirements.expectedLen requirements.limit
      = .ok () := by
  refine ensureBufferedReadWithinLimit_eq fun l hl => ?_
  have hfits := hfits l hl
  have hshort := h.short
  have hlen := congrArg List.length h.data
  rw [length_slice] at hfits hlen
  omega

/-- What follows the reply fits the limit after it. -/
theorem Served.fits_rest {read : ReadData} (h : Served F start len read)
    (hfits : requirements.Fits F 0 start len) :
    requirements.Fits F read.data.length (start + read.data.length) (len - read.data.length) := by
  intro l hl
  have hfits := hfits l hl
  have hshort := h.short
  have hlen := congrArg List.length h.data
  rw [length_slice] at hfits hlen ⊢
  omega

/-- A reply that is complete or reaches the end is the result of the read. -/
theorem Served.ended {read : ReadData} (h : Served F start len read)
    (hdone : (!readNeedsRetry read len) = true)
    (hexpected : ∀ x, requirements.expectedEof = some x → x.offset ≤ start + len) :
    requirements.Ended F [] start len
      ((validateOptionalExpectedEof requirements.expectedEof (start + read.data.length)
        read.eof).map fun _ => read.data) := by
  have hshort := h.short
  have hdone : read.data.length = len ∨ read.eof = true := by
    simp only [readNeedsRetry, Bool.not_and, Bool.not_not, Bool.or_eq_true,
      Bool.not_eq_true', decide_eq_false_iff_not] at hdone
    exact hdone.imp_left (by omega)
  cases heof : read.eof with
  | true =>
    have hend := h.eof.mp heof
    have hdata : read.data = slice F start len := by
      rw [h.data]
      exact slice_eq_slice hend (by omega)
    have hstop : start + read.data.length = max F.length start := by
      rcases eq_or_ne read.data [] with hnil | hne
      · rw [hnil, List.length_nil] at hend ⊢
        omega
      · have := h.stop_le hne
        omega
    refine ⟨some (start + read.data.length), Or.inl (by rw [hstop]), fun _ => by omega, ?_⟩
    rw [List.nil_append, ← hdata]
    cases requirements.expectedEof with
    | none => rfl
    | some x =>
      simp only [validateOptionalExpectedEof, validateEofExpectation, validateOptionalObservedEof,
        if_true, ne_eq, ite_not, eq_comm (a := x.offset)]
  | false =>
    have hfull : read.data.length = len := hdone.resolve_right (by simp [heof])
    have hbelow : start + len < F.length := by
      rw [← hfull]
      refine Nat.lt_of_not_le fun hle => ?_
      rw [h.eof.mpr hle] at heof
      cases heof
    refine ⟨none, Or.inr ⟨rfl, Or.inl hbelow⟩, fun hsome => absurd rfl hsome, ?_⟩
    rw [List.nil_append, ← hfull, ← h.data]
    cases hx : requirements.expectedEof with
    | none => rfl
    | some x =>
      have hle := hexpected x hx
      simp only [validateOptionalExpectedEof, validateEofExpectation, validateOptionalObservedEof]
      rw [if_neg Bool.false_ne_true, if_pos (by omega)]

/-- A reply and the result of the read that goes on after it. -/
theorem Served.ended_append {read : ReadData} {r : Except Error Bytes}
    (h : Served F start len read) (hbelow : start + read.data.length < F.length)
    (hr : requirements.Ended F read.data (start + read.data.length) (len - read.data.length) r) :
    requirements.Ended F [] start len r := by
  have hshort := h.short
  obtain ⟨observed, hobserved, hwithin, rfl⟩ := hr
  refine ⟨observed, ?_, fun hsome => by have := hwithin hsome; omega, ?_⟩
  · refine hobserved.imp ?_ ?_
    · rintro rfl
      congr 1
      omega
    · rintro ⟨rfl, hend⟩
      exact ⟨rfl, Or.inl (by omega)⟩
  · rw [h.append_slice, Nat.add_sub_of_le hshort, List.nil_append]

/-- A read of one chunk, continued when it is short, returns the part of the file that
was asked for. -/
theorem must_readHandleSingleChunkOrContinue (hadmits : s.AdmitsRead fh)
    (hchunk : 0 < s.readChunkSize) (hpos : 0 < len) (hsmall : len < 2 ^ 32)
    (hend : start + len < 2 ^ 64) (hreserve : requirements.reserve len = .ok ())
    (hfits : requirements.Fits F 0 start len)
    (hexpected : ∀ x, requirements.expectedEof = some x → x.offset ≤ start + len) :
    Must (E := effects) (servesFile fh F) (fun r _ => requirements.Ended F [] start len r)
      (readHandleSingleChunkOrContinue s fh start len requirements).run () := by
  refine must_bindExcept (must_liftThreadExcept ((finishes_readAnonymous hadmits hsmall).mono ?_))
  rintro _ _ ⟨read, rfl, hserved⟩
  have hshort := hserved.short
  have hadd : addU64 start read.data.length = .ok (start + read.data.length) :=
    addU64_eq (by omega)
  refine must_bindExcept (must_except ?_)
  rw [hserved.validate hpos]
  refine must_bindExcept (must_except ?_)
  rw [hserved.within hfits]
  dsimp only
  split
  · next hdone =>
    refine must_bindExcept (must_except ?_)
    rw [hadd]
    exact must_check (hserved.ended hdone hexpected)
  · next hretry =>
    have hmore : read.data.length < len ∧ ¬ read.eof = true := by
      simpa [readNeedsRetry] using hretry
    have hbelow : start + read.data.length < F.length :=
      Nat.lt_of_not_le fun hle => hmore.2 (hserved.eof.mpr hle)
    refine must_bindExcept (must_except ?_)
    rw [hreserve]
    refine must_bindExcept (must_except ?_)
    rw [hadd]
    exact (must_readHandleToBytesSequentialInto hadmits hchunk (by omega)
      (hserved.fits_rest hfits)).mono fun r _ hr => hserved.ended_append hbelow hr

/-! ### Pipelined reads -/

/-- A pipelined read of the file.  A reply can only be known once its range was handed
out. -/
def fileReading (F : Bytes) (requirements : ReadRequirements) (initial : Bytes) (start len : ℕ)
    (scheduled : ℕ) : Reading where
  start := start
  stop := start + len
  initial := initial
  requirements := requirements
  known r := Served F r.offset r.requested ⟨r.eof, r.data⟩ ∧ 0 < r.requested ∧
    start ≤ r.offset ∧ r.offset + r.requested ≤ scheduled

/-- The invariant of a pipelined read of the file, with the ranges in flight. -/
structure Serving (F : Bytes) (requirements : ReadRequirements) (initial : Bytes)
    (start len : ℕ) (x : ChunkScheduler × PipelinedEmit) (inFlight : List (ℕ × ℕ)) : Prop where
  pipelining : Pipelining (fileReading F requirements initial start len x.1.nextOffset) x inFlight
  honest : Honest F start (start + len) x.2
  start_le : start ≤ x.1.nextOffset
  le_stop : x.1.nextOffset ≤ start + len
  gaps : ∀ g ∈ x.1.gaps, start ≤ g.1 ∧ g.1 + g.2 ≤ x.1.nextOffset
  inFlight : ∀ r ∈ inFlight, start ≤ r.1 ∧ r.1 + r.2 ≤ x.1.nextOffset

/-- What is still to be handed out. -/
def ChunkScheduler.left (scheduler : ChunkScheduler) : ℕ :=
  (scheduler.gaps.map Prod.snd).sum + (scheduler.end - scheduler.nextOffset)

namespace Serving

variable {x : ChunkScheduler × PipelinedEmit} {inFlight : List (ℕ × ℕ)}

theorem new (hfits : requirements.Fits F initial.length start len) {chunk : ℕ}
    (hchunk : 0 < chunk) :
    Serving F requirements initial start len
      (.new start (start + len) chunk, .new initial start requirements) [] := by
  have hlimit : ∀ l, requirements.limit = some l → initial.length ≤ l := fun l hl =>
    Nat.le_trans (Nat.le_add_right _ _) (hfits l hl)
  refine ⟨⟨.new (fileReading F requirements initial start len start) (Nat.le_add_right _ _) hlimit,
    nofun, rfl, hchunk, nofun, nofun⟩, ?_, Nat.le_refl _, Nat.le_add_right _ _, nofun, nofun⟩
  refine ⟨rfl, nofun, nofun, Nat.le_refl _, Nat.le_max_right _ _, fun _ => Or.inl rfl, ?_⟩
  intro l hl
  have hfits := hfits l hl
  rw [length_slice] at hfits
  simp only [PipelinedEmit.new]
  omega

theorem nextRange {scheduler : ChunkScheduler} {range : ℕ × ℕ}
    (h : Serving F requirements initial start len x inFlight)
    (hnext : x.1.nextRange x.2.eofObserved = some (range, scheduler)) :
    Serving F requirements initial start len (scheduler, x.2) (inFlight ++ [range]) ∧
      0 < range.2 ∧ scheduler.left + range.2 = x.1.left := by
  obtain ⟨⟨gaps, next, stop, chunk⟩, emit⟩ := x
  obtain ⟨hpipelining, hhonest, hstart, hlestop, hgaps, hinFlight⟩ := h
  have hstopeq : stop = start + len := hpipelining.sound.stop_eq
  obtain ⟨hsound, hhits⟩ := ChunkScheduler.nextRange_spec hpipelining.sound hnext
  have hrangepos : 0 < range.2 :=
    (hsound.inFlight range (List.mem_append_right _ List.mem_cons_self)).1
  -- the scheduler only moves forward, past the range it has handed out
  have hforward : next ≤ scheduler.nextOffset ∧ scheduler.nextOffset ≤ start + len ∧
      start ≤ range.1 ∧
      range.1 + range.2 ≤ scheduler.nextOffset ∧
      (∀ g ∈ scheduler.gaps, g ∈ gaps) ∧ scheduler.left + range.2
        = ChunkScheduler.left ⟨gaps, next, stop, chunk⟩ := by
    unfold ChunkScheduler.nextRange at hnext
    cases gaps with
    | cons gap gaps =>
      obtain ⟨offset, glen⟩ := gap
      cases hnext
      obtain ⟨hgstart, hgstop⟩ := hgaps _ List.mem_cons_self
      have hchunk := (hpipelining.sound.gaps _ List.mem_cons_self).2
      dsimp only at hgstart hgstop hchunk
      refine ⟨Nat.le_refl _, hlestop, hgstart, ?_, fun g hg => List.mem_cons_of_mem _ hg, ?_⟩
      · dsimp only
        omega
      · simp only [ChunkScheduler.left, List.map_cons, List.sum_cons]
        omega
    | nil =>
      dsimp only at hnext
      split at hnext
      · cases hnext
      · next hfresh =>
        cases hnext
        rw [not_or] at hfresh
        dsimp only at hstart ⊢
        refine ⟨by omega, by omega, hstart, Nat.le_refl _, fun _ hg => hg, ?_⟩
        simp only [ChunkScheduler.left, List.map_nil, List.sum_nil]
        omega
  obtain ⟨hnextle, hnextstop, hrangele, hrangestop, hgapsub, hleft⟩ := hforward
  refine ⟨⟨⟨?_, hpipelining.drained, hsound⟩, hhonest, Nat.le_trans hstart hnextle, hnextstop, ?_, ?_⟩,
    hrangepos, hleft⟩
  · have hknown := hpipelining.emitting.of_hits hhits
    exact hknown.of_known fun r ⟨h₁, h₂, h₃, h₄⟩ => ⟨h₁, h₂, h₃, Nat.le_trans h₄ hnextle⟩
  · intro g hg
    obtain ⟨h₁, h₂⟩ := hgaps g (hgapsub g hg)
    exact ⟨h₁, Nat.le_trans h₂ hnextle⟩
  · intro r hr
    rcases List.mem_append.mp hr with hr | hr
    · obtain ⟨h₁, h₂⟩ := hinFlight r hr
      exact ⟨h₁, Nat.le_trans h₂ hnextle⟩
    · rw [List.mem_singleton.mp hr]
      exact ⟨hrangele, hrangestop⟩

/-- A reply to a range in flight may be known. -/
theorem known {l l' : List (ℕ × ℕ)} {r : ReadTaskOutput}
    (h : Serving F requirements initial start len x (l ++ (r.offset, r.requested) :: l'))
    (hserved : Served F r.offset r.requested ⟨r.eof, r.data⟩) :
    (fileReading F requirements initial start len x.1.nextOffset).known r := by
  have hmem : (r.offset, r.requested) ∈ l ++ (r.offset, r.requested) :: l' :=
    List.mem_append_right _ List.mem_cons_self
  obtain ⟨hstart, hstop⟩ := h.inFlight _ hmem
  exact ⟨hserved, (h.pipelining.sound.inFlight _ hmem).1, hstart, hstop⟩

/-- A reply that is taken comes from the file, as do the queued ones. -/
theorem fromFile {l l' : List (ℕ × ℕ)} {r : ReadTaskOutput}
    (h : Serving F requirements initial start len x (l ++ (r.offset, r.requested) :: l'))
    (hserved : Served F r.offset r.requested ⟨r.eof, r.data⟩) :
    ∀ q ∈ r :: x.2.completed, FromFile F (start + len) q := by
  have hknown := h.known hserved
  have hvalid := ReadTaskOutput.valid_of_served hserved hknown.2.1
  have hheld := h.pipelining.emitting_cons.hold hvalid hknown
  intro q hq
  obtain ⟨hqvalid, hqserved, hqpos, -⟩ := hheld.queued q hq
  have hbounds := (hheld.bounds hq).2
  have hspan := hqvalid.length_le_span
  exact ⟨hqserved, hqpos, Nat.le_trans (Nat.add_le_add_left hspan _) hbounds⟩

/-- Taking a reply from the file keeps the invariant, and leaves less to be read. -/
theorem absorb {l l' : List (ℕ × ℕ)} {r : ReadTaskOutput}
    (h : Serving F requirements initial start len x (l ++ (r.offset, r.requested) :: l'))
    (hrange : start + len < 2 ^ 64)
    (hserved : Served F r.offset r.requested ⟨r.eof, r.data⟩) :
    Serving F requirements initial start len (match r.shortReadGap with
      | some gap => x.1.pushGap gap
      | none => x.1, x.2.record r) (l ++ l') ∧
      ChunkScheduler.left (match r.shortReadGap with
        | some gap => x.1.pushGap gap
        | none => x.1) < x.1.left + r.requested := by
  have hknown := h.known hserved
  have hfrom := h.fromFile hserved
  obtain ⟨-, hpos, hoffset, hstop⟩ := hknown
  have hvalid := ReadTaskOutput.valid_of_served hserved hpos
  have hhonest : Honest F start (start + len) (x.2.record r) :=
    h.honest.record (hfrom r List.mem_cons_self) hoffset
      fun q hq => hfrom q (List.mem_cons_of_mem _ hq)
  have hpipelining := h.pipelining.absorb hrange hvalid (h.known hserved) hhonest.noError
  have hinFlight : ∀ q ∈ l ++ l', start ≤ q.1 ∧ q.1 + q.2 ≤ x.1.nextOffset := by
    intro q hq
    refine h.inFlight q ?_
    rcases List.mem_append.mp hq with hq | hq
    · exact List.mem_append_left _ hq
    · exact List.mem_append_right _ (List.mem_cons_of_mem _ hq)
  cases hgap : r.shortReadGap with
  | none =>
    rw [hgap] at hpipelining
    exact ⟨⟨hpipelining, hhonest, h.start_le, h.le_stop, h.gaps, hinFlight⟩,
      Nat.lt_add_of_pos_right hpos⟩
  | some gap =>
    rw [hgap] at hpipelining
    unfold ReadTaskOutput.shortReadGap at hgap
    dsimp only at hgap
    split at hgap
    · next hshort =>
      cases hgap
      simp only [Bool.and_eq_true, Bool.not_eq_true', decide_eq_true_eq] at hshort
      have hdata : r.data ≠ [] := fun hnil => by
        rw [hvalid.progress hnil] at hshort
        cases hshort.1
      have hlen := List.length_pos_iff.mpr hdata
      refine ⟨⟨hpipelining, hhonest, h.start_le, h.le_stop, ?_, hinFlight⟩, ?_⟩
      · intro g hg
        rcases List.mem_cons.mp hg with rfl | hg
        · simp only [ChunkScheduler.pushGap]
          omega
        · exact h.gaps g hg
      · simp only [ChunkScheduler.left, ChunkScheduler.pushGap, List.map_cons, List.sum_cons]
        omega
    · cases hgap

/-- Once nothing is in flight and nothing is handed out, a byte that is not emitted is
owned by a queued reply, or was never handed out. -/
theorem scheduled_le (h : Serving F requirements initial start len x [])
    (hnone : x.1.nextRange x.2.eofObserved = none) (hlt : x.2.nextOffset < start + len)
    (hupper : ∀ u, x.2.eofUpperBound = some u → x.2.nextOffset < u)
    (hbefore : ∀ y, x.2.eofAt = some y → x.2.nextOffset < y) :
    x.1.nextOffset ≤ x.2.nextOffset := by
  have hgaps : x.1.gaps = [] := by
    unfold ChunkScheduler.nextRange at hnone
    split at hnone
    · cases hnone
    · next hnil => exact hnil
  have hstart : start ≤ x.2.nextOffset := h.honest.start_le
  have howned := h.pipelining.emitting.complete x.2.nextOffset hstart hlt hupper
  rw [Emitting.hits_owned, cover_eq_zero (by right; dsimp only [fileReading]; omega),
    ChunkScheduler.rest, hgaps] at howned
  simp only [List.nil_append, List.map_nil, hits_cons, hits_nil, Nat.zero_add, Nat.add_zero]
    at howned
  by_contra hbeyond
  rw [cover_eq_zero (by left; dsimp only; omega), Nat.zero_add] at howned
  obtain ⟨span, hspan, hle, -⟩ := exists_of_hits_pos howned
  obtain ⟨q, hq, rfl⟩ := List.mem_map.mp hspan
  exact h.pipelining.drained hbefore q hq (Nat.le_antisymm hle (h.pipelining.emitting.bounds hq).1)

/-- A known end of the file was reached. -/
theorem nextOffset_eq_eofAt (h : Serving F requirements initial start len x [])
    (hnone : x.1.nextRange x.2.eofObserved = none) {y : ℕ} (hy : x.2.eofAt = some y) :
    x.2.nextOffset = y := by
  obtain ⟨hbound, hle, ⟨r, hknown, heof, hstop⟩, hplace⟩ := h.pipelining.emitting.exact y hy
  by_contra hne
  have hlt : x.2.nextOffset < y := Nat.lt_of_le_of_ne hle hne
  obtain ⟨q, hq, -, hqstop⟩ := hplace.resolve_left hne
  have hqbounds := (h.pipelining.emitting.bounds hq).2
  have hqspan := (h.pipelining.emitting.queued q hq).1.length_le_span
  have hrange : y ≤ start + len := by
    rw [← hqstop]
    exact Nat.le_trans (Nat.add_le_add_left hqspan _) hqbounds
  have hsched := h.scheduled_le hnone (by omega) (by rintro u hu; rw [hbound] at hu; cases hu; exact hlt)
    (by rintro z hz; rw [hy] at hz; cases hz; exact hlt)
  -- the reply that gave the end was handed out, up to the end
  obtain ⟨hserved, hpos, hoffset, hscheduled⟩ := hknown
  have hend := hserved.eof.mp heof
  have hshort := hserved.short
  have hmax := h.honest.exact y hy
  dsimp only at hend hshort
  omega

/-- Without a known end of the file nothing reported one. -/
theorem eofUpperBound_eq_none (h : Serving F requirements initial start len x [])
    (hnone : x.1.nextRange x.2.eofObserved = none) (hexact : x.2.eofAt = none) :
    x.2.eofUpperBound = none := by
  cases hu : x.2.eofUpperBound with
  | none => rfl
  | some u =>
    obtain ⟨q, hq, -, hqoffset⟩ := h.pipelining.emitting.upper hexact u hu
    obtain ⟨hqvalid, -, -, -, hscheduled⟩ := h.pipelining.emitting.queued q hq
    have hbounds := h.pipelining.emitting.bounds hq
    have hspan := hqvalid.span_pos
    have hqpos := hqvalid.pos
    have hne := h.pipelining.drained (by simp [hexact]) q hq
    have hsched := h.scheduled_le hnone (by dsimp only [fileReading] at hbounds; omega)
      (by rintro u' hu'; rw [hu] at hu'; cases hu'; omega) (by simp [hexact])
    omega

theorem finished (h : Serving F requirements initial start len x [])
    (hnone : x.1.nextRange x.2.eofObserved = none) :
    requirements.Ended F initial start len (x.2.finish.map fun _ => x.2.out) := by
  have hexpected : x.2.expectedEof = requirements.expectedEof := h.pipelining.emitting.expectedEof
  have hqueue : x.2.completed.any (PipelinedEmit.beyondEof x.2.eofAt) = false := by
    rw [List.any_eq_false]
    intro q hq
    obtain ⟨hqvalid, hqserved, hqpos, -⟩ := h.pipelining.emitting.queued q hq
    have hbounds := (h.pipelining.emitting.bounds hq).2
    have hspan := hqvalid.length_le_span
    exact h.honest.not_beyondEof ⟨hqserved, hqpos, Nat.le_trans (Nat.add_le_add_left hspan _) hbounds⟩
  obtain ⟨chunks, hknown, htiles, hout⟩ := h.pipelining.emitting.tiles
  obtain ⟨-, hslice⟩ := htiles.slice_eq fun r hr => (hknown r hr).1
  have hnextle : x.2.nextOffset ≤ start + len :=
    h.pipelining.emitting.nextOffset_le (Nat.le_add_right _ _)
  rw [hslice] at hout
  unfold PipelinedEmit.finish
  rw [h.honest.noError, hqueue]
  dsimp only
  rw [if_neg Bool.false_ne_true, hexpected]
  cases hexact : x.2.eofAt with
  | some y =>
    have hy := h.nextOffset_eq_eofAt hnone hexact
    have hmax := h.honest.exact y hexact
    have hslice : slice F start (x.2.nextOffset - start) = slice F start len :=
      slice_eq_slice (by omega) (by omega)
    refine ⟨some y, Or.inl (by rw [hmax]), fun _ => by omega, ?_⟩
    dsimp only [fileReading] at hout ⊢
    rw [if_neg (by omega), hout, hslice]
  | none =>
    have hupper := h.eofUpperBound_eq_none hnone hexact
    have hend : x.2.nextOffset = start + len := by
      refine h.pipelining.emitting.nextOffset_eq_of_no_eof h.pipelining.drained hexact hupper ?_
        (Nat.le_add_right _ _)
      rw [PipelinedEmit.eofObserved, hupper] at hnone
      exact fun i _ _ => ChunkScheduler.hits_rest_of_nextRange_none hnone i
    rw [hupper]
    refine ⟨none, Or.inr ⟨rfl, ?_⟩, fun hsome => absurd rfl hsome, ?_⟩
    · rcases h.honest.below hexact with hbelow | hbelow <;> omega
    · dsimp only [fileReading] at hout ⊢
      rw [hout, hend, Nat.add_sub_cancel_left]

end Serving

/-- What the threads in flight are, with the number of requests each may still make. -/
def InFlight (fh : FileHandle) (F : Bytes) (x : (ℕ × ℕ) × ℕ)
    (t : Thread effects (Except Error ReadTaskOutput)) (_ : Unit) : Prop :=
  t.Finishes (servesFile fh F) (fun result _ => ∃ read, result = .ok read ∧
    read.offset = x.1.1 ∧ read.requested = x.1.2 ∧
    Served F read.offset read.requested ⟨read.eof, read.data⟩) x.2 ()

theorem inFlight_readChunk (hadmits : s.AdmitsRead fh) {offset count : ℕ} (hpos : 0 < count)
    (hsmall : count < 2 ^ 32) (hstop : offset + count < 2 ^ 64) :
    InFlight fh F ((offset, count), 1) (readChunk s fh offset count).run () := by
  unfold readChunk
  rw [addU64_eq hstop]
  refine Thread.Finishes.bind (t := (s.call (.readAnonymous fh offset count)).run)
    ((finishes_readAnonymous hadmits hsmall).mono ?_)
  rintro _ ⟨⟩ ⟨read, rfl, hserved⟩
  have hshort := hserved.short
  dsimp only [ExceptT.bindCont]
  rw [hserved.validate hpos, addU64_eq (by omega)]
  exact ⟨_, rfl, rfl, rfl, hserved⟩

/-- What is left to do: bytes to be handed out, and for each thread in flight its bytes
less the steps it has made. -/
def readMeasure (x : ChunkScheduler × PipelinedEmit) (xs : List ((ℕ × ℕ) × ℕ)) : ℕ :=
  3 * x.1.left + (xs.map fun y => 3 * y.1.2 - 2 + y.2).sum

theorem ChunkScheduler.chunkSize_of_nextRange {scheduler scheduler' : ChunkScheduler}
    {eof : Bool} {range : ℕ × ℕ} (h : scheduler.nextRange eof = some (range, scheduler')) :
    scheduler'.chunkSize = scheduler.chunkSize := by
  unfold ChunkScheduler.nextRange at h
  split at h
  · cases h
    rfl
  · split at h
    · cases h
    · cases h
      rfl

theorem must_readPool (hadmits : s.AdmitsRead fh) (hgranularity : 0 < s.readGranularity)
    (hrange : start + len < 2 ^ 64) (hfits : requirements.Fits F initial.length start len)
    {depth : ℕ} (hdepth : 0 < depth) :
    Must (E := effects) (servesFile fh F)
      (fun x _ => requirements.Ended F initial start len (x.2.finish.map fun _ => x.2.out))
      ((readPool s fh depth).run
        (.new start (start + len) s.readGranularity, .new initial start requirements)) () := by
  refine Pool.must_run (InFlight fh F)
    (fun x xs _ => Serving F requirements initial start len x (xs.map Prod.fst) ∧
      x.1.chunkSize = s.readGranularity) readMeasure hdepth ⟨.new hfits hgranularity, rfl⟩
    ?_ ?_ ?_ ?_
  · -- a range is handed out
    rintro x xs _ t x' ⟨hserving, hchunk⟩ hnext
    obtain ⟨-, offset, count, scheduler, hhanded, rfl, rfl⟩ := readPool_next_some hnext
    obtain ⟨hserving', hpos, hleft⟩ := hserving.nextRange hhanded
    have hchunk' : scheduler.chunkSize = s.readGranularity :=
      (ChunkScheduler.chunkSize_of_nextRange hhanded).trans hchunk
    have hsmall : count < 2 ^ 32 := by
      have hle := (hserving'.pipelining.sound.inFlight (offset, count)
        (List.mem_append_right _ List.mem_cons_self)).2
      have hlt := s.config.readGranularity.toNat_lt
      unfold NfsSession.readGranularity at hchunk'
      dsimp only at hle
      omega
    have hstop : offset + count < 2 ^ 64 := by
      have hbound := (hserving'.inFlight (offset, count)
        (List.mem_append_right _ List.mem_cons_self)).2
      have hle := hserving'.le_stop
      dsimp only at hbound hle
      omega
    refine ⟨((offset, count), 1), inFlight_readChunk hadmits hpos hsmall hstop, ⟨?_, hchunk'⟩, ?_⟩
    · rw [List.map_append]
      exact hserving'
    · dsimp only at hpos hleft
      simp only [readMeasure, List.map_append, List.map_cons, List.map_nil, List.sum_append,
        List.sum_cons, List.sum_nil]
      omega
  · -- a request is answered
    rintro x l ⟨range, n⟩ r e k _ hI hlabel
    cases n with
    | zero => exact hlabel.elim
    | succ n =>
      obtain ⟨hanswer, hrest⟩ := hlabel
      refine ⟨hanswer, fun resp _ hserve => ⟨⟨(range, n), hrest resp () hserve, ?_, ?_⟩, ?_⟩⟩
      · simpa using hI
      · simp only [readMeasure, List.map_append, List.map_cons, List.sum_append, List.sum_cons]
        omega
      · exact fun _ _ _ h => h
  · -- a reply is taken
    rintro x l ⟨⟨offset, count⟩, n⟩ r result _ ⟨hserving, hchunk⟩ hlabel
    obtain ⟨read, rfl, hoffset, hrequested, hserved⟩ : ∃ read, result = .ok read ∧
        read.offset = offset ∧ read.requested = count ∧
        Served F read.offset read.requested ⟨read.eof, read.data⟩ := by
      cases n <;> exact hlabel
    subst hoffset hrequested
    rw [List.map_append, List.map_cons] at hserving
    obtain ⟨hserving', hless⟩ := hserving.absorb hrange hserved
    refine ⟨⟨?_, ?_⟩, ?_⟩
    · rw [List.map_append]
      exact hserving'
    · rw [← hchunk]
      change (match read.shortReadGap with
        | some gap => x.1.pushGap gap
        | none => x.1).chunkSize = _
      split <;> rfl
    · change 3 * ChunkScheduler.left (match read.shortReadGap with
        | some gap => x.1.pushGap gap
        | none => x.1) + _ < _
      simp only [readMeasure, List.map_append, List.map_cons, List.sum_append, List.sum_cons]
      omega
  · -- nothing is left to start
    rintro x _ ⟨hserving, -⟩ hnext
    exact hserving.finished (readPool_next_none hnext hserving.honest.noError)

/-- The number of slots is whatever it is. -/
theorem must_slots {post : Except Error ℕ → Unit → Prop}
    (h : ∀ slots, post (.ok (operationPipelineDepthForSlots slots)) ()) :
    (liftM (operationPipelineDepth s) : SessionM ℕ).run.Finishes (servesFile fh F) post 1 () :=
  ⟨⟨(0 : ℕ), (), trivial⟩, fun slots _ _ => h slots⟩

/-- A pipelined read returns the part of the file that was asked for. -/
theorem must_readHandleToBytesPipelinedInto (hadmits : s.AdmitsRead fh)
    (hgranularity : 0 < s.readGranularity) (hrange : start + len < 2 ^ 64)
    (hfits : requirements.Fits F initial.length start len) :
    Must (E := effects) (servesFile fh F) (fun r _ => requirements.Ended F initial start len r)
      (readHandleToBytesPipelinedInto s fh initial start len requirements).run () := by
  have hend : saturatingAdd start len = start + len := by
    unfold saturatingAdd
    omega
  refine must_bindExcept (must_liftThreadExcept (n := 1) (must_slots fun slots => ?_))
  rw [hend]
  exact must_bindExcept (must_lift ((must_readPool hadmits hgranularity hrange hfits
    (operationPipelineDepthForSlots_pos slots)).mono fun x _ hx => must_check hx))

/-! ### Reading a handle -/

theorem must_readHandleToBytesAfterPrefix (hadmits : s.AdmitsRead fh)
    (hchunk : 0 < s.readChunkSize) (hgranularity : 0 < s.readGranularity)
    (hrange : start + len < 2 ^ 64) (htotal : initial.length + len < 2 ^ 64)
    (hreserve : requirements.reserve (initial.length + len) = .ok ())
    (hfits : requirements.Fits F initial.length start len) :
    Must (E := effects) (servesFile fh F) (fun r _ => requirements.Ended F initial start len r)
      (readHandleToBytesAfterPrefix s fh initial start len requirements).run () := by
  have hsequential := must_readHandleToBytesSequentialInto (s := s) hadmits hchunk hrange hfits
  unfold readHandleToBytesAfterPrefix
  refine must_bindExcept (must_except ?_)
  rw [addU64_eq htotal]
  refine must_bindExcept (must_except ?_)
  rw [hreserve]
  dsimp only
  split
  · exact hsequential
  · refine must_bindExcept (must_liftThreadExcept (n := 1) (must_slots fun slots => ?_))
    dsimp only
    split
    · exact hsequential
    · exact must_readHandleToBytesPipelinedInto hadmits hgranularity hrange hfits

theorem must_readHandleToBytes (hadmits : s.AdmitsRead fh) (hchunk : 0 < s.readChunkSize)
    (hgranularity : 0 < s.readGranularity) (hrange : start + len < 2 ^ 64) (hpos : 0 < len)
    (hreserve : requirements.reserve len = .ok ()) (hfits : requirements.Fits F 0 start len)
    (hexpected : ∀ x, requirements.expectedEof = some x → x.offset ≤ start + len) :
    Must (E := effects) (servesFile fh F) (fun r _ => requirements.Ended F [] start len r)
      (readHandleToBytes s fh start len requirements).run () := by
  unfold readHandleToBytes
  rw [if_neg (Nat.ne_of_gt hpos)]
  split
  · next hsingle =>
    have hsmall : len < 2 ^ 32 := by
      have hlt := s.config.readGranularity.toNat_lt
      unfold NfsSession.readGranularity at hsingle
      omega
    rw [asU32_eq hsmall]
    exact must_readHandleSingleChunkOrContinue hadmits hchunk hpos hsmall hrange hreserve hfits
      hexpected
  · refine must_bindExcept (must_except ?_)
    rw [hreserve]
    refine must_bindExcept (must_liftThreadExcept (n := 1) (must_slots fun slots => ?_))
    dsimp only
    have hfits : requirements.Fits F ([] : Bytes).length start len := hfits
    split
    · exact (must_readHandleToBytesSequentialInto hadmits hchunk hrange hfits :)
    · exact (must_readHandleToBytesPipelinedInto hadmits hgranularity hrange hfits :)

end

theorem smallReads_admitsRead : smallReads.AdmitsRead ⟨[7]⟩ := by
  intro offset count
  -- the length of the request does not depend on the range
  change smallReads.validateCompoundRequest "read-anon" [.putFh ⟨[7]⟩, .read .anonymous 0 0] = _
  decide +kernel

/-- The same session with another granularity. -/
def largeReads : NfsSession :=
  { smallReads with config := { smallReads.config with readGranularity := 8 } }

end NfsCrust
