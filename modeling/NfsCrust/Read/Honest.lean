import NfsCrust.Read.Served

/-!
# Reassembly of the replies of one file

Replies that all come from one file never make `PipelinedEmit` record an error: what
they say about the end of the file agrees, no data lies beyond it, and the output
stays within a limit that the whole result fits.

## Main definitions

* `FromFile` — a reply that comes from the file and lies in the range.
* `Honest` — what reassembly keeps to while it sees nothing else.

## Main results

* `Honest.record` — recording such a reply keeps to it.
-/

namespace NfsCrust

/-- A reply that comes from `F` and ends in the range. -/
structure FromFile (F : Bytes) (stop : ℕ) (r : ReadTaskOutput) : Prop where
  served : Served F r.offset r.requested ⟨r.eof, r.data⟩
  pos : 0 < r.requested
  stop_le : r.stop ≤ stop

/-- No error was recorded; the end of the file, where it is known, is the right one; and
what is still to be emitted fits the limit. -/
structure Honest (F : Bytes) (start stop : ℕ) (e : PipelinedEmit) : Prop where
  noError : e.firstError = none
  exact : ∀ x, e.eofAt = some x → x = max F.length start
  upper : ∀ u, e.eofUpperBound = some u → max F.length start ≤ u
  start_le : start ≤ e.nextOffset
  next_le : e.nextOffset ≤ max F.length start
  below : e.eofAt = none → e.nextOffset = start ∨ e.nextOffset < F.length
  room : ∀ l, e.limit = some l → e.out.length + (min stop F.length - e.nextOffset) ≤ l

namespace Honest

variable {F : Bytes} {start stop : ℕ} {e : PipelinedEmit} {r : ReadTaskOutput}

theorem observeEofUpperBound (h : Honest F start stop e) {u : ℕ} (hu : max F.length start ≤ u) :
    Honest F start stop (e.observeEofUpperBound u) := by
  rw [PipelinedEmit.observeEofUpperBound_eq fun x hx => h.exact x hx ▸ hu]
  refine { h with upper := ?_ }
  rintro _ ⟨⟩
  cases hbound : e.eofUpperBound with
  | none => exact hu
  | some u' => exact Nat.le_min.mpr ⟨h.upper u' hbound, hu⟩

theorem observeExactEof (h : Honest F start stop e) :
    Honest F start stop (e.observeExactEof (max F.length start)) := by
  rw [PipelinedEmit.observeExactEof_eq h.exact h.upper]
  exact
    { h with
      exact := by rintro _ ⟨⟩; rfl
      upper := by rintro _ ⟨⟩; exact Nat.le_refl _
      below := nofun }

/-- An empty reply at the next offset lies at the end of the file. -/
theorem nextOffset_eq (h : Honest F start stop e) (hr : FromFile F stop r)
    (hoffset : r.offset = e.nextOffset) (hdata : r.data = []) :
    e.nextOffset = max F.length start := by
  have hend := hr.served.length_le hr.pos hdata
  have hstart := h.start_le
  have hle := h.next_le
  omega

theorem emit (h : Honest F start stop e) (hr : FromFile F stop r)
    (hoffset : r.offset = e.nextOffset) : Honest F start stop (e.emit r) := by
  unfold PipelinedEmit.emit
  by_cases hdata : r.data = []
  · rw [if_pos hdata, hoffset, h.nextOffset_eq hr hoffset hdata]
    exact h.observeExactEof
  · have hstop := hr.served.stop_le hdata
    have hend := hr.stop_le
    have hstart := h.start_le
    have hpos := List.length_pos_iff.mpr hdata
    unfold ReadTaskOutput.stop at hend
    dsimp only at hstop
    rw [hoffset] at hstop hend
    have hroom : ∀ l, e.limit = some l → e.out.length + r.data.length
        + (min stop F.length - (e.nextOffset + r.data.length)) ≤ l := by
      intro l hl
      have := h.room l hl
      omega
    have hlimit : ensureBufferedReadWithinLimit e.out.length r.data.length e.expectedLen e.limit
        = .ok () := ensureBufferedReadWithinLimit_eq fun l hl =>
      Nat.le_trans (Nat.le_add_right _ _) (hroom l hl)
    rw [if_neg hdata, hlimit]
    dsimp only
    split
    · next heof =>
      -- the data reaches the end of the file
      have hreached := hr.served.eof.mp heof
      dsimp only at hreached
      rw [hoffset] at hreached
      have hmax : e.nextOffset + r.data.length = max F.length start := by omega
      have hsame : ∀ y, e.eofAt = some y → y = e.nextOffset + r.data.length :=
        fun y hy => (h.exact y hy).trans hmax.symm
      have hupper : ∀ u, e.eofUpperBound = some u → e.nextOffset + r.data.length ≤ u :=
        fun u hu => hmax ▸ h.upper u hu
      rw [PipelinedEmit.observeExactEof_eq (by exact hsame) (by exact hupper)]
      exact
        { h with
          exact := by rintro _ ⟨⟩; exact hmax
          upper := by rintro _ ⟨⟩; exact Nat.le_of_eq hmax.symm
          start_le := by dsimp only; omega
          next_le := by dsimp only; omega
          below := nofun
          room := fun l hl => by
            dsimp only
            rw [List.length_append]
            exact hroom l hl }
    · next heof =>
      have hbelow : e.nextOffset + r.data.length < F.length := by
        rw [← hoffset]
        exact Nat.lt_of_not_le fun hle => heof (hr.served.eof.mpr hle)
      exact
        { h with
          start_le := by dsimp only; omega
          next_le := by dsimp only; omega
          below := fun _ => Or.inr hbelow
          room := fun l hl => by
            dsimp only
            rw [List.length_append]
            exact hroom l hl }

theorem drain {turns : ℕ} (h : Honest F start stop e) (hqueue : ∀ q ∈ e.completed, FromFile F stop q) :
    Honest F start stop (PipelinedEmit.drain turns e) := by
  induction turns generalizing e with
  | zero => exact h
  | succ turns ih =>
    rw [PipelinedEmit.drain]
    split
    · split
      · exact h
      · next r e' htake =>
        obtain ⟨hoffset, queue, rfl, hperm⟩ := PipelinedEmit.takeCompleted_some htake
        have htaken : Honest F start stop { e with completed := queue } := { h with }
        have hemit := htaken.emit (hqueue r (hperm.mem_iff.mpr List.mem_cons_self)) hoffset
        dsimp only
        split
        · exact hemit
        · refine ih hemit fun q hq => ?_
          rw [PipelinedEmit.completed_emit] at hq
          exact hqueue q (hperm.mem_iff.mpr (List.mem_cons_of_mem _ hq))
    · exact h

/-- What a reply says about the end of the file is right. -/
theorem observeReadEof (h : Honest F start stop e) (hr : FromFile F stop r)
    (hstart : start ≤ r.offset) (heof : r.eof = true) :
    Honest F start stop (e.observeReadEof r) := by
  have hend := hr.served.eof.mp heof
  dsimp only at hend
  unfold PipelinedEmit.observeReadEof
  dsimp only
  split
  · next hempty => exact h.observeEofUpperBound (by omega)
  · next hplace =>
    have hexact : r.offset + r.data.length = max F.length start := by
      by_cases hdata : r.data = []
      · have hoffset : r.offset = e.nextOffset := by_contra fun hne => hplace ⟨hdata, hne⟩
        rw [hdata, List.length_nil, Nat.add_zero, hoffset, h.nextOffset_eq hr hoffset hdata]
      · have hstop := hr.served.stop_le hdata
        dsimp only at hstop
        omega
    rw [hexact]
    exact h.observeExactEof

/-- Data of the file does not lie beyond its end. -/
theorem not_beyondEof (h : Honest F start stop e) (hr : FromFile F stop r) :
    ¬ PipelinedEmit.beyondEof e.eofAt r = true := by
  cases hx : e.eofAt with
  | none => exact nofun
  | some x =>
    rw [PipelinedEmit.beyondEof_some]
    rintro ⟨hdata, hlt⟩
    have hstop := hr.served.stop_le hdata
    have hmax := h.exact x hx
    unfold saturatingAdd at hlt
    dsimp only at hstop
    omega

theorem record (h : Honest F start stop e) (hr : FromFile F stop r) (hstart : start ≤ r.offset)
    (hqueue : ∀ q ∈ e.completed, FromFile F stop q) : Honest F start stop (e.record r) := by
  have hobserved : Honest F start stop (if r.eof then e.observeReadEof r else e) := by
    split
    · next heof => exact h.observeReadEof hr hstart heof
    · exact h
  have hcompleted : (if r.eof then e.observeReadEof r else e).completed = e.completed := by
    split
    · unfold PipelinedEmit.observeReadEof
      dsimp only
      split <;> simp
    · rfl
  unfold PipelinedEmit.record
  generalize (if r.eof then e.observeReadEof r else e) = e' at hobserved hcompleted ⊢
  dsimp only
  rw [if_neg (hobserved.not_beyondEof hr)]
  split
  · next hoffset =>
    refine (hobserved.emit hr hoffset).drain fun q hq => ?_
    rw [PipelinedEmit.completed_emit, hcompleted] at hq
    exact hqueue q hq
  · exact { hobserved with }

end Honest

end NfsCrust
