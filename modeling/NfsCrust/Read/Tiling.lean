import NfsCrust.Lib.Ranges
import NfsCrust.Read.Reassembly

/-!
# Reassembly tiles the range

What `PipelinedEmit` keeps of a range while replies come back in any order and say
anything about the end of the file.  Every byte of the range is owned by at most one
of: the part that was emitted, a queued reply, a reply in the hands of `record`, and
the ranges that are still to be read.  Below every reported end of file it is owned
by exactly one.  So what was emitted is a tiling of an initial part of the range.

All of this is only claimed as long as no error was recorded; an error is never
forgotten.

## Main definitions

* `ReadTaskOutput.Valid`, `ReadTaskOutput.span` — a reply that passed its check, and
  the range it answers for.
* `Tiles` — consecutive replies.
* `Emitting` — the invariant.

## Main results

* `Emitting.record` — recording a reply keeps the invariant.
* `Emitting.finish_ok` — what holds when `finish` succeeds.
-/

namespace NfsCrust

open Ranges

/-! ### Replies -/

namespace ReadTaskOutput

/-- What `validateReadReply` has checked of the reply to a `READ` of at least one
byte. -/
structure Valid (r : ReadTaskOutput) : Prop where
  short : r.data.length ≤ r.requested
  pos : 0 < r.requested
  progress : r.data = [] → r.eof = true

/-- The range a reply answers for.  After EOF nothing of the request is left to
read. -/
def span (r : ReadTaskOutput) : ℕ × ℕ := (r.offset, if r.eof then r.requested else r.data.length)

/-- Where the data of a reply ends. -/
def stop (r : ReadTaskOutput) : ℕ := r.offset + r.data.length

theorem Valid.span_pos {r : ReadTaskOutput} (h : r.Valid) : 0 < r.span.2 := by
  unfold span
  split
  · exact h.pos
  · next heof => exact List.length_pos_iff.mpr fun hnil => heof (h.progress hnil)

/-- The data of a reply lies in its span. -/
theorem Valid.length_le_span {r : ReadTaskOutput} (h : r.Valid) : r.data.length ≤ r.span.2 := by
  unfold span
  split
  · exact h.short
  · exact Nat.le_refl _

/-- A request is answered by the span of its reply and the gap it leaves. -/
theorem Valid.cover_span_gap {r : ReadTaskOutput} (h : r.Valid) (i : ℕ) :
    cover r.span i + hits r.shortReadGap.toList i = cover (r.offset, r.requested) i := by
  unfold span shortReadGap
  cases heof : r.eof with
  | true => simp
  | false =>
    simp only [Bool.not_false, Bool.true_and, decide_eq_true_eq, Bool.false_eq_true, if_false]
    by_cases hgap : r.requested - r.data.length > 0
    · rw [if_pos hgap, Option.toList_some, hits_cons, hits_nil, Nat.add_zero, ← cover_split,
        Nat.add_sub_of_le h.short]
    · have hlen : r.data.length = r.requested := by
        have := h.short
        omega
      rw [if_neg hgap, hlen]
      rfl

end ReadTaskOutput

/-- The replies follow one another from `a` to `b`. -/
def Tiles : ℕ → List ReadTaskOutput → ℕ → Prop
  | a, [], b => a = b
  | a, r :: rs, b => r.offset = a ∧ Tiles r.stop rs b

theorem Tiles.append {a b : ℕ} {rs : List ReadTaskOutput} (h : Tiles a rs b) {r : ReadTaskOutput}
    (hr : r.offset = b) : Tiles a (rs ++ [r]) r.stop := by
  induction rs generalizing a with
  | nil => exact ⟨hr.trans (Eq.symm h), rfl⟩
  | cons r' rs ih => exact ⟨h.1, ih h.2⟩

theorem perm_swapRemove {α : Type} {l : List α} {index : ℕ} {a : α} (h : l[index]? = some a) :
    l.Perm (a :: swapRemove l index) := by
  rcases List.eq_nil_or_concat l with rfl | ⟨init, last, rfl⟩
  · cases h
  · rw [List.concat_eq_append] at h ⊢
    rw [swapRemove, List.getLast?_concat]
    dsimp only
    by_cases hlt : index < init.length
    · -- the last element moves to the place of `a`
      rw [List.getElem?_append_left hlt] at h
      obtain ⟨-, rfl⟩ := List.getElem?_eq_some_iff.mp h
      rw [List.set_append_left _ _ hlt, List.dropLast_concat,
        List.set_eq_take_append_cons_drop, if_pos hlt]
      have hsplit : init ++ [last]
          = init.take index ++ init[index] :: (init.drop (index + 1) ++ [last]) := by
        rw [← List.cons_append, ← List.append_assoc, List.getElem_cons_drop,
          List.take_append_drop]
      rw [hsplit]
      exact List.perm_middle.trans
        (((List.perm_append_singleton _ _).append_left _).cons _)
    · -- `a` is the last element
      obtain ⟨hindex, hget⟩ := List.getElem?_eq_some_iff.mp h
      have hlen : index = init.length := by
        rw [List.length_append, List.length_singleton] at hindex
        omega
      subst hlen
      rw [List.getElem_concat_length rfl] at hget
      subst hget
      rw [List.set_append_right _ _ (Nat.le_refl _), Nat.sub_self, List.set_cons_zero,
        List.dropLast_concat]
      exact List.perm_append_singleton _ _

theorem ensureBufferedReadWithinLimit_ok {current additional : ℕ} {expectedLen limit : Option ℕ}
    (h : ensureBufferedReadWithinLimit current additional expectedLen limit = .ok ()) :
    ∀ l, limit = some l → current + additional ≤ l := by
  rintro l rfl
  simp only [ensureBufferedReadWithinLimit] at h
  split at h
  · cases h
  · omega

theorem ensureBufferedReadWithinLimit_eq {current additional : ℕ} {expectedLen limit : Option ℕ}
    (h : ∀ l, limit = some l → current + additional ≤ l) :
    ensureBufferedReadWithinLimit current additional expectedLen limit = .ok () := by
  cases limit with
  | none => rfl
  | some l =>
    have := h l rfl
    simp only [ensureBufferedReadWithinLimit]
    rw [if_neg (by omega)]

theorem validateOptionalObservedEof_ok {expected : Option ExpectedEof} {actual : ℕ}
    (h : validateOptionalObservedEof expected (some actual) = .ok ()) :
    ∀ x, expected = some x → x.offset = actual := by
  rintro x rfl
  simp only [validateOptionalObservedEof] at h
  split at h
  · cases h
  · next heq => exact not_not.mp heq

/-! ### Steps that record no error -/

namespace PipelinedEmit

variable {e : PipelinedEmit}

theorem firstError_recordError (e : PipelinedEmit) (err : Error) :
    (e.recordError err).firstError ≠ none := by
  simp [recordError]

theorem observeEofUpperBound_ok {u : ℕ} (h : (e.observeEofUpperBound u).firstError = none) :
    e.firstError = none ∧ (∀ x, e.eofAt = some x → x ≤ u) ∧
      e.observeEofUpperBound u
        = { e with eofUpperBound := some (e.eofUpperBound.elim u (min · u)) } := by
  obtain ⟨out, completed, next, eofAt, bound, err, len, expected, limit⟩ := e
  cases eofAt with
  | none => exact ⟨h, nofun, rfl⟩
  | some x =>
    rw [observeEofUpperBound] at h ⊢
    dsimp only at h ⊢
    split at h
    · cases firstError_recordError _ _ h
    · next hle =>
      refine ⟨h, ?_, by rw [if_neg hle]⟩
      rintro y ⟨⟩
      exact Nat.le_of_not_gt hle

theorem observeExactEof_ok {x : ℕ} (h : (e.observeExactEof x).firstError = none) :
    e.firstError = none ∧ (∀ y, e.eofAt = some y → y = x) ∧
      (∀ u, e.eofUpperBound = some u → x ≤ u) ∧
      e.observeExactEof x = { e with eofAt := some x, eofUpperBound := some x } := by
  obtain ⟨out, completed, next, eofAt, bound, err, len, expected, limit⟩ := e
  unfold observeExactEof at h ⊢
  obtain ⟨herr, -, heq⟩ := observeEofUpperBound_ok h
  rw [heq]
  cases bound with
  | none =>
    cases eofAt with
    | none => exact ⟨herr, nofun, nofun, rfl⟩
    | some y =>
      dsimp only at herr ⊢
      split at herr
      · next hy => exact ⟨herr, by rintro _ ⟨⟩; exact hy, nofun, by simp [hy]⟩
      · cases firstError_recordError _ _ herr
  | some u =>
    by_cases hu : x > u
    · simp only [if_pos hu] at herr
      split at herr
      · split at herr
        · cases firstError_recordError _ _ herr
        · cases firstError_recordError _ _ herr
      · cases firstError_recordError _ _ herr
    · simp only [if_neg hu] at herr ⊢
      have hmin : min u x = x := Nat.min_eq_right (Nat.le_of_not_gt hu)
      cases eofAt with
      | none => exact ⟨herr, nofun, by rintro _ ⟨⟩; exact Nat.le_of_not_gt hu, by simp [hmin]⟩
      | some y =>
        dsimp only at herr ⊢
        split at herr
        · next hy =>
          exact ⟨herr, by rintro _ ⟨⟩; exact hy, by rintro _ ⟨⟩; exact Nat.le_of_not_gt hu,
            by simp [hy, hmin]⟩
        · cases firstError_recordError _ _ herr

/-- An upper bound that is not below the known end is only noted. -/
theorem observeEofUpperBound_eq {u : ℕ} (h : ∀ x, e.eofAt = some x → x ≤ u) :
    e.observeEofUpperBound u
      = { e with eofUpperBound := some (e.eofUpperBound.elim u (min · u)) } := by
  obtain ⟨out, completed, next, eofAt, bound, err, len, expected, limit⟩ := e
  cases eofAt with
  | none => rfl
  | some x =>
    rw [observeEofUpperBound]
    dsimp only
    rw [if_neg (Nat.not_lt.mpr (h x rfl))]

/-- An exact end that agrees with everything known is only noted. -/
theorem observeExactEof_eq {x : ℕ} (hsame : ∀ y, e.eofAt = some y → y = x)
    (hupper : ∀ u, e.eofUpperBound = some u → x ≤ u) :
    e.observeExactEof x = { e with eofAt := some x, eofUpperBound := some x } := by
  obtain ⟨out, completed, next, eofAt, bound, err, len, expected, limit⟩ := e
  unfold observeExactEof
  cases bound with
  | none =>
    cases eofAt with
    | none => exact observeEofUpperBound_eq (by rintro _ ⟨⟩; exact Nat.le_refl _)
    | some y =>
      obtain rfl := hsame y rfl
      dsimp only
      rw [if_pos rfl]
      exact observeEofUpperBound_eq (by rintro _ ⟨⟩; exact Nat.le_refl _)
  | some u =>
    have hle := hupper u rfl
    have hmin : min u x = x := Nat.min_eq_right hle
    dsimp only
    rw [if_neg (Nat.not_lt.mpr hle)]
    cases eofAt with
    | none =>
      rw [observeEofUpperBound_eq (by rintro _ ⟨⟩; exact Nat.le_refl _)]
      simp [hmin]
    | some y =>
      obtain rfl := hsame y rfl
      dsimp only
      rw [if_pos rfl, observeEofUpperBound_eq (by rintro _ ⟨⟩; exact Nat.le_refl _)]
      simp [hmin]

theorem emit_ok {r : ReadTaskOutput} (h : (e.emit r).firstError = none) : e.firstError = none := by
  unfold emit at h
  split at h
  · exact (observeExactEof_ok h).1
  · split at h
    · cases firstError_recordError _ _ h
    · dsimp only at h
      split at h
      · exact (observeExactEof_ok h).1
      · exact h

@[simp] theorem completed_observeEofUpperBound (u : ℕ) :
    (e.observeEofUpperBound u).completed = e.completed := by
  unfold observeEofUpperBound
  split
  · split <;> rfl
  · rfl

@[simp] theorem completed_observeExactEof (x : ℕ) :
    (e.observeExactEof x).completed = e.completed := by
  unfold observeExactEof
  rw [completed_observeEofUpperBound]
  cases e.eofUpperBound <;> cases e.eofAt <;> dsimp only <;> repeat' split
  all_goals rfl

@[simp] theorem completed_emit (r : ReadTaskOutput) : (e.emit r).completed = e.completed := by
  unfold emit
  split
  · rw [completed_observeExactEof]
  · split
    · rfl
    · dsimp only
      split
      · rw [completed_observeExactEof]
      · rfl

theorem takeCompleted_some {r : ReadTaskOutput} {e' : PipelinedEmit}
    (h : e.takeCompleted = some (r, e')) : r.offset = e.nextOffset ∧
      ∃ queue, e' = { e with completed := queue } ∧ e.completed.Perm (r :: queue) := by
  unfold takeCompleted at h
  split at h
  · cases h
  · next index hindex =>
    split at h
    · cases h
    · next q hq =>
      cases h
      obtain ⟨hlt, hoffset, -⟩ := List.findIdx?_eq_some_iff_getElem.mp hindex
      obtain ⟨_, hget⟩ := List.getElem?_eq_some_iff.mp hq
      rw [hget, beq_iff_eq] at hoffset
      exact ⟨hoffset, _, rfl, perm_swapRemove hq⟩

theorem takeCompleted_none (h : e.takeCompleted = none) :
    ∀ r ∈ e.completed, r.offset ≠ e.nextOffset := by
  unfold takeCompleted at h
  split at h
  · next hindex =>
    intro r hr hoffset
    have := List.findIdx?_eq_none_iff.mp hindex r hr
    simp [hoffset] at this
  · next index hindex =>
    obtain ⟨hlt, -⟩ := List.findIdx?_eq_some_iff_getElem.mp hindex
    rw [List.getElem?_eq_getElem hlt] at h
    cases h

theorem drain_ok {turns : ℕ} (h : (drain turns e).firstError = none) : e.firstError = none := by
  induction turns generalizing e with
  | zero => exact h
  | succ turns ih =>
    rw [drain] at h
    split at h
    · split at h
      · exact h
      · next r e' htake =>
        obtain ⟨-, queue, rfl, -⟩ := takeCompleted_some htake
        dsimp only at h
        have hemit : ({ e with completed := queue }.emit r).firstError = none := by
          split at h
          · exact h
          · exact ih h
        exact emit_ok (e := { e with completed := queue }) hemit
    · exact h

/-- No queued reply could be emitted, unless the end of the file was reached. -/
def Drained (e : PipelinedEmit) : Prop :=
  (∀ x, e.eofAt = some x → e.nextOffset < x) → ∀ r ∈ e.completed, r.offset ≠ e.nextOffset

theorem Drained.observeReadEof (h : e.Drained) {r : ReadTaskOutput}
    (hok : (e.observeReadEof r).firstError = none) : (e.observeReadEof r).Drained := by
  unfold PipelinedEmit.observeReadEof at hok ⊢
  dsimp only at hok ⊢
  split at hok
  · next hempty =>
    rw [if_pos hempty, (observeEofUpperBound_ok hok).2.2]
    exact h
  · next hplace =>
    obtain ⟨-, hsame, -, heq⟩ := observeExactEof_ok hok
    rw [if_neg hplace, heq]
    exact fun hbefore => h fun y hy => hsame y hy ▸ hbefore _ rfl

theorem beyondEof_some {x : ℕ} {r : ReadTaskOutput} :
    beyondEof (some x) r = true ↔ r.data ≠ [] ∧ x < saturatingAdd r.offset r.data.length := by
  simp [beyondEof]

end PipelinedEmit

/-! ### The invariant -/

/-- What a pipelined read was asked for: the range, the bytes before it, what the
result must satisfy, and the replies it has seen. -/
structure Reading where
  start : ℕ
  stop : ℕ
  initial : Bytes
  requirements : ReadRequirements
  known : ReadTaskOutput → Prop

/-- Every range that answers for some bytes: what was emitted, what is still to be
read, a reply that is being recorded, and the queued replies. -/
def Reading.owned (job : Reading) (rest : List (ℕ × ℕ)) (held : List ReadTaskOutput)
    (e : PipelinedEmit) : List (ℕ × ℕ) :=
  (job.start, e.nextOffset - job.start) :: (rest ++ (held ++ e.completed).map ReadTaskOutput.span)

/-- The invariant of reassembly, with the ranges `rest` still to be read and the
reply `held` being recorded. -/
structure Emitting (job : Reading) (rest : List (ℕ × ℕ)) (held : List ReadTaskOutput)
    (e : PipelinedEmit) : Prop where
  start_le : job.start ≤ e.nextOffset
  disjoint : ∀ i, hits (job.owned rest held e) i ≤ cover (job.start, job.stop - job.start) i
  complete : ∀ i, job.start ≤ i → i < job.stop → (∀ u, e.eofUpperBound = some u → i < u) →
    1 ≤ hits (job.owned rest held e) i
  queued : ∀ r ∈ held ++ e.completed, r.Valid ∧ job.known r
  observed : ∀ r ∈ e.completed, r.eof = true → ∃ u, e.eofUpperBound = some u ∧ u ≤ r.stop
  exact : ∀ x, e.eofAt = some x → e.eofUpperBound = some x ∧ e.nextOffset ≤ x ∧
    (∃ r, job.known r ∧ r.eof = true ∧ r.stop = x) ∧
    (e.nextOffset = x ∨ ∃ r ∈ held ++ e.completed, r.data ≠ [] ∧ r.stop = x)
  upper : e.eofAt = none → ∀ u, e.eofUpperBound = some u →
    ∃ r ∈ held ++ e.completed, r.data = [] ∧ r.offset = u
  tiles : ∃ chunks : List ReadTaskOutput, (∀ r ∈ chunks, job.known r) ∧
    Tiles job.start chunks e.nextOffset ∧
    e.out = job.initial ++ (chunks.map ReadTaskOutput.data).flatten
  limit : ∀ l, job.requirements.limit = some l → e.out.length ≤ l
  expectedEof : e.expectedEof = job.requirements.expectedEof
  limit_eq : e.limit = job.requirements.limit

namespace Emitting

variable {job : Reading} {rest : List (ℕ × ℕ)} {held : List ReadTaskOutput} {e : PipelinedEmit}
  {r : ReadTaskOutput}

theorem hits_owned (job : Reading) (rest : List (ℕ × ℕ)) (held : List ReadTaskOutput)
    (e : PipelinedEmit) (i : ℕ) : hits (job.owned rest held e) i
      = cover (job.start, e.nextOffset - job.start) i + (hits rest i
        + (hits (held.map ReadTaskOutput.span) i
          + hits (e.completed.map ReadTaskOutput.span) i)) := by
  rw [Reading.owned, List.map_append, hits_cons, hits_append, hits_append]

/-- A range that is not emitted lies between the offset to be emitted next and the
end. -/
theorem bounds_of_cover (h : Emitting job rest held e) {q : ℕ × ℕ} (hq : 0 < q.2)
    (hcover : ∀ i, cover (job.start, e.nextOffset - job.start) i + cover q i
      ≤ hits (job.owned rest held e) i) :
    e.nextOffset ≤ q.1 ∧ q.1 + q.2 ≤ job.stop := by
  have hsum := fun i => Nat.le_trans (hcover i) (h.disjoint i)
  obtain ⟨hfirst, hlast⟩ := subset_of_cover_le (q := (job.start, job.stop - job.start)) hq
    fun i => Nat.le_trans (Nat.le_add_left _ _) (hsum i)
  dsimp only at hfirst hlast
  refine ⟨?_, by omega⟩
  by_cases hempty : e.nextOffset - job.start = 0
  · omega
  · have happart := apart_of_cover_add_le (p := (job.start, e.nextOffset - job.start)) (by omega) hq
      fun i => Nat.le_trans (hsum i) (cover_le_one _ i)
    have := h.start_le
    dsimp only at happart
    omega

/-- So does a reply that is not emitted. -/
theorem bounds (h : Emitting job rest held e) (hr : r ∈ held ++ e.completed) :
    e.nextOffset ≤ r.offset ∧ r.offset + r.span.2 ≤ job.stop := by
  refine h.bounds_of_cover (h.queued r hr).1.span_pos fun i => ?_
  have hle := cover_le_hits (List.mem_map_of_mem (f := ReadTaskOutput.span) hr) i
  rw [Reading.owned, hits_cons, hits_append]
  omega

/-- A reply that is emitted next lies before the queued ones. -/
theorem stop_le_queued (h : Emitting job rest [r] e) (hoffset : r.offset = e.nextOffset)
    {q : ReadTaskOutput} (hq : q ∈ e.completed) : r.offset + r.span.2 ≤ q.offset := by
  have hmem : q ∈ [r] ++ e.completed := List.mem_append_right _ hq
  have hrpos := (h.queued r (List.mem_cons_self)).1.span_pos
  have hqpos := (h.queued q hmem).1.span_pos
  have happart := apart_of_cover_add_le hrpos hqpos fun i => by
    have hle := cover_le_hits (List.mem_map_of_mem (f := ReadTaskOutput.span) hq) i
    have hdisjoint := Nat.le_trans (h.disjoint i) (cover_le_one _ i)
    rw [hits_owned, List.map_singleton, hits_cons, hits_nil] at hdisjoint
    omega
  have hnext := (h.bounds hmem).1
  have : r.span.1 = r.offset := rfl
  have : q.span.1 = q.offset := rfl
  omega

/-- Only which positions are still to be read matters. -/
theorem of_hits (h : Emitting job rest held e) {rest' : List (ℕ × ℕ)}
    (hrest : ∀ i, hits rest' i = hits rest i) : Emitting job rest' held e := by
  have hhits : ∀ i, hits (job.owned rest' held e) i = hits (job.owned rest held e) i := by
    intro i
    rw [hits_owned, hits_owned, hrest]
  exact
    { h with
      disjoint := fun i => hhits i ▸ h.disjoint i
      complete := fun i h₁ h₂ h₃ => hhits i ▸ h.complete i h₁ h₂ h₃ }

/-- More replies may become known. -/
theorem of_known (h : Emitting job rest held e) {known : ReadTaskOutput → Prop}
    (himp : ∀ r, job.known r → known r) : Emitting { job with known } rest held e :=
  { h with
    queued := fun r hr => ⟨(h.queued r hr).1, himp r (h.queued r hr).2⟩
    exact := fun x hx => by
      obtain ⟨hbound, hle, ⟨r, hr, hreported⟩, hplace⟩ := h.exact x hx
      exact ⟨hbound, hle, ⟨r, himp r hr, hreported⟩, hplace⟩
    tiles := by
      obtain ⟨chunks, hknown, htiles⟩ := h.tiles
      exact ⟨chunks, fun r hr => himp r (hknown r hr), htiles⟩ }

/-- Nothing was read yet. -/
theorem new (job : Reading) (hrange : job.start ≤ job.stop)
    (hlimit : ∀ l, job.requirements.limit = some l → job.initial.length ≤ l) :
    Emitting job [(job.start, job.stop - job.start)] []
      (.new job.initial job.start job.requirements) := by
  have hhits : ∀ i, hits (job.owned [(job.start, job.stop - job.start)] []
      (.new job.initial job.start job.requirements)) i
        = cover (job.start, job.stop - job.start) i := by
    intro i
    rw [hits_owned, cover_eq_zero (by simp only [PipelinedEmit.new]; omega)]
    simp [PipelinedEmit.new]
  exact
    { start_le := Nat.le_refl _
      disjoint := fun i => Nat.le_of_eq (hhits i)
      complete := fun i h₁ h₂ _ => Nat.le_of_eq
        ((hhits i).trans (cover_eq_one h₁ (by dsimp only; omega))).symm
      queued := nofun
      observed := nofun
      exact := nofun
      upper := nofun
      tiles := ⟨[], nofun, rfl, by simp [PipelinedEmit.new]⟩
      limit := hlimit
      expectedEof := rfl
      limit_eq := rfl }

/-! ### Moving replies -/

/-- Replies may move between the hands of `record` and the queue. -/
theorem of_perm (h : Emitting job rest held e) {held' queue : List ReadTaskOutput}
    (hperm : (held ++ e.completed).Perm (held' ++ queue))
    (hobserved : ∀ r ∈ queue, r.eof = true → ∃ u, e.eofUpperBound = some u ∧ u ≤ r.stop) :
    Emitting job rest held' { e with completed := queue } := by
  have hmem : ∀ r, r ∈ held' ++ queue ↔ r ∈ held ++ e.completed := fun r => hperm.mem_iff.symm
  have hhits : ∀ i, hits (job.owned rest held' { e with completed := queue }) i
      = hits (job.owned rest held e) i := by
    intro i
    simp only [Reading.owned, hits_cons, hits_append]
    rw [hits_perm (hperm.map ReadTaskOutput.span) i]
  exact
    { start_le := h.start_le
      disjoint := fun i => hhits i ▸ h.disjoint i
      complete := fun i h₁ h₂ h₃ => hhits i ▸ h.complete i h₁ h₂ h₃
      queued := fun r hr => h.queued r ((hmem r).mp hr)
      observed := hobserved
      exact := fun x hx => by
        obtain ⟨hbound, hle, hknown, hplace⟩ := h.exact x hx
        refine ⟨hbound, hle, hknown, hplace.imp_right ?_⟩
        rintro ⟨r, hr, hstop⟩
        exact ⟨r, (hmem r).mpr hr, hstop⟩
      upper := fun hx u hu => by
        obtain ⟨r, hr, hempty⟩ := h.upper hx u hu
        exact ⟨r, (hmem r).mpr hr, hempty⟩
      tiles := h.tiles
      limit := h.limit
      expectedEof := h.expectedEof
      limit_eq := h.limit_eq }

/-- The answer to a request replaces the request: its span is in the hands of
`record`, the gap it leaves is to be read. -/
theorem hold (h : Emitting job ((r.offset, r.requested) :: rest) [] e) (hvalid : r.Valid)
    (hknown : job.known r) : Emitting job (r.shortReadGap.toList ++ rest) [r] e := by
  have hhits : ∀ i, hits (job.owned (r.shortReadGap.toList ++ rest) [r] e) i
      = hits (job.owned ((r.offset, r.requested) :: rest) [] e) i := by
    intro i
    have hsplit := hvalid.cover_span_gap i
    simp only [hits_owned, hits_append, hits_cons, List.map_cons, List.map_nil, hits_nil]
    omega
  exact
    { h with
      disjoint := fun i => hhits i ▸ h.disjoint i
      complete := fun i h₁ h₂ h₃ => hhits i ▸ h.complete i h₁ h₂ h₃
      queued := by
        intro q hq
        rcases List.mem_append.mp hq with hq | hq
        · rw [List.mem_singleton.mp hq]
          exact ⟨hvalid, hknown⟩
        · exact h.queued q hq
      exact := fun x hx => by
        obtain ⟨hbound, hle, hreported, hplace⟩ := h.exact x hx
        refine ⟨hbound, hle, hreported, hplace.imp_right ?_⟩
        rintro ⟨q, hq, hstop⟩
        exact ⟨q, List.mem_append_right _ hq, hstop⟩
      upper := fun hx u hu => by
        obtain ⟨q, hq, hempty⟩ := h.upper hx u hu
        exact ⟨q, List.mem_append_right _ hq, hempty⟩ }

/-! ### Observing the end of the file -/

/-- The end of the file is where the next byte would be emitted. -/
theorem exactHere (h : Emitting job rest held e) (hknown : job.known r) (heof : r.eof = true)
    (hstop : r.stop = e.nextOffset) (hok : (e.observeExactEof e.nextOffset).firstError = none) :
    Emitting job rest [] (e.observeExactEof e.nextOffset) := by
  obtain ⟨-, -, hbound, heq⟩ := PipelinedEmit.observeExactEof_ok hok
  rw [heq]
  exact
    { start_le := h.start_le
      disjoint := fun i => by
        have := h.disjoint i
        simp only [hits_owned, List.map_nil, hits_nil] at this ⊢
        omega
      complete := fun i h₁ _ h₃ => by
        have hlt : i < e.nextOffset := h₃ _ rfl
        have := h.start_le
        rw [hits_owned, cover_eq_one (by exact h₁) (by dsimp only; omega)]
        omega
      queued := fun q hq => h.queued q (List.mem_append_right _ hq)
      observed := fun q hq hqeof => by
        obtain ⟨u, hu, hle⟩ := h.observed q hq hqeof
        exact ⟨_, rfl, Nat.le_trans (hbound u hu) hle⟩
      exact := by
        rintro x ⟨⟩
        exact ⟨rfl, Nat.le_refl _, ⟨r, hknown, heof, hstop⟩, Or.inl rfl⟩
      upper := nofun
      tiles := h.tiles
      limit := h.limit
      expectedEof := h.expectedEof
      limit_eq := h.limit_eq }

/-- An empty reply that reports EOF only bounds the end. -/
theorem observeEofUpperBound (h : Emitting job rest [r] e) (hempty : r.data = [])
    (hok : (e.observeEofUpperBound r.offset).firstError = none) :
    Emitting job rest [r] (e.observeEofUpperBound r.offset) := by
  have hr : r ∈ [r] ++ e.completed := List.mem_cons_self
  obtain ⟨-, hexact, heq⟩ := PipelinedEmit.observeEofUpperBound_ok hok
  rw [heq]
  have hle : ∀ u, e.eofUpperBound = some u →
      e.eofUpperBound.elim r.offset (min · r.offset) ≤ u := by
    rintro u hu
    rw [hu]
    exact Nat.min_le_left _ _
  exact
    { h with
      complete := fun i h₁ h₂ h₃ => h.complete i h₁ h₂ fun u hu =>
        Nat.lt_of_lt_of_le (h₃ _ rfl) (hle u hu)
      observed := fun q hq hqeof => by
        obtain ⟨u, hu, hstop⟩ := h.observed q hq hqeof
        exact ⟨_, rfl, Nat.le_trans (hle u hu) hstop⟩
      exact := fun x hx => by
        obtain ⟨hbound, hrest⟩ := h.exact x hx
        refine ⟨?_, hrest⟩
        dsimp only
        rw [hbound]
        exact congrArg some (Nat.min_eq_left (hexact x hx))
      upper := fun hx u hu => by
        cases hold : e.eofUpperBound with
        | none =>
          rw [hold] at hu
          cases hu
          exact ⟨r, hr, hempty, rfl⟩
        | some v =>
          -- the lower of the two bounds has its own witness
          rw [hold] at hu
          cases hu
          rcases Nat.le_total v r.offset with hv | hv
          · obtain ⟨q, hq, hqempty, hqoff⟩ := h.upper hx v hold
            exact ⟨q, hq, hqempty, hqoff.trans (Nat.min_eq_left hv).symm⟩
          · exact ⟨r, hr, hempty, (Nat.min_eq_right hv).symm⟩ }

/-- A reply with data that reports EOF gives the exact end, and so does an empty one
at the offset to be emitted next. -/
theorem observeExactEof (h : Emitting job rest [r] e) (heof : r.eof = true)
    (hplace : r.data ≠ [] ∨ r.offset = e.nextOffset)
    (hok : (e.observeExactEof r.stop).firstError = none) :
    Emitting job rest [r] (e.observeExactEof r.stop) := by
  have hr : r ∈ [r] ++ e.completed := List.mem_cons_self
  obtain ⟨-, -, hbound, heq⟩ := PipelinedEmit.observeExactEof_ok hok
  have hnext : e.nextOffset ≤ r.stop := Nat.le_trans (h.bounds hr).1 (Nat.le_add_right _ _)
  rw [heq]
  exact
    { h with
      complete := fun i h₁ h₂ h₃ => h.complete i h₁ h₂ fun u hu =>
        Nat.lt_of_lt_of_le (h₃ _ rfl) (hbound u hu)
      observed := fun q hq hqeof => by
        obtain ⟨u, hu, hstop⟩ := h.observed q hq hqeof
        exact ⟨_, rfl, Nat.le_trans (hbound u hu) hstop⟩
      exact := by
        rintro x ⟨⟩
        refine ⟨rfl, hnext, ⟨r, (h.queued r hr).2, heof, rfl⟩, ?_⟩
        by_cases hempty : r.data = []
        · refine Or.inl ((hplace.resolve_left (not_not_intro hempty)).symm.trans ?_)
          rw [ReadTaskOutput.stop, hempty]
          rfl
        · exact Or.inr ⟨r, hr, hempty, rfl⟩
      upper := nofun }

/-- `record` looks at an EOF before it does anything else with the reply. -/
theorem observeReadEof (h : Emitting job rest [r] e) (heof : r.eof = true)
    (hok : (e.observeReadEof r).firstError = none) :
    Emitting job rest [r] (e.observeReadEof r) ∧
      ∃ u, (e.observeReadEof r).eofUpperBound = some u ∧ u ≤ r.stop := by
  unfold PipelinedEmit.observeReadEof at hok ⊢
  dsimp only at hok ⊢
  split at hok
  · next hempty =>
    rw [if_pos hempty]
    have hstop : r.offset + r.data.length = r.offset := by rw [hempty.1]; rfl
    rw [hstop] at hok ⊢
    refine ⟨h.observeEofUpperBound hempty.1 hok, ?_⟩
    rw [(PipelinedEmit.observeEofUpperBound_ok hok).2.2, ReadTaskOutput.stop, hstop]
    refine ⟨_, rfl, ?_⟩
    cases e.eofUpperBound with
    | none => exact Nat.le_refl _
    | some u => exact Nat.min_le_right _ _
  · next hplace =>
    rw [if_neg hplace]
    refine ⟨h.observeExactEof heof ?_ hok, ?_⟩
    · by_cases hempty : r.data = []
      · exact Or.inr (by_contra fun hne => hplace ⟨hempty, hne⟩)
      · exact Or.inl hempty
    · rw [(PipelinedEmit.observeExactEof_ok hok).2.2.2]
      exact ⟨_, rfl, Nat.le_refl _⟩

/-! ### Emitting -/

/-- Appending the data of the reply at the next offset. -/
theorem advance (h : Emitting job rest [r] e) (hoffset : r.offset = e.nextOffset)
    (hdata : r.data ≠ [])
    (hobserved : r.eof = true → ∃ u, e.eofUpperBound = some u ∧ u ≤ r.stop)
    (hbefore : ∀ x, e.eofAt = some x → e.nextOffset < x)
    (hlimit : ∀ l, job.requirements.limit = some l → e.out.length + r.data.length ≤ l) :
    Emitting job rest []
      { e with nextOffset := e.nextOffset + r.data.length, out := e.out ++ r.data } := by
  have hr : r ∈ [r] ++ e.completed := List.mem_cons_self
  have hvalid := (h.queued r hr).1
  have hstart := h.start_le
  have hspan : r.span = (e.nextOffset, r.span.2) := Prod.ext hoffset rfl
  -- the emitted part grows by the data of `r`, which lies in the span of `r`
  have hgrow : ∀ i, cover (job.start, e.nextOffset + r.data.length - job.start) i
      = cover (job.start, e.nextOffset - job.start) i
        + cover (e.nextOffset, r.data.length) i := by
    intro i
    have hsplit := cover_split job.start (e.nextOffset - job.start) r.data.length i
    rw [Nat.add_sub_of_le hstart] at hsplit
    rw [← hsplit, Nat.sub_add_comm hstart]
  have hdata_le : ∀ i, cover (e.nextOffset, r.data.length) i ≤ cover r.span i := by
    intro i
    rw [hspan]
    exact cover_mono hvalid.length_le_span i
  exact
    { start_le := Nat.le_trans hstart (Nat.le_add_right _ _)
      disjoint := fun i => by
        have := h.disjoint i
        have := hdata_le i
        have := hgrow i
        simp only [hits_owned, List.map_cons, List.map_nil, hits_cons, hits_nil] at *
        omega
      complete := fun i h₁ h₂ h₃ => by
        have hold := h.complete i h₁ h₂ h₃
        have hnew := hgrow i
        simp only [hits_owned, List.map_cons, List.map_nil, hits_cons, hits_nil] at hold ⊢
        -- a byte of the span beyond the data lies beyond a reported end
        have hcase : cover r.span i ≤ cover (e.nextOffset, r.data.length) i := by
          unfold ReadTaskOutput.span
          rw [hoffset]
          split
          · next heof =>
            obtain ⟨u, hu, hle⟩ := hobserved heof
            have hlt := h₃ u hu
            unfold ReadTaskOutput.stop at hle
            simp only [cover]
            split_ifs <;> omega
          · exact Nat.le_refl _
        omega
      queued := fun q hq => h.queued q (List.mem_append_right _ hq)
      observed := h.observed
      exact := fun x hx => by
        obtain ⟨hbound, -, hreported, hplace⟩ := h.exact x hx
        have hlt := hbefore x hx
        obtain ⟨q, hq, hqdata, hqstop⟩ := hplace.resolve_left (Nat.ne_of_lt hlt)
        rcases List.mem_append.mp hq with hq | hq
        · -- the reply that gave the end is the one being emitted
          rw [List.mem_singleton.mp hq, ReadTaskOutput.stop, hoffset] at hqstop
          exact ⟨hbound, Nat.le_of_eq hqstop, hreported, Or.inl hqstop⟩
        · have hle := h.stop_le_queued hoffset hq
          have hlen := hvalid.length_le_span
          refine ⟨hbound, ?_, hreported, Or.inr ⟨q, hq, hqdata, hqstop⟩⟩
          rw [← hqstop, ReadTaskOutput.stop]
          dsimp only
          omega
      upper := fun hx u hu => by
        obtain ⟨q, hq, hempty, hqoff⟩ := h.upper hx u hu
        rcases List.mem_append.mp hq with hq | hq
        · rw [List.mem_singleton.mp hq] at hempty
          exact absurd hempty hdata
        · exact ⟨q, hq, hempty, hqoff⟩
      tiles := by
        obtain ⟨chunks, hknown, htiles, hout⟩ := h.tiles
        refine ⟨chunks ++ [r], ?_, ?_, ?_⟩
        · intro q hq
          rcases List.mem_append.mp hq with hq | hq
          · exact hknown q hq
          · rw [List.mem_singleton.mp hq]
            exact (h.queued r hr).2
        · dsimp only
          rw [← hoffset]
          exact htiles.append hoffset
        · simp [hout]
      limit := fun l hl => by
        dsimp only
        rw [List.length_append]
        exact hlimit l hl
      expectedEof := h.expectedEof
      limit_eq := h.limit_eq }

theorem emit (h : Emitting job rest [r] e) (hoffset : r.offset = e.nextOffset)
    (hobserved : r.eof = true → ∃ u, e.eofUpperBound = some u ∧ u ≤ r.stop)
    (hbefore : r.data ≠ [] → ∀ x, e.eofAt = some x → e.nextOffset < x)
    (hok : (e.emit r).firstError = none) : Emitting job rest [] (e.emit r) := by
  obtain ⟨hvalid, hknown⟩ := h.queued r List.mem_cons_self
  unfold PipelinedEmit.emit at hok ⊢
  by_cases hdata : r.data = []
  · rw [if_pos hdata, hoffset] at hok ⊢
    refine h.exactHere hknown (hvalid.progress hdata) ?_ hok
    rw [ReadTaskOutput.stop, hdata, ← hoffset]
    rfl
  · rw [if_neg hdata] at hok ⊢
    split at hok
    · cases PipelinedEmit.firstError_recordError _ _ hok
    · next hensure =>
      have hadvanced := h.advance hoffset hdata hobserved (hbefore hdata) fun l hl =>
        ensureBufferedReadWithinLimit_ok hensure l (h.limit_eq.trans hl)
      dsimp only at hok ⊢
      split at hok
      · next heof =>
        rw [if_pos heof]
        exact hadvanced.exactHere hknown heof (by rw [ReadTaskOutput.stop, hoffset]) hok
      · next heof =>
        rw [if_neg heof]
        exact hadvanced

/-- Draining keeps the invariant, and leaves no reply in the queue that could be
emitted. -/
theorem drain {turns : ℕ} (h : Emitting job rest [] e) (hturns : e.completed.length ≤ turns)
    (hok : (PipelinedEmit.drain turns e).firstError = none) :
    Emitting job rest [] (PipelinedEmit.drain turns e) ∧
      (PipelinedEmit.drain turns e).Drained := by
  induction turns generalizing e with
  | zero =>
    refine ⟨h, fun _ r hr => ?_⟩
    rw [PipelinedEmit.drain, List.eq_nil_of_length_eq_zero (Nat.le_zero.mp hturns)] at hr
    cases hr
  | succ turns ih =>
    rw [PipelinedEmit.drain] at hok ⊢
    by_cases hgo : e.eofAt.all (e.nextOffset < ·)
    · rw [if_pos hgo] at hok ⊢
      split at hok
      · next htake => exact ⟨h, fun _ => PipelinedEmit.takeCompleted_none htake⟩
      · next r e' htake =>
        obtain ⟨hoffset, queue, rfl, hperm⟩ := PipelinedEmit.takeCompleted_some htake
        have hsub : ∀ q ∈ queue, q ∈ e.completed := fun q hq =>
          hperm.mem_iff.mpr (List.mem_cons_of_mem _ hq)
        have hheld : Emitting job rest [r] { e with completed := queue } :=
          h.of_perm hperm fun q hq => h.observed q (hsub q hq)
        have hbefore : ∀ x, e.eofAt = some x → e.nextOffset < x := fun x hx => by
          simpa [hx] using hgo
        have hemit := hheld.emit hoffset (h.observed r (hperm.mem_iff.mpr List.mem_cons_self))
          fun _ => hbefore
        have hlen : ({ e with completed := queue }.emit r).completed.length ≤ turns := by
          rw [PipelinedEmit.completed_emit]
          have := hperm.length_eq
          rw [List.length_cons] at this
          dsimp only
          omega
        dsimp only at hok ⊢
        split at hok
        · next hstop =>
          rw [if_pos hstop]
          refine ⟨hemit hok, fun hbefore => ?_⟩
          rw [hok, Option.isSome_none, Bool.false_or, Option.any_eq_true] at hstop
          obtain ⟨x, hx, hle⟩ := hstop
          have hlt := hbefore x hx
          simp only [decide_eq_true_eq] at hle
          omega
        · next hstop =>
          rw [if_neg hstop]
          exact ih (hemit (PipelinedEmit.drain_ok hok)) hlen hok
    · rw [if_neg hgo]
      refine ⟨h, fun hbefore => absurd ?_ hgo⟩
      rw [Option.all_eq_true]
      exact fun x hx => decide_eq_true (hbefore x hx)

/-! ### Recording a reply -/

/-- Data that passes the check against a known end lies below it. -/
theorem stop_le_of_not_beyondEof (h : Emitting job rest [r] e) (hstop : job.stop < 2 ^ 64)
    (hbeyond : ¬ PipelinedEmit.beyondEof e.eofAt r = true) (hdata : r.data ≠ []) {x : ℕ}
    (hx : e.eofAt = some x) : r.stop ≤ x := by
  obtain ⟨hvalid, -⟩ := h.queued r List.mem_cons_self
  have hbounds := (h.bounds List.mem_cons_self).2
  have hlen := hvalid.length_le_span
  rw [hx, PipelinedEmit.beyondEof_some] at hbeyond
  have hle : saturatingAdd r.offset r.data.length ≤ x :=
    Nat.le_of_not_lt fun hlt => hbeyond ⟨hdata, hlt⟩
  unfold saturatingAdd at hle
  unfold ReadTaskOutput.stop
  omega

/-- What `record` does once it has looked at an EOF. -/
theorem place (h : Emitting job rest [r] e) (hdrained : e.Drained) (hstop : job.stop < 2 ^ 64)
    (hobserved : r.eof = true → ∃ u, e.eofUpperBound = some u ∧ u ≤ r.stop)
    (e' : PipelinedEmit)
    (he' : e' = if PipelinedEmit.beyondEof e.eofAt r then
        e.recordError (.protocol "pipelined READ returned data beyond a previously reported EOF")
      else if r.offset = e.nextOffset then (e.emit r).drainQueued
      else { e with completed := e.completed ++ [r] })
    (hok : e'.firstError = none) : Emitting job rest [] e' ∧ e'.Drained := by
  subst he'
  split at hok
  · cases PipelinedEmit.firstError_recordError _ _ hok
  · next hbeyond =>
    rw [if_neg hbeyond]
    split at hok
    · next hoffset =>
      rw [if_pos hoffset]
      have hlt : r.data ≠ [] → ∀ x, e.eofAt = some x → e.nextOffset < x := by
        intro hdata x hx
        have hle := h.stop_le_of_not_beyondEof hstop hbeyond hdata hx
        have hpos := List.length_pos_iff.mpr hdata
        unfold ReadTaskOutput.stop at hle
        omega
      exact (h.emit hoffset hobserved hlt (PipelinedEmit.drain_ok hok)).drain (Nat.le_refl _) hok
    · next hoffset =>
      rw [if_neg hoffset]
      refine ⟨h.of_perm (List.perm_append_singleton _ _).symm fun q hq => ?_, ?_⟩
      · rcases List.mem_append.mp hq with hq | hq
        · exact h.observed q hq
        · rw [List.mem_singleton.mp hq]
          exact hobserved
      · intro hbefore q hq
        rcases List.mem_append.mp hq with hq | hq
        · exact hdrained hbefore q hq
        · rw [List.mem_singleton.mp hq]
          exact hoffset

theorem record (h : Emitting job ((r.offset, r.requested) :: rest) [] e) (hdrained : e.Drained)
    (hstop : job.stop < 2 ^ 64) (hvalid : r.Valid) (hknown : job.known r)
    (hok : (e.record r).firstError = none) :
    Emitting job (r.shortReadGap.toList ++ rest) [] (e.record r) ∧ (e.record r).Drained := by
  have hheld := h.hold hvalid hknown
  unfold PipelinedEmit.record at hok ⊢
  dsimp only at hok ⊢
  by_cases heof : r.eof = true
  · simp only [if_pos heof] at hok ⊢
    have hobs : (e.observeReadEof r).firstError = none := by
      split at hok
      · cases PipelinedEmit.firstError_recordError _ _ hok
      · split at hok
        · exact PipelinedEmit.emit_ok (PipelinedEmit.drain_ok hok)
        · exact hok
    obtain ⟨hheld', hupper⟩ := hheld.observeReadEof heof hobs
    refine hheld'.place ?_ hstop (fun _ => hupper) _ rfl hok
    exact hdrained.observeReadEof hobs
  · simp only [if_neg heof] at hok ⊢
    exact hheld.place hdrained hstop (fun hr => absurd hr heof) _ rfl hok

/-! ### The end -/

/-- What was emitted lies in the range. -/
theorem nextOffset_le (h : Emitting job rest held e) (hrange : job.start ≤ job.stop) :
    e.nextOffset ≤ job.stop := by
  by_cases hempty : e.nextOffset - job.start = 0
  · omega
  · have hsub := subset_of_cover_le (q := (job.start, job.stop - job.start))
      (r := (job.start, e.nextOffset - job.start)) (by dsimp only; omega) fun i =>
        Nat.le_trans (by rw [hits_owned]; omega) (h.disjoint i)
    dsimp only at hsub
    omega

/-- Without an EOF, everything was emitted once nothing is left to read. -/
theorem nextOffset_eq_of_no_eof (h : Emitting job rest [] e) (hdrained : e.Drained)
    (hexact : e.eofAt = none) (hupper : e.eofUpperBound = none)
    (hrest : ∀ i, job.start ≤ i → i < job.stop → hits rest i = 0)
    (hrange : job.start ≤ job.stop) : e.nextOffset = job.stop := by
  have hle := h.nextOffset_le hrange
  by_contra hne
  -- the byte to be emitted next is owned by a queued reply, which begins there
  have howned := h.complete e.nextOffset h.start_le (by omega) (by simp [hupper])
  have hstart := h.start_le
  rw [hits_owned, cover_eq_zero (by right; dsimp only; omega),
    hrest _ h.start_le (by omega), List.map_nil, hits_nil] at howned
  obtain ⟨q, hq, hqle, -⟩ := exists_of_hits_pos (by omega :
    1 ≤ hits (e.completed.map ReadTaskOutput.span) e.nextOffset)
  obtain ⟨r, hr, rfl⟩ := List.mem_map.mp hq
  have hbounds := (h.bounds hr).1
  exact hdrained (by simp [hexact]) r hr (Nat.le_antisymm hqle hbounds)

/-- When `finish` succeeds with nothing left to read, the whole range was emitted, or
a reply reported the end of the file where the emitted part ends. -/
theorem finish_ok (h : Emitting job rest [] e) (hdrained : e.Drained)
    (hrest : e.eofUpperBound = none → ∀ i, job.start ≤ i → i < job.stop → hits rest i = 0)
    (hrange : job.start ≤ job.stop) (hfinish : e.finish = .ok ()) :
    (e.nextOffset = job.stop ∨ ∃ r, job.known r ∧ r.eof = true ∧ r.stop = e.nextOffset) ∧
      ∀ x, job.requirements.expectedEof = some x → x.offset = e.nextOffset := by
  unfold PipelinedEmit.finish at hfinish
  split at hfinish
  · cases hfinish
  · split at hfinish
    · cases hfinish
    · split at hfinish
      · -- the end of the file is known, and all of it was emitted
        next x hx =>
        obtain ⟨-, hle, hreported, -⟩ := h.exact x hx
        split at hfinish
        · cases hfinish
        · next hge =>
          have hend : e.nextOffset = x := Nat.le_antisymm hle (Nat.le_of_not_lt hge)
          rw [hx, h.expectedEof] at hfinish
          rw [hend]
          exact ⟨Or.inr hreported, fun expected hexpected =>
            validateOptionalObservedEof_ok hfinish expected hexpected⟩
      · -- the empty reply that gave the bound would have been emitted
        next u hnone hu =>
        split at hfinish
        · cases hfinish
        · next hge =>
          obtain ⟨q, hq, -, hqoff⟩ := h.upper hnone u hu
          have hbounds := (h.bounds hq).1
          exact absurd (by omega) (hdrained (by simp [hnone]) q hq)
      · next hnone hu =>
        rw [hnone, h.expectedEof] at hfinish
        refine ⟨Or.inl (h.nextOffset_eq_of_no_eof hdrained hnone hu (hrest hu) hrange), ?_⟩
        intro expected hexpected
        rw [hexpected] at hfinish
        cases hfinish

end Emitting

end NfsCrust
