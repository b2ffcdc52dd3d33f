import NfsCrust.CallRules
import NfsCrust.Lib.Replay
import NfsCrust.Read.Program
import NfsCrust.Read.Tiling
import NfsCrust.Reply

/-!
# A pipelined read against any server

Nothing is assumed of the server here: a request may be answered by any bytes, in
any order, or fail.  Whatever it does, the bytes a successful pipelined read has
appended are the data of replies that tile an initial part of the range, and the
part is the whole range unless a reply reported EOF at its end.

## Main definitions

* `ServerLog`, `logged` — a server that may say anything; what it said is recorded.
* `Replied` — a reply to a `READ` of the pipeline that passed its check.

## Main results

* `safe_readChunk` — a chunk that is returned was replied.
* `readHandleToBytesPipelinedInto_tiles` — the result of a pipelined read.
-/

namespace NfsCrust

open Interaction Ranges

/-- Everything the client asked and was told, oldest first. -/
abbrev ServerLog := List ((e : Effect) × e.Response)

/-- A server that answers anything. -/
def logged (e : Effect) (log : ServerLog) (r : e.Response) (log' : ServerLog) : Prop :=
  log' = log ++ [⟨e, r⟩]

/-- The log has a reply to the `READ` of `r`, which decodes to its data and passes the
check of a reply. -/
def Replied (s : NfsSession) (fh : FileHandle) (log : ServerLog) (r : ReadTaskOutput) : Prop :=
  ∃ slot response, ⟨.exchange s "read-anon" [.putFh fh, .read .anonymous r.offset r.requested],
      .ok (slot, response)⟩ ∈ log ∧
    decodeReadCompound response = .ok ⟨r.eof, r.data⟩ ∧
    validateReadReply ⟨r.eof, r.data⟩ r.requested = .ok ()

variable {s : NfsSession} {fh : FileHandle} {log log' : ServerLog} {r : ReadTaskOutput}

theorem Replied.mono (h : Replied s fh log r) (hlog : log <+: log') : Replied s fh log' r := by
  obtain ⟨slot, response, hmem, hdecode, hvalid⟩ := h
  exact ⟨slot, response, hlog.subset hmem, hdecode, hvalid⟩

theorem Replied.valid (h : Replied s fh log r) (hpos : 0 < r.requested) : r.Valid := by
  obtain ⟨-, -, -, -, hvalid⟩ := h
  unfold validateReadReply at hvalid
  split at hvalid
  · cases hvalid
  · next hshort =>
    split at hvalid
    · cases hvalid
    · next hprogress =>
      refine ⟨Nat.le_of_not_gt hshort, hpos, fun hempty => ?_⟩
      by_contra heof
      exact hprogress ⟨hpos, hempty, by simpa using heof⟩

/-- A chunk that is returned was replied to the request for it. -/
theorem safe_readChunk (s : NfsSession) (fh : FileHandle) (offset count : ℕ) (log : ServerLog) :
    Thread.Safe (E := effects) logged (· <+: ·) (· <+: ·)
      (fun result log => ∀ read, result = .ok read →
        Replied s fh log read ∧ read.offset = offset ∧ read.requested = count)
      (readChunk s fh offset count).run log := by
  unfold readChunk
  refine Thread.safe_bindExcept (Thread.safe_except ?_)
  cases addU64 offset count with
  | error err => exact nofun
  | ok _ =>
  refine Thread.safe_bindExcept (safe_call (fun _ => True) trivial (fun _ _ _ _ => trivial)
    (fun _ _ _ _ => nofun) ?_ ?_)
  · rintro log resp _ - - rfl
    refine ⟨List.prefix_append _ _, ?_, fun _ _ _ => trivial⟩
    cases hreceived : (SessionCall.readAnonymous fh offset count).received resp with
    | error err => exact nofun
    | ok read =>
      obtain ⟨slot, response, rfl, hdecode⟩ := SessionCall.received_ok hreceived
      refine Thread.safe_bindExcept (Thread.safe_except ?_)
      cases hvalid : validateReadReply read count with
      | error err => exact nofun
      | ok _ =>
        refine Thread.safe_bindExcept (Thread.safe_except ?_)
        cases addU64 offset read.data.length with
        | error err => exact nofun
        | ok _ =>
          rintro _ ⟨⟩
          exact ⟨⟨slot, response, List.mem_append_right _ List.mem_cons_self, hdecode, hvalid⟩,
          rfl, rfl⟩
  · rintro status n log _ - rfl
    exact ⟨List.prefix_append _ _, trivial⟩

/-! ### The pool -/

/-- The ranges that are still to be read: in flight, gaps, and fresh. -/
def ChunkScheduler.rest (scheduler : ChunkScheduler) (inFlight : List (ℕ × ℕ)) : List (ℕ × ℕ) :=
  inFlight ++ (scheduler.gaps ++ [(scheduler.nextOffset, scheduler.end - scheduler.nextOffset)])

/-- The scheduler hands out ranges that are neither empty nor larger than a chunk. -/
structure ChunkScheduler.Sound (scheduler : ChunkScheduler) (stop : ℕ)
    (inFlight : List (ℕ × ℕ)) : Prop where
  stop_eq : scheduler.end = stop
  chunk_pos : 0 < scheduler.chunkSize
  gaps : ∀ g ∈ scheduler.gaps, 0 < g.2 ∧ g.2 ≤ scheduler.chunkSize
  inFlight : ∀ x ∈ inFlight, 0 < x.2 ∧ x.2 ≤ scheduler.chunkSize

/-- Handing out a range moves it from what is left to what is in flight. -/
theorem ChunkScheduler.nextRange_spec {scheduler scheduler' : ChunkScheduler} {stop : ℕ}
    {inFlight : List (ℕ × ℕ)} {eofObserved : Bool} {range : ℕ × ℕ}
    (h : scheduler.Sound stop inFlight)
    (hnext : scheduler.nextRange eofObserved = some (range, scheduler')) :
    scheduler'.Sound stop (inFlight ++ [range]) ∧
      ∀ i, hits (scheduler'.rest (inFlight ++ [range])) i = hits (scheduler.rest inFlight) i := by
  obtain ⟨gaps, next, stop', chunk⟩ := scheduler
  unfold nextRange at hnext
  cases gaps with
  | cons gap gaps =>
    obtain ⟨offset, len⟩ := gap
    cases hnext
    obtain ⟨hpos, hle⟩ := h.gaps _ List.mem_cons_self
    dsimp only at hpos hle
    have hmin : min len chunk = len := Nat.min_eq_left hle
    refine ⟨⟨h.stop_eq, h.chunk_pos, fun g hg => h.gaps g (List.mem_cons_of_mem _ hg), ?_⟩, ?_⟩
    · intro x hx
      rcases List.mem_append.mp hx with hx | hx
      · exact h.inFlight x hx
      · rw [List.mem_singleton.mp hx, hmin]
        exact ⟨hpos, hle⟩
    · intro i
      simp only [rest, hmin, hits_append, hits_cons, hits_nil]
      omega
  | nil =>
    dsimp only at hnext
    split at hnext
    · cases hnext
    · next hfresh =>
      cases hnext
      have hchunk : 0 < chunk := h.chunk_pos
      rw [not_or] at hfresh
      refine ⟨⟨h.stop_eq, h.chunk_pos, nofun, ?_⟩, ?_⟩
      · intro x hx
        rcases List.mem_append.mp hx with hx | hx
        · exact h.inFlight x hx
        · rw [List.mem_singleton.mp hx]
          dsimp only
          omega
      · intro i
        have hsplit := cover_split next (min (stop' - next) chunk)
          (stop' - (next + min (stop' - next) chunk)) i
        rw [show min (stop' - next) chunk + (stop' - (next + min (stop' - next) chunk))
          = stop' - next by omega] at hsplit
        simp only [rest, hits_append, hits_cons, hits_nil]
        omega

/-- The gap of a short reply takes the place of its request. -/
theorem ChunkScheduler.Sound.absorb {scheduler : ChunkScheduler} {stop : ℕ} {l l' : List (ℕ × ℕ)}
    (h : scheduler.Sound stop (l ++ (r.offset, r.requested) :: l')) :
    (match r.shortReadGap with
      | some gap => scheduler.pushGap gap
      | none => scheduler).Sound stop (l ++ l') := by
  have hinFlight : ∀ x ∈ l ++ l', 0 < x.2 ∧ x.2 ≤ scheduler.chunkSize := by
    intro x hx
    refine h.inFlight x ?_
    rcases List.mem_append.mp hx with hx | hx
    · exact List.mem_append_left _ hx
    · exact List.mem_append_right _ (List.mem_cons_of_mem _ hx)
  cases hgap : r.shortReadGap with
  | none => exact { h with inFlight := hinFlight }
  | some gap =>
    have hrequest := (h.inFlight (r.offset, r.requested)
      (List.mem_append_right _ List.mem_cons_self)).2
    unfold ReadTaskOutput.shortReadGap at hgap
    dsimp only at hgap hrequest
    split at hgap
    · next hshort =>
      cases hgap
      simp only [Bool.and_eq_true, decide_eq_true_eq] at hshort
      refine ⟨h.stop_eq, h.chunk_pos, ?_, hinFlight⟩
      intro g hg
      rcases List.mem_cons.mp hg with rfl | hg
      · refine ⟨hshort.2, Nat.le_trans (Nat.sub_le _ _) ?_⟩
        exact hrequest
      · exact h.gaps g hg
    · cases hgap

/-- An error is never forgotten. -/
theorem PipelinedEmit.record_ok {e : PipelinedEmit} (h : (e.record r).firstError = none) :
    e.firstError = none := by
  have hobserved : (if r.eof then e.observeReadEof r else e).firstError = none := by
    unfold record at h
    generalize (if r.eof then e.observeReadEof r else e) = observed at h
    dsimp only at h
    split at h
    · cases firstError_recordError _ _ h
    · split at h
      · exact emit_ok (drain_ok h)
      · exact h
  split at hobserved
  · unfold observeReadEof at hobserved
    dsimp only at hobserved
    split at hobserved
    · exact (observeEofUpperBound_ok hobserved).1
    · exact (observeExactEof_ok hobserved).1
  · exact hobserved

/-- The invariant of the loop, with the ranges that are in flight.  It is given up
when an error was recorded. -/
structure Pipelining (job : Reading) (x : ChunkScheduler × PipelinedEmit)
    (inFlight : List (ℕ × ℕ)) : Prop where
  emitting : Emitting job (x.1.rest inFlight) [] x.2
  drained : x.2.Drained
  sound : x.1.Sound job.stop inFlight

/-- A range in flight can be singled out. -/
theorem Pipelining.emitting_cons {job : Reading} {x : ChunkScheduler × PipelinedEmit}
    {l l' : List (ℕ × ℕ)} {range : ℕ × ℕ} (h : Pipelining job x (l ++ range :: l')) :
    Emitting job (range :: x.1.rest (l ++ l')) [] x.2 := by
  refine h.emitting.of_hits fun i => ?_
  simp only [ChunkScheduler.rest, hits_cons, hits_append]
  omega

/-- Taking a reply keeps the invariant. -/
theorem Pipelining.absorb {job : Reading} {scheduler : ChunkScheduler} {emit : PipelinedEmit}
    {l l' : List (ℕ × ℕ)}
    (h : Pipelining job (scheduler, emit) (l ++ (r.offset, r.requested) :: l'))
    (hstop : job.stop < 2 ^ 64) (hvalid : r.Valid) (hknown : job.known r)
    (hok : (emit.record r).firstError = none) :
    Pipelining job (match r.shortReadGap with
      | some gap => scheduler.pushGap gap
      | none => scheduler, emit.record r) (l ++ l') := by
  obtain ⟨hrecorded, hdrained⟩ := h.emitting_cons.record h.drained hstop hvalid hknown hok
  refine ⟨hrecorded.of_hits fun i => ?_, hdrained, h.sound.absorb⟩
  cases r.shortReadGap with
  | none => rfl
  | some gap =>
    simp only [ChunkScheduler.rest, ChunkScheduler.pushGap, Option.toList_some, hits_cons,
      hits_append, hits_nil]
    omega

/-- When nothing is left to start, everything was read or an end was seen. -/
theorem ChunkScheduler.hits_rest_of_nextRange_none {scheduler : ChunkScheduler}
    (h : scheduler.nextRange false = none) (i : ℕ) : hits (scheduler.rest []) i = 0 := by
  obtain ⟨gaps, next, stop, chunk⟩ := scheduler
  cases gaps with
  | cons gap gaps => cases h
  | nil =>
    simp only [nextRange, Bool.false_eq_true, false_or, ge_iff_le] at h
    split at h
    · next hdone =>
      simp only [rest, List.nil_append, hits_cons, hits_nil]
      exact cover_eq_zero (by dsimp only; omega)
    · cases h

theorem readPool_next_some {depth : ℕ} {x x' : ChunkScheduler × PipelinedEmit}
    {t : Thread effects (Except Error ReadTaskOutput)}
    (h : (readPool s fh depth).next x = some (t, x')) :
    x.2.firstError = none ∧ ∃ offset count scheduler,
      x.1.nextRange x.2.eofObserved = some ((offset, count), scheduler) ∧
        t = (readChunk s fh offset count).run ∧ x' = (scheduler, x.2) := by
  simp only [readPool] at h
  split at h
  · next hmore =>
    obtain ⟨⟨⟨offset, count⟩, scheduler⟩, hrange, heq⟩ := Option.map_eq_some_iff.mp h
    cases heq
    exact ⟨Option.isNone_iff_eq_none.mp hmore, offset, count, scheduler, hrange, rfl, rfl⟩
  · cases h

theorem readPool_next_none {depth : ℕ} {x : ChunkScheduler × PipelinedEmit}
    (h : (readPool s fh depth).next x = none) (herr : x.2.firstError = none) :
    x.1.nextRange x.2.eofObserved = none := by
  simp only [readPool] at h
  split at h
  · exact Option.map_eq_none_iff.mp h
  · next hmore => exact absurd (Option.isNone_iff_eq_none.mpr herr) hmore

/-- **Every run of the loop.**  Unless an error was recorded, the invariant holds at the
end, and everything was read or an end was seen. -/
theorem readPool_ensures {start stop depth : ℕ} {out : Bytes} {requirements : ReadRequirements}
    (hdepth : 0 < depth) (hchunk : 0 < s.readGranularity) (hrange : start ≤ stop)
    (hstop : stop < 2 ^ 64)
    (hlimit : ∀ l, requirements.limit = some l → out.length ≤ l) (log : ServerLog) :
    Ensures (E := effects) logged (fun _ => True)
      ((readPool s fh depth).run
        (.new start stop s.readGranularity, .new out start requirements)) log
      fun x log => x.2.firstError = none →
        Pipelining ⟨start, stop, out, requirements, Replied s fh log⟩ x [] ∧
          (x.2.eofUpperBound = none → ∀ i, hits (x.1.rest []) i = 0) := by
  refine Pool.ensures_run_safe (X := ℕ × ℕ) (fun _ => (· <+: ·)) (fun _ => (· <+: ·))
    (fun range result log => ∀ read, result = .ok read →
      Replied s fh log read ∧ read.offset = range.1 ∧ read.requested = range.2)
    (fun x inFlight log => x.2.firstError = none →
      Pipelining ⟨start, stop, out, requirements, Replied s fh log⟩ x inFlight)
    hdepth ?_ (fun _ _ _ _ => trivial) (fun _ _ => List.prefix_rfl)
    (fun _ _ _ _ => List.IsPrefix.trans) ?_ ?_ ?_ ?_ ?_
  · exact fun _ => ⟨.new ⟨start, stop, out, requirements, _⟩ hrange hlimit, nofun,
      rfl, hchunk, nofun, nofun⟩
  · exact fun _ _ _ _ hresult hpre read hread =>
      ⟨(hresult read hread).1.mono hpre, (hresult read hread).2⟩
  · -- a range is handed out
    intro x inFlight log t x' hI hnext
    obtain ⟨herr, offset, count, scheduler, hrange, rfl, rfl⟩ := readPool_next_some hnext
    obtain ⟨hemitting, hdrained, hsound⟩ := hI herr
    obtain ⟨hsound', hhits⟩ := ChunkScheduler.nextRange_spec hsound hrange
    exact ⟨(offset, count), safe_readChunk s fh offset count log,
      fun _ => ⟨hemitting.of_hits hhits, hdrained, hsound'⟩⟩
  · -- the log grows
    intro x l range l' log log' hI hpre
    refine ⟨fun herr => ?_, fun _ _ => hpre⟩
    obtain ⟨hemitting, hdrained, hsound⟩ := hI herr
    exact ⟨hemitting.of_known fun _ hr => hr.mono hpre, hdrained, hsound⟩
  · -- a reply is taken
    rintro ⟨scheduler, emit⟩ l range l' result log hI hresult
    cases result with
    | error err => exact fun herr => absurd herr (PipelinedEmit.firstError_recordError _ _)
    | ok read =>
      intro herr
      obtain ⟨hreplied, hoffset, hrequested⟩ := hresult read rfl
      have hpipelining := hI (PipelinedEmit.record_ok herr)
      rw [show range = (read.offset, read.requested) from Prod.ext hoffset.symm hrequested.symm]
        at hpipelining
      have hpos := (hpipelining.sound.inFlight _
        (List.mem_append_right _ List.mem_cons_self)).1
      exact hpipelining.absorb hstop (hreplied.valid hpos) hreplied herr
  · -- nothing is left to start
    intro x log hI hnext herr
    refine ⟨hI herr, fun hupper => ?_⟩
    have hnone := readPool_next_none hnext herr
    rw [PipelinedEmit.eofObserved, hupper] at hnone
    exact ChunkScheduler.hits_rest_of_nextRange_none hnone

/-! ### The result -/

/-- **Pipelined reads.**  Whatever the server replies and in whichever order, the bytes
a successful read has appended are the data of replies that follow one another from
`start`.  They reach the end of the range unless a reply reported EOF where they end,
they end where an expected EOF is, and the buffer never exceeds the limit. -/
theorem readHandleToBytesPipelinedInto_tiles (s : NfsSession) (fh : FileHandle) (out : Bytes)
    (start totalLen : ℕ) (requirements : ReadRequirements) (log : ServerLog)
    (hrange : start + totalLen < 2 ^ 64) (hgranularity : 1 ≤ s.readGranularity)
    (hlimit : ∀ l, requirements.limit = some l → out.length ≤ l) :
    Ensures (E := effects) logged (fun _ => True)
      (readHandleToBytesPipelinedInto s fh out start totalLen requirements).run log
      fun
      | .error _, _ => True
      | .ok result, log => ∃ chunks len,
          (∀ r ∈ chunks, Replied s fh log r) ∧ Tiles start chunks (start + len) ∧
          result = out ++ (chunks.map ReadTaskOutput.data).flatten ∧ len ≤ totalLen ∧
          (len = totalLen ∨ ∃ r, Replied s fh log r ∧ r.eof = true ∧ r.stop = start + len) ∧
          (∀ x, requirements.expectedEof = some x → x.offset = start + len) ∧
          ∀ l, requirements.limit = some l → result.length ≤ l := by
  have hend : saturatingAdd start totalLen = start + totalLen := by
    unfold saturatingAdd
    omega
  unfold readHandleToBytesPipelinedInto
  refine ensures_bindExcept (ensures_liftThread trivial ?_)
  intro log₁ slots log₂ _ _
  refine ⟨trivial, fun _ => ensures_bindExcept (ensures_lift ?_)⟩
  rw [hend]
  refine (readPool_ensures (operationPipelineDepthForSlots_pos slots) hgranularity
    (Nat.le_add_right _ _) hrange hlimit log₂).mono ?_
  rintro ⟨scheduler, emit⟩ log₃ - hloop
  refine ensures_bindExcept (ensures_except trivial ?_)
  cases hfinish : emit.finish with
  | error err => trivial
  | ok _ =>
    refine ensures_pure trivial ?_
    have herr : emit.firstError = none := by
      cases herr : emit.firstError with
      | none => rfl
      | some err => simp [PipelinedEmit.finish, herr] at hfinish
    obtain ⟨⟨hemitting, hdrained, -⟩, hdone⟩ := hloop herr
    have hstart : start ≤ emit.nextOffset := hemitting.start_le
    have hstop : emit.nextOffset ≤ start + totalLen :=
      hemitting.nextOffset_le (Nat.le_add_right _ _)
    obtain ⟨hend, hexpected⟩ := hemitting.finish_ok hdrained
      (fun hupper i _ _ => hdone hupper i) (Nat.le_add_right _ _) hfinish
    obtain ⟨chunks, hreplied, htiles, hout⟩ := hemitting.tiles
    refine ⟨chunks, emit.nextOffset - start, hreplied, ?_, hout, by omega, ?_, ?_,
      hemitting.limit⟩
    · rwa [Nat.add_sub_of_le hstart]
    · dsimp only at hend
      rw [Nat.add_sub_of_le hstart]
      exact hend.imp_left (by omega)
    · rwa [Nat.add_sub_of_le hstart]

/-- A server that has its responses ready and offers two slots, and a scheduler that
has its choices ready. -/
def readyResponses : Player effects (List Bytes × List ℕ × ServerLog) where
  answer
    | .exchange s tag ops, (response :: responses, picks, log) =>
        let r := .ok (⟨Vector.replicate 16 0, 1, 0⟩, response)
        some (r, (responses, picks, log ++ [⟨.exchange s tag ops, r⟩]))
    | .sessionSlotCount s, (responses, picks, log) =>
        some ((2 : ℕ), (responses, picks, log ++ [⟨.sessionSlotCount s, (2 : ℕ)⟩]))
    | _, _ => none
  choose c := (c.2.1.headD 0, (c.1, c.2.1.tail, c.2.2))

theorem readyResponses_plays : readyResponses.Plays logged fun c => c.2.2 where
  answer e c r c' h := by
    obtain ⟨responses, picks, log⟩ := c
    match e, responses, r, h with
    | .exchange .., response :: responses, r, h => cases h; rfl
    | .sessionSlotCount _, _, r, h => cases h; rfl
  choose _ := rfl

/-- The reply of a `READ`. -/
def readReply (eof : Bool) (data : Opaque) : CompoundReply :=
  ⟨⟨[], by decide⟩, ⟨[.sequence (Vector.replicate 16 0) 1 0 0 0 0, .putFh, .read eof data], none⟩,
    (by decide : 3 < 2 ^ 32)⟩

def smallReads : NfsSession where
  exportRoot := ⟨[1]⟩
  clientid := 0
  authBodyLen := 0
  config := { «export» := "/", readGranularity := 2 }

/-- Two chunks of two bytes; the second one comes first, is short, and reports EOF. -/
theorem readHandleToBytesPipelinedInto_tiles_two_chunks :
    ∃ log chunks len,
      Relation.ReflTransGen (Step logged)
        ((readHandleToBytesPipelinedInto smallReads ⟨[7]⟩ [] 0 4 (.new none none)).run, [])
        (.ret (.ok [5, 6, 8]), log) ∧
      (∀ r ∈ chunks, Replied smallReads ⟨[7]⟩ log r) ∧ Tiles 0 chunks (0 + len) ∧
      [5, 6, 8] = [] ++ (chunks.map ReadTaskOutput.data).flatten ∧ len ≤ 4 := by
  obtain ⟨result, c, hrun, hresult⟩ := Prog.exists_run_of_play readyResponses_plays 40
    (readHandleToBytesPipelinedInto smallReads ⟨[7]⟩ [] 0 4 (.new none none)).run
    ([(readReply true ⟨[8], by decide⟩).encode, (readReply false ⟨[5, 6], by decide⟩).encode],
      [1, 1, 0, 0], [])
    (fun result _ => result.toOption = some [5, 6, 8]) (by decide +kernel)
  match result, hresult, hrun with
  | .ok result, hresult, hrun =>
    obtain rfl : result = [5, 6, 8] := by simpa [Except.toOption] using hresult
    obtain ⟨chunks, len, hreplied, htiles, hout, hlen, -⟩ :=
      (readHandleToBytesPipelinedInto_tiles smallReads ⟨[7]⟩ [] 0 4 (.new none none) [] (by decide)
        (by decide) nofun _ hrun).2 _ rfl
    exact ⟨_, chunks, len, hrun, hreplied, htiles, hout, hlen⟩

end NfsCrust
