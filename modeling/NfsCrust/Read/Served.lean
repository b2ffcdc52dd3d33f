import NfsCrust.Delivery
import NfsCrust.Lib.Replay
import NfsCrust.Read.Program
import NfsCrust.Read.Tiling

/-!
# A server that serves one file

A server that answers every `READ` of a handle from the same bytes `F`: with a
nonempty part of what was asked for, or with nothing at the end of the file, and
with EOF exactly when the end was reached.  How much it returns is up to it.

## Main definitions

* `slice` — a part of a file, cut at its end.
* `Served` — an answer to a `READ` of a file.
* `servesFile` — the server.

## Main results

* `Tiles.slice_eq` — answers that follow one another are a part of the file.
* `finishes_readAnonymous` — a `READ` is answered with a part of the file.
-/

namespace NfsCrust

open Interaction

/-! ### Parts of a file -/

/-- The bytes of `F` in `[start, start + len)`, cut at its end. -/
def slice (F : Bytes) (start len : ℕ) : Bytes := (F.drop start).take len

@[simp] theorem length_slice (F : Bytes) (start len : ℕ) :
    (slice F start len).length = min len (F.length - start) := by
  simp [slice]

@[simp] theorem slice_zero (F : Bytes) (start : ℕ) : slice F start 0 = [] := List.take_zero

@[simp] theorem slice_whole (F : Bytes) : slice F 0 F.length = F := by
  simp [slice]

theorem slice_append (F : Bytes) (start m n : ℕ) :
    slice F start m ++ slice F (start + m) n = slice F start (m + n) := by
  rw [slice, slice, slice, List.take_add, List.drop_drop]

/-- Beyond the end there is nothing more to take. -/
theorem slice_eq_slice {F : Bytes} {start m n : ℕ} (hm : F.length ≤ start + m)
    (hn : F.length ≤ start + n) : slice F start m = slice F start n := by
  rw [slice, slice, List.take_of_length_le (by rw [List.length_drop]; omega),
    List.take_of_length_le (by rw [List.length_drop]; omega)]

/-! ### Answers -/

/-- What a server that has `F` may answer to a `READ`. -/
structure Served (F : Bytes) (offset count : ℕ) (read : ReadData) : Prop where
  data : read.data = slice F offset read.data.length
  short : read.data.length ≤ count
  progress : offset < F.length → 0 < count → read.data ≠ []
  eof : read.eof = true ↔ F.length ≤ offset + read.data.length

namespace Served

variable {F : Bytes} {offset count : ℕ} {read : ReadData}

/-- Data comes from below the end of the file. -/
theorem stop_le (h : Served F offset count read) (hdata : read.data ≠ []) :
    offset + read.data.length ≤ F.length := by
  have hlen := congrArg List.length h.data
  have hpos := List.length_pos_iff.mpr hdata
  rw [length_slice] at hlen
  omega

/-- An answer and what follows it in the file. -/
theorem append_slice (h : Served F offset count read) (n : ℕ) :
    read.data ++ slice F (offset + read.data.length) n
      = slice F offset (read.data.length + n) := by
  rw [← slice_append, ← h.data]

/-- An answer to a request for less. -/
theorem mono {count' : ℕ} (h : Served F offset count read) (hpos : 0 < count)
    (hle : count ≤ count') : Served F offset count' read :=
  ⟨h.data, Nat.le_trans h.short hle, fun hlt _ => h.progress hlt hpos, h.eof⟩

/-- An empty answer comes from beyond the end of the file. -/
theorem length_le (h : Served F offset count read) (hcount : 0 < count) (hdata : read.data = []) :
    F.length ≤ offset :=
  Nat.le_of_not_lt fun hlt => h.progress hlt hcount hdata

theorem eof_of_empty (h : Served F offset count read) (hcount : 0 < count)
    (hdata : read.data = []) : read.eof = true :=
  h.eof.mpr (Nat.le_trans (h.length_le hcount hdata) (Nat.le_add_right _ _))

theorem validate (h : Served F offset count read) (hcount : 0 < count) :
    validateReadReply read count = .ok () := by
  have hshort := h.short
  rw [validateReadReply, if_neg (by omega), if_neg]
  rintro ⟨-, hdata, heof⟩
  rw [h.eof_of_empty hcount hdata] at heof
  cases heof

end Served

theorem ReadTaskOutput.valid_of_served {F : Bytes} {r : ReadTaskOutput}
    (h : Served F r.offset r.requested ⟨r.eof, r.data⟩) (hpos : 0 < r.requested) : r.Valid :=
  ⟨h.short, hpos, h.eof_of_empty hpos⟩

/-- Answers that follow one another are a part of the file. -/
theorem Tiles.slice_eq {F : Bytes} {a b : ℕ} {chunks : List ReadTaskOutput} (h : Tiles a chunks b)
    (hserved : ∀ r ∈ chunks, Served F r.offset r.requested ⟨r.eof, r.data⟩) :
    a ≤ b ∧ (chunks.map ReadTaskOutput.data).flatten = slice F a (b - a) := by
  induction chunks generalizing a with
  | nil =>
    cases h
    simp
  | cons r chunks ih =>
    obtain ⟨rfl, htiles⟩ := h
    obtain ⟨hle, hrest⟩ := ih htiles fun q hq => hserved q (List.mem_cons_of_mem _ hq)
    have hdata := (hserved r List.mem_cons_self).append_slice (b - r.stop)
    unfold ReadTaskOutput.stop at hle hrest hdata
    dsimp only at hdata
    refine ⟨by omega, ?_⟩
    rw [List.map_cons, List.flatten_cons, hrest, hdata]
    congr 1
    omega

/-! ### The server -/

/-- A server whose answers to a `READ` of the handle come from `F`.  Nothing is said
about other requests. -/
def servesFile (fh : FileHandle) (F : Bytes) (e : Effect) (_ : Unit) (r : e.Response)
    (_ : Unit) : Prop :=
  match e, r with
  | .exchange _ _ ops, r => ∀ offset count, ops = [.putFh fh, .read .anonymous offset count] →
      ∃ slot response eof data, r = .ok (slot, response) ∧
        Delivered slot ⟨[.putFh, .read eof data], none⟩ response ∧
        Served F offset count ⟨eof, data.bytes⟩
  | _, _ => True

/-- A part of the file that is not empty without need is an answer. -/
theorem served_slice (F : Bytes) (offset : ℕ) {count n : ℕ} (hle : n ≤ count)
    (hpos : 0 < count → 0 < n) :
    Served F offset count ⟨decide (F.length ≤ offset + (slice F offset n).length),
      slice F offset n⟩ where
  data := by
    dsimp only
    rw [length_slice]
    by_cases hend : n ≤ F.length - offset
    · rw [Nat.min_eq_left hend]
    · exact slice_eq_slice (by omega) (by omega)
  short := by
    dsimp only
    rw [length_slice]
    omega
  progress hlt hcount := by
    refine List.length_pos_iff.mp ?_
    have := hpos hcount
    dsimp only
    rw [length_slice]
    omega
  eof := decide_eq_true_iff

theorem three_short : 3 < 2 ^ 32 := by decide

/-- The answer to a `READ` that returns as much as there is. -/
def wholeAnswer (F : Bytes) (offset count : ℕ) (hcount : count < 2 ^ 32) :
    Except Error (SlotUse × Bytes) :=
  let data : Opaque := ⟨slice F offset count, by rw [length_slice]; omega⟩
  let eof := decide (F.length ≤ offset + data.bytes.length)
  let replies : Replies :=
    ⟨[.sequence (Vector.replicate 16 0) 1 0 0 0 0, .putFh, .read eof data], none⟩
  .ok (⟨Vector.replicate 16 0, 1, 0⟩,
    CompoundReply.encode ⟨⟨[], Opaque.short_nil⟩, replies, three_short⟩)

theorem servesFile_wholeAnswer (s : NfsSession) (fh : FileHandle) (F : Bytes) (tag : String)
    (offset : ℕ) {count : ℕ} (hcount : count < 2 ^ 32) :
    servesFile fh F (.exchange s tag [.putFh fh, .read .anonymous offset count]) ()
      (wholeAnswer F offset count hcount) () := by
  rintro _ _ ⟨⟩
  exact ⟨_, _, _, _, rfl, ⟨_, 0, 0, 0, rfl, rfl⟩, served_slice F offset (Nat.le_refl _) id⟩

/-- A server of the file that answers in full and offers one slot. -/
def wholeReads (F : Bytes) : Player effects Unit where
  answer
    | .exchange _ _ [.putFh _, .read _ offset count], _ =>
        if hcount : count < 2 ^ 32 then some (wholeAnswer F offset count hcount, ()) else none
    | .sessionSlotCount _, _ => some ((1 : ℕ), ())
    | _, _ => none
  choose _ := (0, ())

theorem wholeReads_plays (fh : FileHandle) (F : Bytes) :
    (wholeReads F).Plays (servesFile fh F) fun _ => () where
  answer e c r c' h := by
    cases e with
    | exchange s tag ops =>
      rintro offset count rfl
      simp only [wholeReads] at h
      split at h
      · next hcount =>
        cases h
        exact servesFile_wholeAnswer s fh F tag offset hcount offset count rfl
      · cases h
    | _ => trivial
  choose _ := rfl

variable {s : NfsSession} {fh : FileHandle} {F : Bytes} {offset count : ℕ}

/-- The client takes what the server answered. -/
theorem servesFile_received {tag : String} {r : Except Error (SlotUse × Bytes)}
    (h : servesFile fh F (.exchange s tag [.putFh fh, .read .anonymous offset count]) () r ()) :
    ∃ read, (SessionCall.readAnonymous fh offset count).received r = .ok read ∧
      Served F offset count read := by
  obtain ⟨slot, response, eof, data, rfl, hdelivered, hserved⟩ := h offset count rfl
  obtain ⟨read, hreceived, hvalue⟩ := SessionCall.received_complete (s := s)
    (.readAnonymous fh offset count) hdelivered ⟨rfl, rfl, rfl, rfl⟩
    ⟨by simp, by simp, by simp, by simp, trivial⟩
  cases hvalue
  exact ⟨_, hreceived, hserved⟩

/-- The negotiated limits admit a `READ` of the handle. -/
def NfsSession.AdmitsRead (s : NfsSession) (fh : FileHandle) : Prop :=
  ∀ offset count, s.validateCompoundRequest "read-anon"
    [.putFh fh, .read .anonymous offset count] = .ok ()

/-- A `READ` of the handle is one exchange, answered from the file. -/
theorem finishes_readAnonymous (hadmits : s.AdmitsRead fh) (hcount : count < 2 ^ 32) :
    Thread.Finishes (E := effects) (servesFile fh F)
      (fun r _ => ∃ read, r = .ok read ∧ Served F offset count read) 1
      (s.call (.readAnonymous fh offset count)).run () := by
  refine finishes_call (hadmits offset count) ?_ fun resp _ hserve => ?_
  · exact ⟨_, (), servesFile_wholeAnswer s fh F "read-anon" offset hcount⟩
  · obtain ⟨read, hreceived, hserved⟩ := servesFile_received hserve
    exact ⟨read, hreceived, read, rfl, hserved⟩

end NfsCrust
