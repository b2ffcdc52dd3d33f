import NfsCrust.Xdr.Language
import NfsCrust.Rpc.Transport

/-!
# Combined readers

The decoder has readers that take several values after a single check of the bytes that
remain.  Each of them accepts the language of the single readers it stands for, so it
succeeds on the same bytes, with the same values and the same rest.

## Main definitions

* `CombinedReader`, with `CombinedReader.read` and `CombinedReader.singleReads`.

## Main results

* `CombinedReader.read_eq_ok_iff` — a combined reader and its single reads have the same
  successful runs.
-/

namespace NfsCrust

open BigEndian StateExcept

/-- The combined readers of `XdrDecoder`. -/
inductive CombinedReader
  | u32Pair
  | u32Triple
  | u32AndBytes (n : ℕ)
  | u32PairAndBytes (n : ℕ)
  | boolAndSkip (skipLen : ℕ)
  | boolAndOpaque
  | u32SkipOpaqueAndReadU32
  | stringNeverSkipped

namespace CombinedReader

def Output : CombinedReader → Type
  | u32Pair => UInt32 × UInt32
  | u32Triple => UInt32 × UInt32 × UInt32
  | u32AndBytes n => UInt32 × Vector UInt8 n
  | u32PairAndBytes n => UInt32 × UInt32 × Vector UInt8 n
  | boolAndSkip _ => Bool
  | boolAndOpaque => Bool × Bytes
  | u32SkipOpaqueAndReadU32 => UInt32 × UInt32
  | stringNeverSkipped => Option String

/-- The reader of the source. -/
def read : (r : CombinedReader) → XdrM r.Output
  | u32Pair => readU32Pair
  | u32Triple => Rpc.readU32Triple
  | u32AndBytes n => readU32AndBytes n
  | u32PairAndBytes n => readU32PairAndBytes n
  | boolAndSkip skipLen => readBoolAndSkip skipLen
  | boolAndOpaque => readBoolAndOpaque
  | u32SkipOpaqueAndReadU32 => readU32SkipOpaqueAndReadU32
  | stringNeverSkipped => readStringUnless fun _ => false

/-- The single reads it combines, in the order of the values. -/
def singleReads : (r : CombinedReader) → XdrM r.Output
  | u32Pair => do return (← readU32, ← readU32)
  | u32Triple => do return (← readU32, ← readU32, ← readU32)
  | u32AndBytes n => do return (← readU32, ← readBytes n)
  | u32PairAndBytes n => do return (← readU32, ← readU32, ← readBytes n)
  | boolAndSkip skipLen => do
      let out ← readBool
      skipBytes skipLen
      return out
  | boolAndOpaque => do return (← readBool, ← readOpaque)
  | u32SkipOpaqueAndReadU32 => do
      let first ← readU32
      skipOpaque
      let second ← readU32
      return (first, second)
  | stringNeverSkipped => do
      match fromUtf8? (← readOpaque) with
      | some string => return some string
      | none => throw (.xdr "invalid utf-8 sequence")

/-- The words a combined reader takes for its values. -/
def Words : (r : CombinedReader) → r.Output → Bytes → Prop
  | u32Pair, (first, second), word => word = putU32 first ++ putU32 second
  | u32Triple, (first, second, third), word =>
      word = putU32 first ++ (putU32 second ++ putU32 third)
  | u32AndBytes _, (first, bytes), word => word = putU32 first ++ bytes.toList
  | u32PairAndBytes _, (first, second, bytes), word =>
      word = putU32 first ++ (putU32 second ++ bytes.toList)
  | boolAndSkip skipLen, out, word =>
      ∃ skipped : Bytes, skipped.length = skipLen ∧ word = putBool out ++ skipped
  | boolAndOpaque, (flag, value), word =>
      ∃ body, PaddedOpaque value body ∧ word = putBool flag ++ body
  | u32SkipOpaqueAndReadU32, (first, second), word =>
      ∃ value body, PaddedOpaque value body ∧ word = putU32 first ++ (body ++ putU32 second)
  | stringNeverSkipped, string, word =>
      ∃ value, decodeString (fun _ => false) value = .ok string ∧ PaddedOpaque value word

/-- The length that a reader adds up from its argument before it checks the bytes. -/
def argumentLen : CombinedReader → ℕ
  | u32AndBytes n => 4 + n
  | u32PairAndBytes n => 8 + n
  | boolAndSkip skipLen => 4 + skipLen
  | _ => 0

end CombinedReader

variable {α β γ : Type}

/-! ### Two and three values in a row -/

section

variable {m : XdrM α} {m' : XdrM β} {m'' : XdrM γ} {enc : α → Bytes} {enc' : β → Bytes}
  {enc'' : γ → Bytes}

theorem accepts_pair (hm : Accepts m fun a word => word = enc a)
    (hm' : Accepts m' fun b word => word = enc' b) :
    Accepts (do return (← m, ← m')) fun p word => word = enc p.1 ++ enc' p.2 :=
  (hm.bind fun _ => hm'.bind fun _ => accepts_pure _).congr fun p word => by
    constructor
    · rintro ⟨a, _, _, rfl, ⟨b, _, _, rfl, ⟨rfl, rfl⟩, rfl⟩, rfl⟩
      rw [List.append_nil]
    · rintro rfl
      exact ⟨p.1, _, _, rfl, ⟨p.2, _, [], rfl, ⟨rfl, rfl⟩, (List.append_nil _).symm⟩, rfl⟩

theorem accepts_triple (hm : Accepts m fun a word => word = enc a)
    (hm' : Accepts m' fun b word => word = enc' b)
    (hm'' : Accepts m'' fun c word => word = enc'' c) :
    Accepts (do return (← m, ← m', ← m'')) fun p word =>
      word = enc p.1 ++ (enc' p.2.1 ++ enc'' p.2.2) :=
  (hm.bind fun _ => hm'.bind fun _ => hm''.bind fun _ => accepts_pure _).congr fun p word => by
    constructor
    · rintro ⟨a, _, _, rfl, ⟨b, _, _, rfl, ⟨c, _, _, rfl, ⟨rfl, rfl⟩, rfl⟩, rfl⟩, rfl⟩
      rw [List.append_nil]
    · rintro rfl
      exact ⟨p.1, _, _, rfl, ⟨p.2.1, _, _, rfl,
        ⟨p.2.2, _, [], rfl, ⟨rfl, rfl⟩, (List.append_nil _).symm⟩, rfl⟩, rfl⟩

end

/-! ### Values after one check -/

theorem accepts_readU32Pair :
    Accepts readU32Pair fun p word => word = putU32 p.1 ++ putU32 p.2 := by
  refine accepts_require_bind ?_
    (accepts_pair accepts_readU32AfterRequire accepts_readU32AfterRequire)
  rintro p word rfl
  simp [putU32]

theorem accepts_readU32Triple :
    Accepts Rpc.readU32Triple fun p word =>
      word = putU32 p.1 ++ (putU32 p.2.1 ++ putU32 p.2.2) := by
  refine accepts_require_bind ?_ (accepts_triple accepts_readU32AfterRequire
    accepts_readU32AfterRequire accepts_readU32AfterRequire)
  rintro p word rfl
  simp [putU32]

theorem accepts_readU32AndBytes {n : ℕ} (hn : 4 + n < 2 ^ 64) :
    Accepts (readU32AndBytes n) fun p word => word = putU32 p.1 ++ p.2.toList := by
  refine accepts_lift_bind (checkedAdd_eq _ hn) (accepts_require_bind ?_
    (accepts_pair accepts_readU32AfterRequire (accepts_copyToSlice n)))
  rintro p word rfl
  simp [putU32]

theorem accepts_readU32PairAndBytes {n : ℕ} (hn : 8 + n < 2 ^ 64) :
    Accepts (readU32PairAndBytes n) fun p word =>
      word = putU32 p.1 ++ (putU32 p.2.1 ++ p.2.2.toList) := by
  refine accepts_lift_bind (checkedAdd_eq _ hn) (accepts_require_bind ?_
    (accepts_triple accepts_readU32AfterRequire accepts_readU32AfterRequire
      (accepts_copyToSlice n)))
  rintro p word rfl
  simp only [List.length_append, putU32, length_be32, Vector.length_toList]
  omega

/-- The words of a boolean with a tail of `skipLen` bytes. -/
theorem accepts_readBoolAndSkip {skipLen : ℕ} (hskip : 4 + skipLen < 2 ^ 64) :
    Accepts (readBoolAndSkip skipLen) fun out word =>
      ∃ skipped : Bytes, skipped.length = skipLen ∧ word = putBool out ++ skipped := by
  refine accepts_lift_bind (checkedAdd_eq _ hskip) (accepts_require_bind ?_ ?_)
  · rintro out word ⟨skipped, hskipped, rfl⟩
    simp [putBool, putU32, hskipped]
  · refine (accepts_readU32AfterRequire.bind fun x => (accepts_lift (decodeBoolWord x)).bind
      fun _ => (accepts_skipBytesAfterRequire skipLen).bind fun _ => accepts_pure _).congr
      fun out word => ?_
    constructor
    · rintro ⟨x, _, _, rfl, ⟨_, _, _, ⟨hx, rfl⟩, ⟨_, skipped, _, hskipped, ⟨rfl, rfl⟩, rfl⟩,
        rfl⟩, rfl⟩
      rw [decodeBoolWord_eq_ok_iff] at hx
      refine ⟨skipped, hskipped, ?_⟩
      rw [List.append_nil, List.nil_append, hx, putBool]
    · rintro ⟨skipped, hskipped, rfl⟩
      exact ⟨_, _, skipped, rfl, ⟨out, [], skipped, ⟨decodeBoolWord_toWord out, rfl⟩,
        ⟨(), skipped, [], hskipped, ⟨rfl, rfl⟩, (List.append_nil _).symm⟩, rfl⟩, rfl⟩

/-- The flag is checked after the length has been read, which the words do not show. -/
theorem accepts_readBoolAndOpaque :
    Accepts readBoolAndOpaque fun p word =>
      ∃ body, PaddedOpaque p.2 body ∧ word = putBool p.1 ++ body := by
  refine (accepts_readU32Pair.bind fun q => (accepts_lift (decodeBoolWord q.1)).bind fun _ =>
    (accepts_readOpaqueBytes q.2.toNat_lt).bind fun _ => accepts_pure _).congr
    fun (flag, value) word => ?_
  constructor
  · rintro ⟨⟨x, len⟩, _, _, rfl, ⟨_, _, _, ⟨hx, rfl⟩, ⟨_, body, _, ⟨hlen, hbody⟩, ⟨hout, rfl⟩,
      rfl⟩, rfl⟩, rfl⟩
    cases hout
    rw [decodeBoolWord_eq_ok_iff] at hx
    refine ⟨putU32 len ++ body, paddedOpaque_iff.mpr ⟨len, body, hlen, hbody, rfl⟩, ?_⟩
    dsimp only at hx
    rw [List.append_nil, List.nil_append, hx, putBool, List.append_assoc]
  · rintro ⟨_, hopaque, rfl⟩
    obtain ⟨len, body, hlen, hbody, rfl⟩ := paddedOpaque_iff.mp hopaque
    refine ⟨(if flag then 1 else 0, len), _, body, rfl,
      ⟨flag, [], body, ⟨decodeBoolWord_toWord flag, rfl⟩,
        ⟨value, body, [], ⟨hlen, hbody⟩, ⟨rfl, rfl⟩, (List.append_nil _).symm⟩, rfl⟩, ?_⟩
    rw [putBool, List.append_assoc]

/-- The following word is checked together with the opaque value. -/
theorem accepts_readU32SkipOpaqueAndReadU32 :
    Accepts readU32SkipOpaqueAndReadU32 fun p word =>
      ∃ value body, PaddedOpaque value body ∧ word = putU32 p.1 ++ (body ++ putU32 p.2) := by
  have htail : ∀ first len : UInt32, Accepts (do
      let skipLen ← opaquePaddedLen len.toNat
      let totalLen ← checkedAdd skipLen 4 "opaque skip length overflow"
      require totalLen
      skipBytesAfterRequire skipLen
      let second ← readU32AfterRequire
      return (first, second) : XdrM (UInt32 × UInt32)) fun p word =>
        p.1 = first ∧ ∃ body : Bytes, body.length = len.toNat + xdrPadding len.toNat ∧
          word = body ++ putU32 p.2 := by
    intro first len
    have hlt := len.toNat_lt
    have hpad := xdrPadding_lt len.toNat
    refine accepts_lift_bind (opaquePaddedLen_eq hlt)
      (accepts_lift_bind (checkedAdd_eq _ (by omega)) (accepts_require_bind ?_ ?_))
    · rintro p word ⟨_, body, hbody, rfl⟩
      simp [hbody, putU32]
    · refine ((accepts_skipBytesAfterRequire _).bind fun _ => accepts_readU32AfterRequire.bind
        fun _ => accepts_pure _).congr ?_
      rintro ⟨x, second⟩ word
      constructor
      · rintro ⟨_, body, _, hbody, ⟨_, _, _, rfl, ⟨hout, rfl⟩, rfl⟩, rfl⟩
        cases hout
        exact ⟨rfl, body, hbody, by rw [List.append_nil]⟩
      · rintro ⟨rfl, body, hbody, rfl⟩
        exact ⟨(), body, _, hbody,
          ⟨second, _, [], rfl, ⟨rfl, rfl⟩, (List.append_nil _).symm⟩, rfl⟩
  refine (accepts_readU32Pair.bind fun q => htail q.1 q.2).congr ?_
  rintro ⟨first, second⟩ word
  constructor
  · rintro ⟨⟨_, len⟩, _, _, rfl, ⟨rfl, body, hbody, rfl⟩, rfl⟩
    obtain ⟨hvalue, hpadded⟩ := paddedBody_iff.mpr ⟨rfl, hbody⟩
    exact ⟨body.take len.toNat, putU32 len ++ body,
      paddedOpaque_iff.mpr ⟨len, body, hvalue, hpadded, rfl⟩, by simp only [List.append_assoc]⟩
  · rintro ⟨value, _, hopaque, rfl⟩
    obtain ⟨len, body, hlen, hpadded, rfl⟩ := paddedOpaque_iff.mp hopaque
    exact ⟨(first, len), _, _, rfl,
      ⟨rfl, body, (paddedBody_iff.mp ⟨hlen, hpadded⟩).2, rfl⟩, by simp only [List.append_assoc]⟩

namespace CombinedReader

/-! ### The two sides -/

theorem accepts_read (r : CombinedReader) (h : r.argumentLen < 2 ^ 64) :
    Accepts r.read r.Words := by
  cases r with
  | u32Pair => exact accepts_readU32Pair
  | u32Triple => exact accepts_readU32Triple
  | u32AndBytes n => exact accepts_readU32AndBytes h
  | u32PairAndBytes n => exact accepts_readU32PairAndBytes h
  | boolAndSkip skipLen => exact accepts_readBoolAndSkip h
  | boolAndOpaque => exact accepts_readBoolAndOpaque
  | u32SkipOpaqueAndReadU32 => exact accepts_readU32SkipOpaqueAndReadU32
  | stringNeverSkipped => exact accepts_readStringUnless _

theorem accepts_singleReads (r : CombinedReader) : Accepts r.singleReads r.Words := by
  cases r with
  | u32Pair => exact accepts_pair accepts_readU32 accepts_readU32
  | u32Triple => exact accepts_triple accepts_readU32 accepts_readU32 accepts_readU32
  | u32AndBytes n => exact accepts_pair accepts_readU32 (accepts_readBytes n)
  | u32PairAndBytes n =>
    exact accepts_triple accepts_readU32 accepts_readU32 (accepts_readBytes n)
  | boolAndSkip skipLen =>
    refine (accepts_readBool.bind fun _ =>
      (accepts_skipBytes skipLen).bind fun _ => accepts_pure _).congr fun out word => ?_
    constructor
    · rintro ⟨_, _, _, rfl, ⟨_, skipped, _, hskipped, ⟨rfl, rfl⟩, rfl⟩, rfl⟩
      exact ⟨skipped, hskipped, by rw [List.append_nil]⟩
    · rintro ⟨skipped, hskipped, rfl⟩
      exact ⟨out, _, skipped, rfl,
        ⟨(), skipped, [], hskipped, ⟨rfl, rfl⟩, (List.append_nil _).symm⟩, rfl⟩
  | boolAndOpaque =>
    refine (accepts_readBool.bind fun _ =>
      accepts_readOpaque.bind fun _ => accepts_pure _).congr fun (flag, value) word => ?_
    constructor
    · rintro ⟨_, _, _, rfl, ⟨_, body, _, hbody, ⟨hout, rfl⟩, rfl⟩, rfl⟩
      cases hout
      exact ⟨body, hbody, by rw [List.append_nil]⟩
    · rintro ⟨body, hbody, rfl⟩
      exact ⟨flag, _, body, rfl,
        ⟨value, body, [], hbody, ⟨rfl, rfl⟩, (List.append_nil _).symm⟩, rfl⟩
  | u32SkipOpaqueAndReadU32 =>
    refine (accepts_readU32.bind fun _ => accepts_skipOpaque.bind fun _ =>
      accepts_readU32.bind fun _ => accepts_pure _).congr fun (first, second) word => ?_
    constructor
    · rintro ⟨_, _, _, rfl, ⟨_, body, _, ⟨value, hbody⟩, ⟨_, _, _, rfl, ⟨hout, rfl⟩, rfl⟩, rfl⟩,
        rfl⟩
      cases hout
      exact ⟨value, body, hbody, by rw [List.append_nil]⟩
    · rintro ⟨value, body, hbody, rfl⟩
      exact ⟨first, _, _, rfl, ⟨(), body, _, ⟨value, hbody⟩,
        ⟨second, _, [], rfl, ⟨rfl, rfl⟩, (List.append_nil _).symm⟩, rfl⟩, rfl⟩
  | stringNeverSkipped =>
    have hstring : ∀ value : Bytes, Accepts (match fromUtf8? value with
        | some string => return some string
        | none => throw (.xdr "invalid utf-8 sequence") : XdrM (Option String)) fun string word =>
          decodeString (fun _ => false) value = .ok string ∧ word = [] := by
      intro value
      have hdecode : decodeString (fun _ => false) value = match fromUtf8? value with
        | some string => .ok (some string)
        | none => .error (.xdr "invalid utf-8 sequence") := if_neg Bool.false_ne_true
      rw [hdecode]
      cases fromUtf8? value with
      | some string => exact accepts_lift (.ok (some string))
      | none => exact accepts_lift (.error (Error.xdr "invalid utf-8 sequence"))
    refine (accepts_readOpaque.bind hstring).congr fun string word => ?_
    constructor
    · rintro ⟨value, body, _, hbody, ⟨hvalue, rfl⟩, rfl⟩
      exact ⟨value, hvalue, by rwa [List.append_nil]⟩
    · rintro ⟨value, hvalue, hword⟩
      exact ⟨value, word, [], hword, ⟨hvalue, rfl⟩, (List.append_nil word).symm⟩

/-! ### Arguments that no input is long enough for -/

theorem argumentLen_le_length {r : CombinedReader} {a : r.Output} {word : Bytes}
    (h : r.Words a word) : r.argumentLen ≤ word.length := by
  cases r with
  | u32AndBytes n =>
    obtain rfl := h
    simp [argumentLen, putU32]
  | u32PairAndBytes n =>
    obtain rfl := h
    simp only [argumentLen, List.length_append, putU32, length_be32, Vector.length_toList]
    omega
  | boolAndSkip skipLen =>
    obtain ⟨skipped, hskipped, rfl⟩ := h
    simp [argumentLen, putBool, putU32, hskipped]
  | u32Pair | u32Triple | boolAndOpaque | u32SkipOpaqueAndReadU32 | stringNeverSkipped =>
    exact Nat.zero_le _

/-- The sum overflows, and the reader fails. -/
theorem read_ne_ok {r : CombinedReader} (h : ¬ r.argumentLen < 2 ^ 64) (buf rest : Bytes)
    (a : r.Output) : r.read.run buf ≠ .ok (a, rest) := by
  have hsum : ∀ {β : Type} {x y : ℕ} {message : String} {f : ℕ → XdrM β} {b : β},
      ¬ x + y < 2 ^ 64 → (liftM (checkedAdd x y message) >>= f).run buf ≠ .ok (b, rest) := by
    intro β x y message f b hxy hrun
    rw [checkedAdd, if_neg hxy] at hrun
    cases hrun
  cases r with
  | u32AndBytes n => exact hsum h
  | u32PairAndBytes n => exact hsum h
  | boolAndSkip skipLen => exact hsum h
  | u32Pair | u32Triple | boolAndOpaque | u32SkipOpaqueAndReadU32 | stringNeverSkipped =>
    exact absurd (by decide) h

/-- **A combined reader stands for its single reads**: on every byte string it succeeds iff
they do, with the same values and the same remaining bytes. -/
theorem read_eq_ok_iff (r : CombinedReader) (buf : Bytes) (hbuf : buf.length < 2 ^ 64)
    (a : r.Output) (rest : Bytes) :
    r.read.run buf = .ok (a, rest) ↔ r.singleReads.run buf = .ok (a, rest) := by
  by_cases h : r.argumentLen < 2 ^ 64
  · exact (accepts_read r h).run_eq_ok_iff (accepts_singleReads r) buf rest a
  · constructor
    · intro hrun
      exact absurd hrun (read_ne_ok h buf rest a)
    · intro hrun
      obtain ⟨word, hword, rfl⟩ := (accepts_singleReads r buf a rest).mp hrun
      have hlen := argumentLen_le_length hword
      rw [List.length_append] at hbuf
      omega

/-- A flag, a value of three bytes and one byte of padding that is not zero. -/
theorem read_eq_ok_iff_boolAndOpaque :
    ([0, 0, 0, 1, 0, 0, 0, 3, 97, 98, 99, 7] : Bytes).length < 2 ^ 64 ∧
      boolAndOpaque.singleReads.run [0, 0, 0, 1, 0, 0, 0, 3, 97, 98, 99, 7]
        = .ok ((true, [97, 98, 99]), []) := by
  refine ⟨by decide, ?_⟩
  apply (read_eq_ok_iff boolAndOpaque _ (by decide) (true, [97, 98, 99]) []).mp
  rfl

end CombinedReader

end NfsCrust
