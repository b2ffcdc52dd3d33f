import NfsCrust.Setup
import NfsCrust.Rpc.Transport

/-!
# Decoding a result body never panics

Many readers take bytes that another reader has required before.  Here every
decoder of a result body is shown to take only bytes that remain, whatever the
bytes are: the lengths, the counts and the bitmaps in them may all be wrong.

## Main definitions

* `SafeOn` — a decoder run on given bytes does not panic.
* `Calm` — a decoder panics on no bytes, and leaves no more than it found.

## Main results

* `calm_decodeFattr` — attribute values stay inside the extent of their opaque.
* `calm_decodeReaddir` — the loop over the entries of a page ends.
* `calm_decodeSequence`, `calm_decodeOpenStateid`, `calm_decodeCreateSession`, … — one for
  each decoder.
-/

namespace NfsCrust

open BigEndian StateExcept

def Error.isPanic : Error → Bool
  | .panic _ => true
  | _ => false

/-- Run on `buf`, the decoder ends in a value and remaining bytes with `post`, or in an error
of the source. -/
abbrev SafeOn {α : Type} (m : XdrM α) (buf : Bytes) (post : α → Bytes → Prop) : Prop :=
  Ends m buf post fun err => err.isPanic = false

/-- The length below which the numbers of all attributes of a bitmap fit a word. -/
def MAX_DECODED_LEN : ℕ := 2 ^ 29

/-- The decoder panics on no bytes, and leaves no more than it found. -/
def Calm {α : Type} (m : XdrM α) : Prop :=
  ∀ n ≤ MAX_DECODED_LEN,
    Preserves (fun buf : Bytes => buf.length < n) (fun err : Error => err.isPanic = false) m

section

variable {α β : Type} {buf : Bytes}

/-! ### Rules -/

theorem calm_pure (a : α) : Calm (pure a) := fun _ _ => preserves_pure a

theorem calm_throw {err : Error} (h : err.isPanic = false) : Calm (throw err : XdrM α) :=
  fun _ _ => preserves_throw h

theorem calm_lift {x : Except Error α} (h : ∀ err, x = .error err → err.isPanic = false) :
    Calm (liftM x : XdrM α) := fun _ _ => preserves_lift h

theorem Calm.bind {m : XdrM α} {f : α → XdrM β} (hm : Calm m) (hf : ∀ a, Calm (f a)) :
    Calm (m >>= f) := fun n hn => (hm n hn).bind fun a => hf a n hn

/-- A decoder is calm when each of its runs is safe and leaves no more bytes than it found. -/
theorem calm_of_safe {m : XdrM α}
    (h : ∀ buf : Bytes, buf.length < MAX_DECODED_LEN →
      SafeOn m buf fun _ rest => rest.length ≤ buf.length) : Calm m :=
  fun _ hn buf hbuf => (h buf (Nat.lt_of_lt_of_le hbuf hn)).mono
    fun _ _ hrest => Nat.lt_of_le_of_lt hrest hbuf

theorem Calm.safe {m : XdrM α} {post : α → Bytes → Prop} (hm : Calm m)
    (hbuf : buf.length < MAX_DECODED_LEN)
    (h : ∀ a (rest : Bytes), rest.length ≤ buf.length → post a rest) : SafeOn m buf post :=
  (hm (buf.length + 1) hbuf buf (Nat.lt_succ_self _)).mono
    fun a rest hrest => h a rest (Nat.le_of_lt_succ hrest)

/-! ### Readers -/

theorem safe_require {len : ℕ} {post : Unit → Bytes → Prop} (h : len ≤ buf.length → post () buf) :
    SafeOn (require len) buf post := by
  refine Ends.bind (ends_get ?_)
  dsimp only
  split
  · exact ends_throw rfl
  · exact ends_pure (h (by omega))

/-- Taking from the front is safe when the bytes are there. -/
theorem safe_takeAfterRequire {take : Bytes → Option (α × Bytes)} {n : ℕ}
    {post : α → Bytes → Prop}
    (htake : ∀ bs : Bytes, n ≤ bs.length → ∃ a rest, take bs = some (a, rest) ∧
      rest.length + n = bs.length)
    (hn : n ≤ buf.length) (h : ∀ a (rest : Bytes), rest.length + n = buf.length → post a rest) :
    SafeOn (takeAfterRequire take) buf post := by
  obtain ⟨a, rest, htaken, hrest⟩ := htake buf hn
  refine Ends.bind (ends_get ?_)
  rw [htaken]
  exact h a rest hrest

theorem exists_takeWord32 (bs : Bytes) (h : 4 ≤ bs.length) :
    ∃ a rest, takeWord32 bs = some (a, rest) ∧ rest.length + 4 = bs.length := by
  match bs, h with
  | _ :: _ :: _ :: _ :: rest, _ => exact ⟨_, rest, rfl, rfl⟩

theorem exists_takeWord64 (bs : Bytes) (h : 8 ≤ bs.length) :
    ∃ a rest, takeWord64 bs = some (a, rest) ∧ rest.length + 8 = bs.length := by
  obtain ⟨hi, bs₁, hhi, hlen₁⟩ := exists_takeWord32 bs (by omega)
  obtain ⟨lo, bs₂, hlo, hlen₂⟩ := exists_takeWord32 bs₁ (by omega)
  refine ⟨.ofNat (hi.toNat * 2 ^ 32 + lo.toNat), bs₂, ?_, by omega⟩
  rw [takeWord64, hhi]
  dsimp only
  rw [hlo]

theorem safe_readU32AfterRequire {post : UInt32 → Bytes → Prop} (hn : 4 ≤ buf.length)
    (h : ∀ a (rest : Bytes), rest.length + 4 = buf.length → post a rest) :
    SafeOn readU32AfterRequire buf post := safe_takeAfterRequire exists_takeWord32 hn h

theorem safe_readU64AfterRequire {post : UInt64 → Bytes → Prop} (hn : 8 ≤ buf.length)
    (h : ∀ a (rest : Bytes), rest.length + 8 = buf.length → post a rest) :
    SafeOn readU64AfterRequire buf post := safe_takeAfterRequire exists_takeWord64 hn h

theorem safe_copyToSlice {n : ℕ} {post : Vector UInt8 n → Bytes → Prop} (hn : n ≤ buf.length)
    (h : ∀ a (rest : Bytes), rest.length + n = buf.length → post a rest) :
    SafeOn (copyToSlice n) buf post := by
  refine safe_takeAfterRequire (fun bs hbs => ?_) hn h
  refine ⟨_, bs.drop n, dif_pos hbs, ?_⟩
  rw [List.length_drop]
  omega

theorem safe_copyToBytes {n : ℕ} {post : Bytes → Bytes → Prop} (hn : n ≤ buf.length)
    (h : ∀ a (rest : Bytes), rest.length + n = buf.length → post a rest) :
    SafeOn (copyToBytes n) buf post := by
  refine safe_takeAfterRequire (fun bs hbs => ?_) hn h
  refine ⟨_, bs.drop n, if_pos hbs, ?_⟩
  rw [List.length_drop]
  omega

theorem safe_skipBytesAfterRequire {n : ℕ} {post : Unit → Bytes → Prop} (hn : n ≤ buf.length)
    (h : ∀ rest : Bytes, rest.length + n = buf.length → post () rest) :
    SafeOn (skipBytesAfterRequire n) buf post :=
  Ends.bind (safe_copyToBytes hn fun _ rest hrest => ends_pure (h rest hrest))

theorem safe_sliceTo {len : ℕ} {post : Bytes → Bytes → Prop} (hlen : len ≤ buf.length)
    (h : ∀ value, post value buf) : SafeOn (sliceTo len) buf post := by
  refine Ends.bind (ends_get ?_)
  rw [if_neg (by omega)]
  exact ends_pure (h _)

theorem safe_vecWithCapacity {count size : ℕ} {post : Unit → Bytes → Prop}
    (hcount : count * size ≤ buf.length) (h : post () buf) :
    SafeOn (vecWithCapacity count size) buf post := by
  refine Ends.bind (ends_get ?_)
  rw [if_neg (by omega)]
  exact ends_pure h

theorem safe_checkedAdd {a b : ℕ} {message : String} {post : ℕ → Bytes → Prop}
    (h : post (a + b) buf) : SafeOn (liftM (checkedAdd a b message)) buf post := by
  refine ends_lift (fun sum hsum => ?_) fun err herr => ?_
  · unfold checkedAdd at hsum
    split at hsum
    · cases hsum
      exact h
    · cases hsum
  · unfold checkedAdd at herr
    split at herr
    · cases herr
    · cases herr
      rfl

theorem calm_readU32 : Calm readU32 :=
  calm_of_safe fun _ _ => Ends.bind <| safe_require fun hlen =>
    safe_readU32AfterRequire hlen fun _ _ _ => by omega

theorem calm_readU64 : Calm readU64 :=
  calm_of_safe fun _ _ => Ends.bind <| safe_require fun hlen =>
    safe_readU64AfterRequire hlen fun _ _ _ => by omega

theorem calm_readU32Pair : Calm readU32Pair := by
  refine calm_of_safe fun buf _ => ?_
  refine Ends.bind (safe_require fun hlen => ?_)
  refine Ends.bind (safe_readU32AfterRequire (by omega) fun first rest₁ hrest₁ => ?_)
  refine Ends.bind (safe_readU32AfterRequire (by omega) fun second rest₂ hrest₂ => ?_)
  exact ends_pure (by omega)

theorem calm_readU32Triple : Calm Rpc.readU32Triple := by
  refine calm_of_safe fun buf _ => ?_
  refine Ends.bind (safe_require fun hlen => ?_)
  refine Ends.bind (safe_readU32AfterRequire (by omega) fun first rest₁ hrest₁ => ?_)
  refine Ends.bind (safe_readU32AfterRequire (by omega) fun second rest₂ hrest₂ => ?_)
  refine Ends.bind (safe_readU32AfterRequire (by omega) fun third rest₃ hrest₃ => ?_)
  exact ends_pure (by omega)

theorem calm_readU32AndBytes (n : ℕ) : Calm (readU32AndBytes n) := by
  refine calm_of_safe fun buf _ => ?_
  refine Ends.bind (safe_checkedAdd ?_)
  refine Ends.bind (safe_require fun hlen => ?_)
  refine Ends.bind (safe_readU32AfterRequire (by omega) fun word rest₁ hrest₁ => ?_)
  refine Ends.bind (safe_copyToSlice (by omega) fun bytes rest₂ hrest₂ => ?_)
  exact ends_pure (by omega)

theorem calm_readU32PairAndBytes (n : ℕ) : Calm (readU32PairAndBytes n) := by
  refine calm_of_safe fun buf _ => ?_
  refine Ends.bind (safe_checkedAdd ?_)
  refine Ends.bind (safe_require fun hlen => ?_)
  refine Ends.bind (safe_readU32AfterRequire (by omega) fun first rest₁ hrest₁ => ?_)
  refine Ends.bind (safe_readU32AfterRequire (by omega) fun second rest₂ hrest₂ => ?_)
  refine Ends.bind (safe_copyToSlice (by omega) fun bytes rest₃ hrest₃ => ?_)
  exact ends_pure (by omega)

theorem isPanic_decodeBoolWord {value : UInt32} {err : Error}
    (h : decodeBoolWord value = .error err) : err.isPanic = false := by
  unfold decodeBoolWord at h
  split at h
  · cases h
  · split at h
    · cases h
    · cases h
      rfl

/-- A boolean takes the four bytes of its word. -/
theorem safe_readBool :
    SafeOn readBool buf fun _ rest => rest.length + 4 ≤ buf.length := by
  refine Ends.bind (Ends.bind (safe_require fun hlen => ?_))
  refine safe_readU32AfterRequire hlen fun value rest hrest => ?_
  exact ends_lift (fun _ _ => by omega) fun _ herr => isPanic_decodeBoolWord herr

theorem calm_readBool : Calm readBool :=
  calm_of_safe fun _ _ => safe_readBool.mono fun _ _ _ => by omega

theorem calm_readBoolAndSkip (skipLen : ℕ) : Calm (readBoolAndSkip skipLen) := by
  refine calm_of_safe fun buf hbuf => ?_
  refine Ends.bind (safe_checkedAdd ?_)
  refine Ends.bind (safe_require fun hlen => ?_)
  refine Ends.bind (safe_readU32AfterRequire (by omega) fun value rest₁ hrest₁ => ?_)
  -- the check of the word reads nothing, so the bytes to skip are still there
  refine Ends.bind (ends_lift (fun out _ => ?_) fun err herr => ?_)
  · refine Ends.bind (safe_skipBytesAfterRequire (by omega) fun rest₂ hrest₂ => ?_)
    exact ends_pure (by omega)
  · exact isPanic_decodeBoolWord herr

theorem calm_readOpaqueBytes (len : ℕ) : Calm (readOpaqueBytes len) := by
  refine calm_of_safe fun buf _ => ?_
  unfold readOpaqueBytes
  split
  · exact ends_pure (Nat.le_refl _)
  · refine Ends.bind (safe_checkedAdd ?_)
    refine Ends.bind (safe_require fun hlen => ?_)
    refine Ends.bind (safe_copyToBytes (by omega) fun out rest₁ hrest₁ => ?_)
    refine Ends.bind (safe_skipBytesAfterRequire (by omega) fun rest₂ hrest₂ => ?_)
    exact ends_pure (by omega)

theorem calm_readBoolAndOpaque : Calm readBoolAndOpaque :=
  calm_readU32Pair.bind fun (_, len) =>
    (calm_lift fun _ herr => isPanic_decodeBoolWord herr).bind fun _ =>
      (calm_readOpaqueBytes len.toNat).bind fun _ => calm_pure _

theorem calm_readBytes (n : ℕ) : Calm (readBytes n) :=
  calm_of_safe fun _ _ => Ends.bind <| safe_require fun hlen =>
    safe_copyToSlice hlen fun _ _ _ => by omega

theorem calm_skipBytes (len : ℕ) : Calm (skipBytes len) :=
  calm_of_safe fun _ _ => Ends.bind <| safe_require fun hlen =>
    safe_skipBytesAfterRequire hlen fun _ _ => by omega

theorem calm_readOpaque : Calm readOpaque :=
  calm_readU32.bind fun len => calm_readOpaqueBytes len.toNat

/-- The extent of an opaque is there, with its padding. -/
theorem safe_readOpaqueExtentLen (hbuf : buf.length < MAX_DECODED_LEN) :
    SafeOn readOpaqueExtentLen buf fun len rest =>
      len + xdrPadding len ≤ rest.length ∧ rest.length ≤ buf.length := by
  refine Ends.bind (calm_readU32.safe hbuf fun len rest hrest => ?_)
  refine Ends.bind (safe_checkedAdd ?_)
  refine Ends.bind (safe_require fun hlen => ?_)
  exact ends_pure ⟨hlen, hrest⟩

theorem safe_finishOpaqueAfterRequire {len consumed : ℕ} {post : Unit → Bytes → Prop}
    (hbuf : len - consumed + xdrPadding len ≤ buf.length)
    (h : ∀ rest : Bytes, rest.length ≤ buf.length → post () rest) :
    SafeOn (finishOpaqueAfterRequire len consumed) buf post := by
  refine Ends.bind ?_
  unfold opaqueRemainingLen
  split
  · exact ends_lift (fun _ hok => by cases hok) fun err herr => by cases herr; rfl
  · refine safe_checkedAdd ?_
    exact safe_skipBytesAfterRequire hbuf fun rest hrest => h rest (by omega)

theorem isPanic_decodeString {skip : Bytes → Bool} {value : Bytes} {err : Error}
    (h : decodeString skip value = .error err) : err.isPanic = false := by
  unfold decodeString at h
  split at h
  · cases h
  · split at h
    · cases h
    · cases h
      rfl

theorem calm_readStringUnless (skip : Bytes → Bool) : Calm (readStringUnless skip) := by
  refine calm_of_safe fun buf hbuf => ?_
  refine Ends.bind (calm_readU32.safe hbuf fun word rest₁ hrest₁ => ?_)
  refine Ends.bind (safe_checkedAdd ?_)
  refine Ends.bind (safe_require fun hlen => ?_)
  refine Ends.bind (safe_sliceTo (by omega) fun value => ?_)
  refine Ends.bind (ends_lift (fun string _ => ?_) fun err herr => ?_)
  · refine Ends.bind (safe_skipBytesAfterRequire hlen fun rest₂ hrest₂ => ?_)
    exact ends_pure (by omega)
  · exact isPanic_decodeString herr

theorem calm_readU32SkipOpaqueAndReadU32 : Calm readU32SkipOpaqueAndReadU32 := by
  refine calm_of_safe fun buf hbuf => ?_
  refine Ends.bind (calm_readU32Pair.safe hbuf fun (first, len) rest₁ hrest₁ => ?_)
  refine Ends.bind (safe_checkedAdd (Ends.bind (safe_checkedAdd ?_)))
  refine Ends.bind (safe_require fun hlen => ?_)
  refine Ends.bind (safe_skipBytesAfterRequire (by omega) fun rest₂ hrest₂ => ?_)
  refine Ends.bind (safe_readU32AfterRequire (by omega) fun second rest₃ hrest₃ => ?_)
  exact ends_pure (by omega)

theorem calm_skipOpaque : Calm skipOpaque := by
  refine calm_of_safe fun buf hbuf => ?_
  refine Ends.bind (calm_readU32.safe hbuf fun len rest₁ hrest₁ => ?_)
  refine Ends.bind (safe_checkedAdd ?_)
  split
  · exact ends_pure hrest₁
  · refine Ends.bind (safe_require fun hlen => ?_)
    exact safe_skipBytesAfterRequire hlen fun rest₂ hrest₂ => by omega

/-! ### Results -/

theorem calm_decodeFileHandle : Calm decodeFileHandle := by
  refine calm_readOpaque.bind fun handle => ?_
  dsimp only
  split
  · exact calm_throw rfl
  · exact calm_pure _

theorem calm_decodeReadData : Calm decodeReadData :=
  calm_readBoolAndOpaque.bind fun _ => calm_pure _

theorem isPanic_writeStability {raw : UInt32} {err : Error}
    (h : WriteStability.fromRaw raw = .error err) : err.isPanic = false := by
  unfold WriteStability.fromRaw at h
  repeat' split at h
  all_goals cases h
  rfl

theorem calm_decodeWriteData : Calm decodeWriteData :=
  (calm_readU32PairAndBytes 8).bind fun (_, _, _) =>
    (calm_lift fun _ herr => isPanic_writeStability herr).bind fun _ => calm_pure _

theorem calm_skipStateid : Calm skipStateid := calm_skipBytes _

theorem calm_skipChangeInfo : Calm skipChangeInfo :=
  (calm_readBoolAndSkip _).bind fun _ => calm_pure _

/-- The words of a bitmap are there. -/
theorem safe_requireBitmapWords {len : ℕ} {post : ℕ → Bytes → Prop}
    (h : len * 4 ≤ buf.length → post (len * 4) buf) : SafeOn (requireBitmapWords len) buf post := by
  unfold requireBitmapWords
  split
  · exact ends_throw rfl
  · refine Ends.bind (ends_get ?_)
    split
    · exact ends_throw rfl
    · exact ends_pure (h (by omega))

theorem calm_skipBitmapAfterLen (len : ℕ) : Calm (skipBitmapAfterLen len) := by
  refine calm_of_safe fun buf _ => ?_
  refine Ends.bind (safe_requireBitmapWords fun hlen => ?_)
  exact safe_skipBytesAfterRequire hlen fun rest hrest => by omega

theorem calm_skipBitmap : Calm skipBitmap :=
  calm_readU32.bind fun len => calm_skipBitmapAfterLen len.toNat

theorem calm_decodeOpenDelegation : Calm decodeOpenDelegation := by
  refine calm_readU32.bind fun delegationType => ?_
  split
  · exact calm_pure ()
  split
  · refine calm_readU32.bind fun why => ?_
    dsimp only
    split
    · exact calm_readBool.bind fun _ => calm_pure ()
    · exact calm_pure ()
  split
  · exact calm_throw rfl
  · exact calm_throw rfl

theorem calm_decodeStateId : Calm StateId.decode :=
  (calm_readU32AndBytes _).bind fun _ => calm_pure _

theorem calm_decodeOpenStateid : Calm decodeOpenStateid := by
  refine calm_decodeStateId.bind fun stateid => ?_
  refine calm_skipChangeInfo.bind fun _ => ?_
  refine calm_readU32Pair.bind fun (rflags, attrsSetLen) => ?_
  refine (calm_skipBitmapAfterLen _).bind fun _ => ?_
  refine calm_decodeOpenDelegation.bind fun _ => ?_
  split
  · exact calm_throw rfl
  · exact calm_pure _

/-! ### Attributes -/

/-- The words of a bitmap are as many as its length says. -/
theorem safe_decodeWords {n : ℕ} (hbuf : n * 4 ≤ buf.length) :
    SafeOn (Bitmap.decodeWords n) buf fun words rest =>
      words.length = n ∧ rest.length ≤ buf.length := by
  induction n generalizing buf with
  | zero => exact ends_pure ⟨rfl, Nat.le_refl _⟩
  | succ n ih =>
    refine Ends.bind (safe_readU32AfterRequire (by omega) fun word rest₁ hrest₁ => ?_)
    refine Ends.bind ((ih (by omega)).mono fun words rest₂ hwords => ?_)
    exact ends_pure ⟨by rw [List.length_cons, hwords.1], by omega⟩

/-- Space for the words is reserved only once they are known to be there. -/
theorem safe_decodeAfterLen {len : ℕ} :
    SafeOn (Bitmap.decodeAfterLen len) buf fun bitmap rest =>
      bitmap.words.length * 4 ≤ buf.length ∧ rest.length ≤ buf.length := by
  refine Ends.bind (safe_requireBitmapWords fun hlen => ?_)
  refine Ends.bind (safe_vecWithCapacity hlen ?_)
  refine Ends.bind ((safe_decodeWords hlen).mono fun words rest hwords => ?_)
  refine ends_pure ⟨?_, hwords.2⟩
  rw [hwords.1]
  exact hlen

theorem trailingZeros_lt {word : UInt32} (h : word ≠ 0) : trailingZeros word < 32 := by
  have hne : word.toNat ≠ 0 := fun h0 => h (UInt32.toNat_inj.mp h0)
  obtain ⟨i, hi⟩ := Nat.exists_testBit_of_ne_zero hne
  have hlt : i < 32 := by
    by_contra hge
    have hbound : word.toNat < 2 ^ i :=
      Nat.lt_of_lt_of_le word.toNat_lt (Nat.pow_le_pow_right (by decide) (by omega))
    rw [Nat.testBit_lt_two_pow hbound] at hi
    cases hi
  unfold trailingZeros
  cases hfind : (List.range 32).find? fun i => word.toNat.testBit i with
  | none =>
    have := List.find?_eq_none.mp hfind i (List.mem_range.mpr hlt)
    exact absurd hi this
  | some j => exact List.mem_range.mp (List.mem_of_find?_eq_some hfind)

/-- No number of an attribute of a word overflows while the index of the word is small. -/
theorem isPanic_wordAttrs {wordIndex : UInt32} (hindex : wordIndex.toNat < 2 ^ 27) {fuel : ℕ}
    {word : UInt32} {err : Error} (h : .error err ∈ Bitmap.wordAttrs wordIndex fuel word) :
    err.isPanic = false := by
  induction fuel generalizing word with
  | zero => cases h
  | succ fuel ih =>
    unfold Bitmap.wordAttrs at h
    split at h
    · cases h
    · next hword =>
      rcases List.mem_cons.mp h with hhead | htail
      · have hbit := trailingZeros_lt hword
        rw [Bitmap.attrNumber, if_pos (by omega)] at hhead
        cases hhead
      · exact ih htail

theorem isPanic_attrs {bitmap : Bitmap} (hlen : bitmap.words.length ≤ 2 ^ 27) {err : Error}
    (h : .error err ∈ bitmap.attrs) : err.isPanic = false := by
  obtain ⟨attrs, hattrs, herr⟩ := List.mem_flatten.mp h
  obtain ⟨⟨word, index⟩, hword, rfl⟩ := List.mem_map.mp hattrs
  have hindex : index < bitmap.words.length := by
    have := List.snd_lt_of_mem_zipIdx hword
    omega
  refine isPanic_wordAttrs ?_ herr
  rw [UInt32.toNat_ofNat']
  omega

/-- One attribute takes its bytes from those of the value list that remain. -/
theorem safe_decodeAttr {remaining : ℕ} {attrs : FileAttrs} {attr : UInt32}
    (hbuf : remaining ≤ buf.length) :
    SafeOn (decodeAttr (remaining, attrs) attr) buf fun state rest =>
      state.1 ≤ remaining ∧ rest.length + remaining = buf.length + state.1 := by
  have hconsume : ∀ {needed : ℕ} {post : ℕ → Bytes → Prop},
      (needed ≤ remaining → post (remaining - needed) buf) →
        SafeOn (liftM (consumeAttrBytes remaining attr needed)) buf post := by
    intro needed post h
    unfold consumeAttrBytes
    split
    · exact ends_throw rfl
    · exact ends_pure (h (by omega))
  unfold decodeAttr
  dsimp only
  split
  · refine Ends.bind (hconsume fun hneeded => ?_)
    refine Ends.bind (safe_readU32AfterRequire (by omega) fun raw rest hrest => ?_)
    exact ends_pure ⟨by dsimp only; omega, by dsimp only; omega⟩
  split
  · refine Ends.bind (hconsume fun hneeded => ?_)
    refine Ends.bind (safe_readU64AfterRequire (by omega) fun size rest hrest => ?_)
    exact ends_pure ⟨by dsimp only; omega, by dsimp only; omega⟩
  split
  · refine Ends.bind (hconsume fun hneeded => ?_)
    refine Ends.bind (safe_readU32AfterRequire (by omega) fun mode rest hrest => ?_)
    exact ends_pure ⟨by dsimp only; omega, by dsimp only; omega⟩
  · exact ends_throw rfl

/-- The loop over the attributes: what was taken from the bytes was taken from the value
list. -/
theorem safe_decodeAttrs {items : List (Except Error UInt32)}
    (hitems : ∀ err, .error err ∈ items → err.isPanic = false) {remaining : ℕ} {attrs : FileAttrs}
    (hbuf : remaining ≤ buf.length) :
    SafeOn (items.foldlM decodeNextAttr (remaining, attrs)) buf fun state rest =>
      state.1 ≤ remaining ∧ rest.length + remaining = buf.length + state.1 := by
  induction items generalizing remaining attrs buf with
  | nil => exact ends_pure ⟨Nat.le_refl _, rfl⟩
  | cons item items ih =>
    rw [List.foldlM_cons]
    refine Ends.bind (Ends.bind (ends_lift (fun attr _ => ?_) fun err herr => ?_))
    · refine (safe_decodeAttr hbuf).mono fun (remaining', attrs') rest hstate => ?_
      dsimp only at hstate
      refine (ih (fun err herr => hitems err (List.mem_cons_of_mem _ herr)) (by omega)).mono
        fun state rest' hstate' => ?_
      omega
    · exact hitems err (herr ▸ List.mem_cons_self)

theorem calm_decodeFattrValues {bitmap : Bitmap} (hlen : bitmap.words.length ≤ 2 ^ 27) :
    Calm (decodeFattrValues bitmap) := by
  refine calm_of_safe fun buf hbuf => ?_
  refine Ends.bind ((safe_readOpaqueExtentLen hbuf).mono fun len rest₁ hextent => ?_)
  refine Ends.bind ((safe_decodeAttrs (fun err => isPanic_attrs hlen) (by omega)).mono
    fun (remaining, attrs) rest₂ hstate => ?_)
  dsimp only at hstate ⊢
  -- what remains of the value list is at most its length
  rw [usizeSub, if_neg (by omega)]
  refine Ends.bind (ends_pure ?_)
  refine Ends.bind (safe_finishOpaqueAfterRequire (by omega) fun rest₃ hrest₃ => ?_)
  exact ends_pure (by omega)

theorem isPanic_requireAttrLen {actual needed : ℕ} {err : Error}
    (h : requireAttrLen actual needed = .error err) : err.isPanic = false := by
  unfold requireAttrLen at h
  split at h
  · cases h
    rfl
  · cases h

theorem le_of_requireAttrLen {actual needed : ℕ} (h : requireAttrLen actual needed = .ok ()) :
    needed ≤ actual := by
  unfold requireAttrLen at h
  split at h
  · cases h
  · omega

theorem calm_decodeSizeAttr : Calm decodeSizeAttr := by
  refine calm_of_safe fun buf hbuf => ?_
  refine Ends.bind ((safe_readOpaqueExtentLen hbuf).mono fun len rest₁ hextent => ?_)
  refine Ends.bind (ends_lift (fun _ hneeded => ?_) fun _ herr => isPanic_requireAttrLen herr)
  have hlen := le_of_requireAttrLen hneeded
  refine Ends.bind (safe_readU64AfterRequire (by omega) fun size rest₂ hrest₂ => ?_)
  dsimp only
  split
  · refine Ends.bind (safe_finishOpaqueAfterRequire (by omega) fun rest₃ hrest₃ => ?_)
    exact ends_pure (by omega)
  · exact ends_pure (by omega)

theorem calm_decodeTypeAndSizeAttrs : Calm decodeTypeAndSizeAttrs := by
  refine calm_of_safe fun buf hbuf => ?_
  refine Ends.bind ((safe_readOpaqueExtentLen hbuf).mono fun len rest₁ hextent => ?_)
  refine Ends.bind (ends_lift (fun _ hneeded => ?_) fun _ herr => isPanic_requireAttrLen herr)
  have hlen := le_of_requireAttrLen hneeded
  refine Ends.bind (safe_readU32AfterRequire (by omega) fun fileType rest₂ hrest₂ => ?_)
  refine Ends.bind (safe_readU64AfterRequire (by omega) fun size rest₃ hrest₃ => ?_)
  dsimp only
  split
  · refine Ends.bind (safe_finishOpaqueAfterRequire (by omega) fun rest₄ hrest₄ => ?_)
    exact ends_pure (by omega)
  · exact ends_pure (by omega)

theorem calm_decodeFattr : Calm decodeFattr := by
  refine calm_readU32.bind fun bitmapLen => ?_
  dsimp only
  split
  · refine calm_readU32.bind fun bitmapWord => ?_
    unfold decodeFattrSingleBitmapWord
    split
    · exact calm_decodeSizeAttr
    split
    · exact calm_decodeTypeAndSizeAttrs
    · exact calm_decodeFattrValues (Nat.one_le_two_pow)
  · refine calm_of_safe fun buf hbuf => ?_
    refine Ends.bind (safe_decodeAfterLen.mono fun bitmap rest₁ hbitmap => ?_)
    have hmax : MAX_DECODED_LEN = 2 ^ 29 := rfl
    refine (calm_decodeFattrValues (by omega)).safe (by omega) fun _ rest₂ hrest₂ => ?_
    omega

theorem calm_skipFattr : Calm skipFattr := calm_skipBitmap.bind fun _ => calm_skipOpaque

/-! ### Directory pages -/

/-- Each round takes at least the word that announces an entry, so the fuel is enough. -/
theorem safe_decodeReaddirEntries (entryLimit : Option ℕ) (verifier : Verifier) {fuel : ℕ}
    {entries : List DirEntry} {lastCookie : UInt64} (hbuf : buf.length < MAX_DECODED_LEN)
    (hfuel : buf.length < fuel) :
    SafeOn (decodeReaddirEntries entryLimit verifier fuel entries lastCookie) buf
      fun _ rest => rest.length ≤ buf.length := by
  induction fuel generalizing entries lastCookie buf with
  | zero => cases hfuel
  | succ fuel ih =>
    refine Ends.bind (safe_readBool.mono fun hasEntry rest₁ hrest₁ => ?_)
    dsimp only
    split
    · refine Ends.bind (safe_readBool.mono fun eof rest₂ hrest₂ => ?_)
      exact ends_pure (by omega)
    split
    · exact ends_pure (by omega)
    · refine Ends.bind (calm_readU64.safe (by omega) fun cookie rest₂ hrest₂ => ?_)
      refine Ends.bind ((calm_readStringUnless _).safe (by omega) fun name rest₃ hrest₃ => ?_)
      refine Ends.bind (calm_skipFattr.safe (by omega) fun _ rest₄ hrest₄ => ?_)
      exact (ih (by omega) (by omega)).mono fun _ rest₅ hrest₅ => by omega

theorem calm_decodeReaddir (maxEntries : Option ℕ) : Calm (decodeReaddir maxEntries) := by
  refine calm_of_safe fun buf hbuf => ?_
  refine Ends.bind ((calm_readBytes 8).safe hbuf fun verifier rest₁ hrest₁ => ?_)
  refine Ends.bind (ends_get ?_)
  refine Ends.bind (safe_vecWithCapacity (readdirEntriesCapacity_le _ maxEntries) ?_)
  exact (safe_decodeReaddirEntries maxEntries verifier (by omega) (Nat.lt_succ_self _)).mono
    fun _ rest₂ hrest₂ => by omega

/-! ### Session setup and the headers of a reply -/

theorem calm_decodeSequence (expectedSessionid : Vector UInt8 16)
    (expectedSequenceid expectedSlotid : UInt32) :
    Calm (decodeSequence expectedSessionid expectedSequenceid expectedSlotid) := by
  refine calm_readU32SkipOpaqueAndReadU32.bind fun (compoundStatus, replyCount) => ?_
  dsimp only
  split
  · split
    · exact calm_throw rfl
    · exact calm_throw rfl
  refine calm_readU32Pair.bind fun (op, statusRaw) => ?_
  dsimp only
  split
  · split
    · exact calm_throw rfl
    · exact calm_throw rfl
  split
  · exact calm_throw rfl
  refine (calm_readBytes 16).bind fun sessionid => calm_readU32.bind fun sequenceid => ?_
  refine calm_readU32.bind fun slotid => calm_readU32.bind fun highestSlotid => ?_
  refine calm_readU32.bind fun targetHighestSlotid => calm_readU32.bind fun statusFlags => ?_
  repeat' split
  · exact calm_throw rfl
  · exact calm_throw rfl
  · exact calm_throw rfl
  · exact calm_pure _

theorem calm_nonzeroChannelLimit (value : UInt32) (field : String) :
    Calm (liftM (nonzeroChannelLimit value field)) := by
  refine calm_lift fun err herr => ?_
  unfold nonzeroChannelLimit at herr
  split at herr
  · cases herr
    rfl
  · cases herr

theorem calm_decodeChannelAttrs : Calm decodeChannelAttrs := by
  refine calm_readU32.bind fun _ => ?_
  refine calm_readU32.bind fun _ => (calm_nonzeroChannelLimit _ _).bind fun _ => ?_
  refine calm_readU32.bind fun _ => (calm_nonzeroChannelLimit _ _).bind fun _ => ?_
  refine calm_readU32.bind fun _ => ?_
  refine calm_readU32.bind fun _ => (calm_nonzeroChannelLimit _ _).bind fun _ => ?_
  refine calm_readU32.bind fun _ => (calm_nonzeroChannelLimit _ _).bind fun _ => ?_
  refine calm_readU32.bind fun rdmaIrdLen => calm_of_safe fun buf hbuf => ?_
  refine Ends.bind (ends_get ?_)
  dsimp only
  split
  · exact ends_throw rfl
  · have hlen : rdmaIrdLen.toNat * 4 ≤ buf.length := by omega
    have hmax : MAX_DECODED_LEN = 2 ^ 29 := rfl
    rw [usizeMul, if_pos (by omega)]
    refine Ends.bind (ends_pure ?_)
    refine Ends.bind (safe_skipBytesAfterRequire hlen fun rest hrest => ?_)
    exact ends_pure (by omega)

theorem calm_decodeStateProtect : Calm decodeStateProtect := by
  refine calm_readU32.bind fun mode => ?_
  split
  · exact calm_pure ()
  · repeat' split
    all_goals exact calm_throw rfl

theorem calm_skipImplIds (len : ℕ) : Calm (skipImplIds len) := by
  induction len with
  | zero => exact calm_pure ()
  | succ len ih =>
    exact calm_skipOpaque.bind fun _ => calm_skipOpaque.bind fun _ =>
      (calm_skipBytes _).bind fun _ => ih

theorem calm_skipImplIdArray : Calm skipImplIdArray := by
  refine calm_readU32.bind fun len => calm_of_safe fun buf hbuf => ?_
  refine Ends.bind (ends_get ?_)
  dsimp only
  split
  · exact ends_throw rfl
  · exact (calm_skipImplIds _).safe hbuf fun _ _ hrest => hrest

theorem calm_decodeExchangeId : Calm decodeExchangeId := by
  refine calm_readU64.bind fun _ => calm_readU32.bind fun _ => calm_readU32.bind fun _ => ?_
  refine calm_decodeStateProtect.bind fun _ => calm_readU64.bind fun _ => ?_
  refine calm_skipOpaque.bind fun _ => calm_skipOpaque.bind fun _ => ?_
  exact calm_skipImplIdArray.bind fun _ => calm_pure _

theorem isPanic_validateForeChannelMinimums {attrs : ChannelAttrs} {minimumRequestSize : ℕ}
    {err : Error} (h : validateForeChannelMinimums attrs minimumRequestSize = .error err) :
    err.isPanic = false := by
  unfold validateForeChannelMinimums at h
  dsimp only at h
  repeat' split at h
  all_goals cases h
  all_goals rfl

theorem calm_decodeCreateSession (expectedSequenceid : UInt32) (minimumRequestSize : ℕ) :
    Calm (decodeCreateSession expectedSequenceid minimumRequestSize) := by
  refine (calm_readBytes 16).bind fun _ => calm_readU32.bind fun sequenceid => ?_
  dsimp only
  split
  · exact calm_throw rfl
  refine calm_readU32.bind fun _ => calm_decodeChannelAttrs.bind fun _ => ?_
  refine (calm_lift fun _ herr => isPanic_validateForeChannelMinimums herr).bind fun _ => ?_
  exact calm_decodeChannelAttrs.bind fun _ => calm_pure _

theorem calm_decodeReplyFrom (expectedXid : UInt32) : Calm (Rpc.decodeReplyFrom expectedXid) := by
  refine calm_readU32Triple.bind fun (xid, messageType, replyStat) => ?_
  dsimp only
  split
  · exact calm_throw rfl
  split
  · exact calm_throw rfl
  split
  · refine calm_readU32SkipOpaqueAndReadU32.bind fun (_, acceptStat) => ?_
    dsimp only
    split
    · exact calm_of_safe fun buf _ => ends_get (Nat.le_refl _)
    split
    · exact calm_throw rfl
    split
    · exact calm_readU32Pair.bind fun _ => calm_throw rfl
    · repeat' split
      all_goals exact calm_throw rfl
  · split
    · exact calm_throw rfl
    · exact calm_throw rfl

end

end NfsCrust
