import NfsCrust.Reply
import NfsCrust.Xdr.Items

/-!
# Three decoders of attributes

`decode_fattr` reads the attributes of a reply.  Bitmaps of one word that ask for the size,
or for the type and the size, have fast paths of their own; all other bitmaps go through a
loop over their attributes; and the entries of a directory page skip the whole structure.
The three use different checks and different rules for what is left of the value.

## Main definitions

* `AgreeUpToMessage` — the same outcome, up to the message of an XDR error.
* `decodeFattrGeneric` — `decode_fattr` without its fast paths.

## Main results

* `decodeFattr_paths_agree` — the fast paths agree with the loop, and where attributes can be
  decoded, skipping them ends at the same place.
-/

namespace NfsCrust

open BigEndian StateExcept

variable {α β : Type}

/-! ### Agreement -/

/-- The same outcome, up to the message of an XDR error. -/
inductive AgreeUpToMessage : Except Error α → Except Error α → Prop
  | same (x : Except Error α) : AgreeUpToMessage x x
  | xdr (message message' : String) :
      AgreeUpToMessage (.error (.xdr message)) (.error (.xdr message'))

theorem AgreeUpToMessage.ok_iff {x y : Except Error α} (h : AgreeUpToMessage x y) (a : α) :
    x = .ok a ↔ y = .ok a := by
  cases h with
  | same => exact Iff.rfl
  | xdr message message' =>
    constructor
    · intro hx
      cases hx
    · intro hy
      cases hy

/-- Decoders that start alike agree when their ends do. -/
theorem agree_bind {m : XdrM α} {f g : α → XdrM β} {buf : Bytes}
    (h : ∀ a rest, m.run buf = .ok (a, rest) →
      AgreeUpToMessage ((f a).run rest) ((g a).run rest)) :
    AgreeUpToMessage ((m >>= f).run buf) ((m >>= g).run buf) := by
  cases hm : m.run buf with
  | ok r =>
    obtain ⟨a, rest⟩ := r
    rw [run_bind_ok hm, run_bind_ok hm]
    exact h a rest hm
  | error err =>
    rw [run_bind_error hm, run_bind_error hm]
    exact .same _

/-! ### The fast paths -/

/-- A value that has been read whole and needs no padding is at its end already. -/
theorem run_finish_unless_done {len needed : ℕ} (hlen : needed ≤ len)
    (hpad : xdrPadding needed = 0) (a : α) (buf : Bytes) :
    (if len > needed then do finishOpaqueAfterRequire len needed; return a
      else return a : XdrM α).run buf
      = (do finishOpaqueAfterRequire len needed; return a : XdrM α).run buf := by
  split
  · rfl
  · next hle =>
    obtain rfl : len = needed := by omega
    have hremaining : opaqueRemainingLen len len = .ok 0 := by
      rw [opaqueRemainingLen, if_neg (Nat.lt_irrefl len), hpad, Nat.sub_self]
      rfl
    have hdone : (finishOpaqueAfterRequire len len).run buf = .ok ((), buf) := by
      rw [finishOpaqueAfterRequire, run_lift_bind _ hremaining,
        run_skipBytesAfterRequire (Nat.zero_le _)]
      rfl
    rw [run_bind_ok hdone]

theorem usizeSub_sub {len needed : ℕ} (h : needed ≤ len) :
    usizeSub len (len - needed) = .ok needed := by
  rw [usizeSub, if_neg (by omega)]
  congr 1
  omega

theorem decodeAttr_type (remaining : ℕ) (attrs : FileAttrs) :
    decodeAttr (remaining, attrs) FATTR4_TYPE = do
      let remaining ← consumeAttrBytes remaining FATTR4_TYPE 4
      let raw ← readU32AfterRequire
      return (remaining, { attrs with fileType := some (.fromRaw raw) }) := by
  rw [decodeAttr, if_pos rfl]

theorem decodeAttr_size (remaining : ℕ) (attrs : FileAttrs) :
    decodeAttr (remaining, attrs) FATTR4_SIZE = do
      let remaining ← consumeAttrBytes remaining FATTR4_SIZE 8
      let size ← readU64AfterRequire
      return (remaining, { attrs with size := some size }) := by
  rw [decodeAttr, if_neg (by decide), if_pos rfl]

theorem foldlM_decodeNextAttr_single (state : ℕ × FileAttrs) (attr : UInt32) :
    List.foldlM decodeNextAttr state [.ok attr] = decodeAttr state attr := by
  rw [List.foldlM_cons]
  exact bind_pure _

theorem consumeAttrBytes_of_le {remaining needed : ℕ} (h : needed ≤ remaining) (attr : UInt32) :
    consumeAttrBytes remaining attr needed = .ok (remaining - needed) :=
  if_neg (by omega)

theorem requireAttrLen_of_le {actual needed : ℕ} (h : needed ≤ actual) :
    requireAttrLen actual needed = .ok () :=
  if_neg (by omega)

theorem exists_run_readU32AfterRequire {buf : Bytes} (h : 4 ≤ buf.length) :
    ∃ x rest, readU32AfterRequire.run buf = .ok (x, rest) := by
  match buf, h with
  | _ :: _ :: _ :: _ :: rest, _ => exact ⟨_, rest, rfl⟩

theorem agree_decodeSizeAttr (buf : Bytes) :
    AgreeUpToMessage (decodeSizeAttr.run buf)
      ((decodeFattrValues ⟨[1 <<< FATTR4_SIZE]⟩).run buf) := by
  have hattrs : (⟨[1 <<< FATTR4_SIZE]⟩ : Bitmap).attrs = [.ok FATTR4_SIZE] := by decide +kernel
  unfold decodeSizeAttr decodeFattrValues
  apply agree_bind
  intro len mid _
  rw [hattrs, foldlM_decodeNextAttr_single, decodeAttr_size]
  by_cases hlen : len < 8
  · -- both refuse a value that is too short, in different words
    rw [requireAttrLen, if_pos hlen, consumeAttrBytes, if_pos hlen]
    exact .xdr _ _
  · rw [requireAttrLen_of_le (by omega), consumeAttrBytes_of_le (by omega), bind_assoc,
      run_lift_bind _ rfl, run_lift_bind _ rfl, bind_assoc]
    apply agree_bind
    intro size rest _
    dsimp only
    rw [pure_bind]
    dsimp only
    rw [usizeSub_sub (by omega), run_lift_bind _ rfl, run_finish_unless_done (by omega) rfl]
    exact .same _

theorem agree_decodeTypeAndSizeAttrs (buf : Bytes) :
    AgreeUpToMessage (decodeTypeAndSizeAttrs.run buf)
      ((decodeFattrValues ⟨[(1 <<< FATTR4_TYPE) ||| (1 <<< FATTR4_SIZE)]⟩).run buf) := by
  have hattrs : (⟨[(1 <<< FATTR4_TYPE) ||| (1 <<< FATTR4_SIZE)]⟩ : Bitmap).attrs
      = [.ok FATTR4_TYPE, .ok FATTR4_SIZE] := by decide +kernel
  have hfold : ∀ len, List.foldlM decodeNextAttr (len, ({} : FileAttrs))
      [.ok FATTR4_TYPE, .ok FATTR4_SIZE]
      = decodeAttr (len, {}) FATTR4_TYPE >>= fun state => decodeAttr state FATTR4_SIZE := by
    intro len
    rw [List.foldlM_cons]
    exact bind_congr fun state => foldlM_decodeNextAttr_single state _
  unfold decodeTypeAndSizeAttrs decodeFattrValues
  apply agree_bind
  intro len mid hextent
  obtain ⟨_, _, _, henough⟩ := run_readOpaqueExtentLen.mp hextent
  rw [hattrs, hfold, decodeAttr_type]
  simp only [decodeAttr_size, bind_assoc, pure_bind]
  by_cases hlen : len < 12
  · rw [requireAttrLen, if_pos hlen]
    by_cases hshort : len < 4
    · rw [consumeAttrBytes, if_pos hshort]
      exact .xdr _ _
    · -- the loop reads the type before it finds the value too short for the size
      obtain ⟨raw, rest, hraw⟩ := exists_run_readU32AfterRequire (show 4 ≤ mid.length by omega)
      rw [consumeAttrBytes_of_le (by omega), run_lift_bind _ rfl, run_bind_ok hraw,
        consumeAttrBytes, if_pos (by omega)]
      exact .xdr _ _
  · rw [requireAttrLen_of_le (by omega), consumeAttrBytes_of_le (by omega),
      run_lift_bind _ rfl, run_lift_bind _ rfl]
    apply agree_bind
    intro raw rest _
    rw [consumeAttrBytes_of_le (by omega), run_lift_bind _ rfl]
    apply agree_bind
    intro size rest' _
    rw [Nat.sub_sub, usizeSub_sub (by omega), run_lift_bind _ rfl,
      run_finish_unless_done (by omega) rfl]
    exact .same _

/-- The fast paths of a one-word bitmap agree with the loop. -/
theorem agree_decodeFattrSingleBitmapWord (word : UInt32) (buf : Bytes) :
    AgreeUpToMessage ((decodeFattrSingleBitmapWord word).run buf)
      ((decodeFattrValues ⟨[word]⟩).run buf) := by
  unfold decodeFattrSingleBitmapWord
  split
  · next h =>
    subst h
    exact agree_decodeSizeAttr buf
  · split
    · next h =>
      subst h
      exact agree_decodeTypeAndSizeAttrs buf
    · exact .same _

/-! ### Every bitmap through the loop -/

/-- `decode_fattr` without its fast paths. -/
def decodeFattrGeneric : XdrM FileAttrs := do
  let bitmap ← Bitmap.decodeAfterLen (← readU32).toNat
  decodeFattrValues bitmap

theorem exists_run_requireBitmapWords {len : ℕ} {buf : Bytes} (h : buf.length < len * 4)
    (hlen : len < 2 ^ 32) :
    ∃ message, (requireBitmapWords len).run buf = .error (.xdr message) := by
  rw [requireBitmapWords, if_neg (by omega)]
  dsimp only
  rw [run_get_bind, if_pos h]
  exact ⟨_, rfl⟩

theorem exists_run_require {len : ℕ} {buf : Bytes} (h : buf.length < len) :
    ∃ message, (require len).run buf = .error (.xdr message) := by
  rw [require, run_get_bind]
  dsimp only
  rw [if_pos h]
  exact ⟨_, rfl⟩

/-- The bitmap of one word, read as the fast path reads it. -/
theorem agree_decodeAfterLen_one {f : UInt32 → XdrM α} {g : Bitmap → XdrM α}
    (h : ∀ word rest, AgreeUpToMessage ((f word).run rest) ((g ⟨[word]⟩).run rest)) (buf : Bytes) :
    AgreeUpToMessage ((readU32 >>= f).run buf) ((Bitmap.decodeAfterLen 1 >>= g).run buf) := by
  by_cases hlen : 4 ≤ buf.length
  · obtain ⟨word, rest, hword⟩ := exists_run_readU32AfterRequire hlen
    have hread : readU32.run buf = .ok (word, rest) := by
      rw [readU32, run_bind_ok (run_require hlen), hword]
    have hwords : (Bitmap.decodeAfterLen 1).run buf = .ok (⟨[word]⟩, rest) := by
      rw [Bitmap.decodeAfterLen, run_bind_ok (run_requireBitmapWords (by omega) (by decide)),
        run_bind_ok (run_vecWithCapacity (by omega)), Bitmap.decodeWords, bind_assoc,
        run_bind_ok hword]
      rfl
    rw [run_bind_ok hread, run_bind_ok hwords]
    exact h word rest
  · obtain ⟨message, hread⟩ := exists_run_require (show buf.length < 4 by omega)
    obtain ⟨message', hwords⟩ := exists_run_requireBitmapWords (show buf.length < 1 * 4 by omega)
      (by decide)
    rw [run_bind_error (m := readU32) (run_bind_error hread),
      run_bind_error (m := Bitmap.decodeAfterLen 1) (run_bind_error hwords)]
    exact .xdr _ _

/-- **The fast paths of `decode_fattr` are those of its loop.** -/
theorem agree_decodeFattr (buf : Bytes) :
    AgreeUpToMessage (decodeFattr.run buf) (decodeFattrGeneric.run buf) := by
  unfold decodeFattr decodeFattrGeneric
  apply agree_bind
  intro len rest _
  dsimp only
  split
  · next hone =>
    rw [hone]
    exact agree_decodeAfterLen_one agree_decodeFattrSingleBitmapWord rest
  · exact .same _

/-! ### Skipping -/

theorem run_decodeWords {n : ℕ} {buf rest : Bytes} {words : List UInt32}
    (h : (Bitmap.decodeWords n).run buf = .ok (words, rest)) :
    n * 4 ≤ buf.length ∧ rest = buf.drop (n * 4) := by
  induction n generalizing buf words with
  | zero =>
    cases h
    exact ⟨by omega, by simp⟩
  | succ n ih =>
    obtain ⟨word, left, hword, htail⟩ := exists_of_run_bind h
    obtain ⟨words', left', hwords, hrest⟩ := exists_of_run_bind htail
    cases hrest
    obtain ⟨_, rfl, rfl⟩ := (accepts_readU32AfterRequire buf word left).mp hword
    obtain ⟨hlen, rfl⟩ := ih hwords
    have hfour : (putU32 word).length = 4 := length_be32 word
    have hdrop : (putU32 word).drop ((n + 1) * 4) = [] := List.drop_eq_nil_of_le (by omega)
    have hsub : (n + 1) * 4 - 4 = n * 4 := by omega
    refine ⟨by rw [List.length_append, hfour]; omega, ?_⟩
    rw [List.drop_append, hdrop, List.nil_append, hfour, hsub]

/-- Skipping a bitmap ends where reading it does. -/
theorem run_skipBitmapAfterLen {len : ℕ} {buf rest : Bytes} {bitmap : Bitmap}
    (hlen : len < 2 ^ 32) (h : (Bitmap.decodeAfterLen len).run buf = .ok (bitmap, rest)) :
    (skipBitmapAfterLen len).run buf = .ok ((), rest) := by
  by_cases henough : len * 4 ≤ buf.length
  · have hrequire := run_requireBitmapWords henough (by omega)
    rw [Bitmap.decodeAfterLen, run_bind_ok hrequire,
      run_bind_ok (run_vecWithCapacity henough)] at h
    obtain ⟨words, left, hwords, hleft⟩ := exists_of_run_bind h
    cases hleft
    obtain ⟨_, rfl⟩ := run_decodeWords hwords
    rw [skipBitmapAfterLen, run_bind_ok hrequire, run_skipBytesAfterRequire henough]
  · obtain ⟨message, hrequire⟩ := exists_run_requireBitmapWords
      (show buf.length < len * 4 by omega) (by omega)
    rw [Bitmap.decodeAfterLen, run_bind_error hrequire] at h
    cases h

/-- A reader of words of one length takes that many bytes. -/
theorem drop_of_accepts {m : XdrM α} {enc : α → Bytes} {n : ℕ}
    (hm : Accepts m fun a word => word = enc a) (hlen : ∀ a, (enc a).length = n)
    {buf rest : Bytes} {a : α} (h : m.run buf = .ok (a, rest)) :
    n ≤ buf.length ∧ rest = buf.drop n := by
  obtain ⟨_, rfl, rfl⟩ := (hm buf a rest).mp h
  constructor
  · rw [List.length_append, hlen]
    omega
  · exact (List.drop_left' (hlen a)).symm

/-- The bytes of a value come out of those that remain. -/
def TakesFrom (before after : ℕ) (buf rest : Bytes) : Prop :=
  after ≤ before ∧ before - after ≤ buf.length ∧ rest = buf.drop (before - after)

theorem takesFrom_of_run {m : XdrM α} {g : ℕ → α → ℕ × FileAttrs} {remaining needed : ℕ}
    {attr : UInt32} {state : ℕ × FileAttrs} {buf rest : Bytes} (hg : ∀ r a, (g r a).1 = r)
    (hm : ∀ a, m.run buf = .ok (a, rest) → needed ≤ buf.length ∧ rest = buf.drop needed)
    (h : (do
      let remaining ← consumeAttrBytes remaining attr needed
      let a ← m
      return g remaining a : XdrM (ℕ × FileAttrs)).run buf = .ok (state, rest)) :
    TakesFrom remaining state.1 buf rest := by
  by_cases hlt : remaining < needed
  · rw [consumeAttrBytes, if_pos hlt] at h
    cases h
  · rw [consumeAttrBytes_of_le (by omega), run_lift_bind _ rfl] at h
    obtain ⟨a, left, ha, hpure⟩ := exists_of_run_bind h
    cases hpure
    obtain ⟨hlen, hrest⟩ := hm a ha
    have hsub : remaining - (remaining - needed) = needed := by omega
    rw [TakesFrom, hg, hsub]
    exact ⟨by omega, hlen, hrest⟩

theorem takesFrom_decodeAttr {state state' : ℕ × FileAttrs} {attr : UInt32} {buf rest : Bytes}
    (h : (decodeAttr state attr).run buf = .ok (state', rest)) :
    TakesFrom state.1 state'.1 buf rest := by
  obtain ⟨remaining, attrs⟩ := state
  have hword : ∀ a, readU32AfterRequire.run buf = .ok (a, rest) →
      4 ≤ buf.length ∧ rest = buf.drop 4 := by
    intro a ha
    exact drop_of_accepts accepts_readU32AfterRequire length_be32 ha
  have hlong : ∀ a, readU64AfterRequire.run buf = .ok (a, rest) →
      8 ≤ buf.length ∧ rest = buf.drop 8 := by
    intro a ha
    exact drop_of_accepts accepts_readU64AfterRequire length_be64 ha
  unfold decodeAttr at h
  dsimp only at h
  split at h
  · exact takesFrom_of_run (fun _ _ => rfl) hword h
  · split at h
    · exact takesFrom_of_run (fun _ _ => rfl) hlong h
    · split at h
      · exact takesFrom_of_run (fun _ _ => rfl) hword h
      · cases h

/-- The values of all attributes, one after the other. -/
theorem takesFrom_foldlM {next : List (Except Error UInt32)} {state state' : ℕ × FileAttrs}
    {buf rest : Bytes} (h : (next.foldlM decodeNextAttr state).run buf = .ok (state', rest)) :
    TakesFrom state.1 state'.1 buf rest := by
  induction next generalizing state buf with
  | nil =>
    cases h
    exact ⟨Nat.le_refl _, by omega, by simp⟩
  | cons attr next ih =>
    rw [List.foldlM_cons] at h
    obtain ⟨mid, left, hfirst, htail⟩ := exists_of_run_bind h
    cases attr with
    | error err => cases hfirst
    | ok attr =>
      obtain ⟨hle, hlen, rfl⟩ := takesFrom_decodeAttr (show (decodeAttr _ attr).run buf = _ from hfirst)
      obtain ⟨hle', hlen', rfl⟩ := ih htail
      rw [List.length_drop] at hlen'
      refine ⟨by omega, by omega, ?_⟩
      rw [List.drop_drop]
      congr 1
      omega

/-- Where the values end, the opaque value they are in ends. -/
theorem run_skipOpaque_of_values {bitmap : Bitmap} {buf rest : Bytes} {attrs : FileAttrs}
    (h : (decodeFattrValues bitmap).run buf = .ok (attrs, rest)) :
    skipOpaque.run buf = .ok ((), rest) := by
  obtain ⟨len, mid, hextent, hvalues⟩ := exists_of_run_bind h
  obtain ⟨⟨remaining, attrs'⟩, left, hfold, hend⟩ := exists_of_run_bind hvalues
  obtain ⟨word, rfl, _, henough⟩ := run_readOpaqueExtentLen.mp hextent
  obtain ⟨hle, hlen, rfl⟩ := takesFrom_foldlM hfold
  dsimp only at hle hlen hend
  have hconsumed : mid.length - (mid.drop (word.toNat - remaining)).length
      = word.toNat - remaining := by
    rw [List.length_drop]
    omega
  have hfinish := run_finishOpaqueAfterRequire word.toNat_lt henough
    (List.drop_suffix (word.toNat - remaining) mid) (by omega)
  rw [hconsumed] at hfinish
  have hsub : usizeSub word.toNat remaining = .ok (word.toNat - remaining) :=
    if_neg (by omega)
  rw [run_lift_bind _ hsub, run_bind_ok hfinish] at hend
  cases hend
  exact run_skipOpaque_iff.mpr ⟨_, run_readOpaque_of_extent hextent⟩

/-- **Where attributes can be decoded, skipping them ends at the same place.** -/
theorem run_skipFattr_of_decodeFattr {buf rest : Bytes} {attrs : FileAttrs}
    (h : decodeFattr.run buf = .ok (attrs, rest)) : skipFattr.run buf = .ok ((), rest) := by
  rw [(agree_decodeFattr buf).ok_iff] at h
  obtain ⟨len, left, hlen, htail⟩ := exists_of_run_bind h
  obtain ⟨bitmap, left', hbitmap, hvalues⟩ := exists_of_run_bind htail
  have hskip : skipBitmap.run buf = .ok ((), left') := by
    rw [skipBitmap, run_bind_ok hlen]
    exact run_skipBitmapAfterLen len.toNat_lt hbitmap
  rw [skipFattr, run_bind_ok hskip]
  exact run_skipOpaque_of_values hvalues

/-- **The three decoders agree.**  On every byte string the fast paths of a one-word bitmap
have the outcome of the loop over the same bitmap, up to the message of an XDR error, and so
has `decode_fattr` as a whole; and whenever it succeeds, skipping the same attributes
succeeds and ends at the same position. -/
theorem decodeFattr_paths_agree (buf : Bytes) :
    (∀ word, word = 1 <<< FATTR4_SIZE ∨ word = (1 <<< FATTR4_TYPE) ||| (1 <<< FATTR4_SIZE) →
      AgreeUpToMessage ((decodeFattrSingleBitmapWord word).run buf)
        ((decodeFattrValues ⟨[word]⟩).run buf)) ∧
    AgreeUpToMessage (decodeFattr.run buf) (decodeFattrGeneric.run buf) ∧
    (∀ attrs rest, decodeFattr.run buf = .ok (attrs, rest) →
      skipFattr.run buf = .ok ((), rest)) := by
  refine ⟨?_, agree_decodeFattr buf, ?_⟩
  · intro word _
    exact agree_decodeFattrSingleBitmapWord word buf
  · intro attrs rest h
    exact run_skipFattr_of_decodeFattr h

end NfsCrust
