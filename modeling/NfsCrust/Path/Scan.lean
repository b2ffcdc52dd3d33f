import NfsCrust.Path
import NfsCrust.Xdr
import NfsCrust.Lib.Utf8

/-!
# Scanning a path byte by byte

`parse_components` of `src/path.rs` as the source has it: two loops over the bytes find the
ends of the path, a third finds the slashes between them, and each component is a slice of
the string, which panics when an end of it is inside a character.  `NfsPath.parseComponents`
says the same on characters; here the two are shown to agree on every string.

## Main definitions

* `NfsPath.strSlice` — `&path[start..end]`, with its panic.
* `NfsPath.scanComponents` — the three loops.

## Main results

* `NfsPath.strSlice_eq_ok` — a slice between characters.
* `NfsPath.scanComponents_eq` — the scan gives what the characters give.
-/

namespace NfsCrust.NfsPath

/-! ### The loops of the source -/

/-- `str::is_char_boundary`. -/
def isCharBoundary (bytes : Bytes) (index : ℕ) : Bool :=
  index == 0 || index == bytes.length ||
    bytes[index]?.any fun byte => byte.toNat < 128 || 192 ≤ byte.toNat

/-- `&path[start..end]`, which panics when an end is inside a character. -/
def strSlice (path : String) (start stop : ℕ) : Except Error String :=
  let bytes := utf8 path
  if start ≤ stop && isCharBoundary bytes start && isCharBoundary bytes stop then
    match fromUtf8? ((bytes.drop start).take (stop - start)) with
    | some text => .ok text
    | none => .error (.panic "string slice is not UTF-8")
  else .error (.panic "byte index is not a char boundary")

def SLASH : UInt8 := 47

/-- The first loop: past the slashes at the start. -/
def trimStart (bytes : Bytes) (start : ℕ) : ℕ :=
  if start < bytes.length && bytes[start]? = some SLASH then trimStart bytes (start + 1)
  else start
termination_by bytes.length - start
decreasing_by simp_all; omega

/-- The second loop: back over the slashes at the end. -/
def trimEnd (bytes : Bytes) (start : ℕ) : ℕ → ℕ
  | 0 => 0
  | stop + 1 =>
    if stop + 1 > start && bytes[stop]? = some SLASH then trimEnd bytes start stop else stop + 1

def pushSlice (path : String) (start stop : ℕ) (components : List String) :
    Except Error (List String) := do
  let component ← strSlice path start stop
  if component = "." ∨ component = ".." then
    throw (.invalidPath s!"reserved path component {component.quote} is not valid in paths")
  return components ++ [component]

/-- The third loop, over the bytes from `index` on.  It ends with the start of the last
component and the components before it. -/
def scanBytes (path : String) : (index componentStart : ℕ) → List String → Bytes →
    Except Error (ℕ × List String)
  | _, componentStart, components, [] => .ok (componentStart, components)
  | index, componentStart, components, byte :: bytes =>
    if byte = 0 then .error (.invalidPath "NUL bytes are not valid in paths")
    else if byte = SLASH then
      if index = componentStart then
        .error (.invalidPath "empty path components are not valid paths")
      else do
        let components ← pushSlice path componentStart index components
        scanBytes path (index + 1) (index + 1) components bytes
    else scanBytes path (index + 1) componentStart components bytes

def scanComponents (value : String) : Except Error NfsPath := do
  let bytes := utf8 value
  let start := trimStart bytes 0
  let stop := trimEnd bytes start bytes.length
  if start = stop then return ⟨[]⟩
  let (componentStart, components) ←
    scanBytes value start start [] ((bytes.take stop).drop start)
  let components ← pushSlice value componentStart stop components
  return ⟨components⟩

/-! ### Bytes of characters -/

/-- The bytes of some characters. -/
def encode (cs : List Char) : Bytes := cs.flatMap String.utf8EncodeChar

theorem utf8_eq_encode (s : String) : utf8 s = encode s.toList := Utf8.toList_toUTF8 s

theorem encode_append (cs ds : List Char) : encode (cs ++ ds) = encode cs ++ encode ds :=
  List.flatMap_append

theorem fromUtf8?_encode (cs : List Char) : fromUtf8? (encode cs) = some (String.ofList cs) := by
  have h : utf8 (String.ofList cs) = encode cs := by rw [utf8_eq_encode, String.toList_ofList]
  exact Utf8.fromUTF8?_eq_some_iff.mpr h

theorem encode_eq_nil_iff {cs : List Char} : encode cs = [] ↔ cs = [] := by
  cases cs with
  | nil => simp [encode]
  | cons c cs =>
    obtain ⟨b, bs, hc, _⟩ := Utf8.head_encode c
    simp [encode, hc]

/-- Between two characters is a boundary. -/
theorem isCharBoundary_encode (before after : List Char) :
    isCharBoundary (encode (before ++ after)) (encode before).length = true := by
  unfold isCharBoundary
  rw [encode_append]
  cases after with
  | nil => simp [encode]
  | cons c after =>
    obtain ⟨b, bs, hc, hb⟩ := Utf8.head_encode c
    have hcons : encode (c :: after) = b :: (bs ++ encode after) := by
      simp [encode, hc]
    have hget : (encode before ++ encode (c :: after))[(encode before).length]? = some b := by
      rw [hcons]
      simp
    rw [hget]
    simp [hb]

/-- **A slice between characters.** -/
theorem strSlice_eq_ok (before component after : List Char) :
    strSlice (String.ofList (before ++ component ++ after)) (encode before).length
      (encode (before ++ component)).length = .ok (String.ofList component) := by
  have hbytes : utf8 (String.ofList (before ++ component ++ after))
      = encode (before ++ component ++ after) := by
    rw [utf8_eq_encode, String.toList_ofList]
  have hstart : isCharBoundary (encode (before ++ component ++ after)) (encode before).length
      = true := by
    rw [List.append_assoc]
    exact isCharBoundary_encode before (component ++ after)
  have hstop := isCharBoundary_encode (before ++ component) after
  have hslice : ((encode (before ++ component ++ after)).drop (encode before).length).take
      ((encode (before ++ component)).length - (encode before).length) = encode component := by
    simp only [encode_append, List.append_assoc, List.length_append, Nat.add_sub_cancel_left,
      List.drop_left, List.take_left]
  have hle : (encode before).length ≤ (encode (before ++ component)).length := by
    rw [encode_append, List.length_append]
    omega
  unfold strSlice
  dsimp only
  rw [hbytes, hstart, hstop, hslice, fromUtf8?_encode]
  simp [hle]

theorem pushSlice_eq (before component after : List Char) (components : List String) :
    pushSlice (String.ofList (before ++ component ++ after)) (encode before).length
      (encode (before ++ component)).length components = pushComponent component components := by
  rw [pushSlice, strSlice_eq_ok]
  unfold pushComponent
  dsimp only
  show (if _ then _ else _) = _
  split <;> rfl

/-! ### The third loop -/

/-- Bytes that are neither NUL nor a slash only move the index. -/
theorem scanBytes_append_plain (path : String) (componentStart : ℕ) (components : List String)
    {plain : Bytes} (hplain : ∀ b ∈ plain, b ≠ 0 ∧ b ≠ SLASH) (bytes : Bytes) :
    ∀ index, scanBytes path index componentStart components (plain ++ bytes)
      = scanBytes path (index + plain.length) componentStart components bytes := by
  induction plain with
  | nil =>
    intro index
    rfl
  | cons b plain ih =>
    intro index
    obtain ⟨hnul, hslash⟩ := hplain b List.mem_cons_self
    rw [List.cons_append, scanBytes, if_neg hnul, if_neg hslash,
      ih fun b' hb' => hplain b' (List.mem_cons_of_mem b hb')]
    congr 1
    rw [List.length_cons]
    omega

theorem slash_mem_encode {c : Char} : SLASH ∈ String.utf8EncodeChar c ↔ c = '/' := by
  rw [Utf8.mem_encode_ascii (by decide)]
  constructor
  · intro h
    apply Char.val_inj.mp
    exact UInt32.toNat_inj.mp h
  · rintro rfl
    rfl

theorem nul_mem_encode {c : Char} : 0 ∈ String.utf8EncodeChar c ↔ c = Char.ofNat 0 := by
  rw [Utf8.mem_encode_ascii (by decide)]
  constructor
  · intro h
    apply Char.val_inj.mp
    exact UInt32.toNat_inj.mp h
  · rintro rfl
    rfl

/-- The scan of the rest of the path, and the last component. -/
theorem scanBytes_eq {value : String} (tail rest : List Char) :
    ∀ (front component : List Char) (components : List String),
      value = String.ofList (front ++ component ++ rest ++ tail) →
      (do
        let (componentStart, components) ← scanBytes value (encode (front ++ component)).length
          (encode front).length components (encode rest)
        pushSlice value componentStart (encode (front ++ component ++ rest)).length components)
      = parseRest component components rest := by
  induction rest with
  | nil =>
    intro front component components hvalue
    rw [List.append_nil] at hvalue ⊢
    subst hvalue
    exact pushSlice_eq front component tail components
  | cons c rest ih =>
    intro front component components hvalue
    have hcons : encode (c :: rest) = String.utf8EncodeChar c ++ encode rest := rfl
    rw [hcons, parseRest]
    by_cases hnul : c = Char.ofNat 0
    · subst hnul
      rfl
    · by_cases hslash : c = '/'
      · subst hslash
        have hslashBytes : String.utf8EncodeChar '/' = [SLASH] := rfl
        rw [if_neg hnul, if_pos rfl, hslashBytes, List.singleton_append, scanBytes,
          if_neg (by decide), if_pos rfl]
        have hempty : (encode (front ++ component)).length = (encode front).length ↔
            component = [] := by
          rw [encode_append, List.length_append, ← encode_eq_nil_iff, ← List.length_eq_zero_iff]
          omega
        by_cases hcomponent : component = []
        · rw [if_pos (hempty.mpr hcomponent), if_pos hcomponent]
          rfl
        · rw [if_neg (mt hempty.mp hcomponent), if_neg hcomponent]
          have hpush : pushSlice value (encode front).length (encode (front ++ component)).length
              components = pushComponent component components := by
            rw [hvalue, List.append_assoc (front ++ component)]
            exact pushSlice_eq front component _ components
          rw [hpush]
          cases pushComponent component components with
          | error err => rfl
          | ok components =>
            -- the next component begins behind the slash
            have hnext := ih (front ++ component ++ ['/']) [] components (by rw [hvalue]; simp)
            have hindex : (encode (front ++ component ++ ['/'] ++ [])).length
                = (encode (front ++ component)).length + 1 := by
              rw [List.append_nil, encode_append, List.length_append]
              rfl
            have hfront : (encode (front ++ component ++ ['/'])).length
                = (encode (front ++ component)).length + 1 := by
              rw [encode_append, List.length_append]
              rfl
            have hstop : front ++ component ++ ['/'] ++ [] ++ rest
                = front ++ component ++ '/' :: rest := by simp
            rw [hindex, hfront, hstop] at hnext
            exact hnext
      · -- every byte of the character is plain, and the component grows by it
        have hplain : ∀ b ∈ String.utf8EncodeChar c, b ≠ 0 ∧ b ≠ SLASH := by
          intro b hb
          constructor
          · rintro rfl
            exact hnul (nul_mem_encode.mp hb)
          · rintro rfl
            exact hslash (slash_mem_encode.mp hb)
        rw [if_neg hnul, if_neg hslash, scanBytes_append_plain value _ _ hplain]
        have hgrown := ih front (component ++ [c]) components (by rw [hvalue]; simp)
        have hindex : (encode (front ++ (component ++ [c]))).length
            = (encode (front ++ component)).length + (String.utf8EncodeChar c).length := by
          rw [← List.append_assoc, encode_append, List.length_append]
          simp [encode]
        have hstop : front ++ (component ++ [c]) ++ rest = front ++ component ++ c :: rest := by
          simp
        rw [hindex, hstop] at hgrown
        exact hgrown

/-! ### The loops at both ends -/

theorem getElem?_length_append (front back : Bytes) :
    (front ++ back)[front.length]? = back.head? := by
  rw [List.getElem?_append_right (Nat.le_refl _), Nat.sub_self, List.head?_eq_getElem?]

theorem trimStart_replicate {k : ℕ} {bytes : Bytes} (hbytes : bytes.head? ≠ some SLASH) (n : ℕ) :
    ∀ start, start + n = k → trimStart (List.replicate k SLASH ++ bytes) start = k := by
  induction n with
  | zero =>
    rintro start rfl
    have hget := getElem?_length_append (List.replicate (start + 0) SLASH) bytes
    rw [List.length_replicate, Nat.add_zero] at hget
    rw [trimStart, Nat.add_zero, hget]
    simp [hbytes]
  | succ n ih =>
    intro start hstart
    have hget : (List.replicate k SLASH ++ bytes)[start]? = some SLASH := by
      rw [List.getElem?_append_left (by rw [List.length_replicate]; omega),
        List.getElem?_replicate, if_pos (by omega)]
    have hlt : start < (List.replicate k SLASH ++ bytes).length :=
      (List.getElem?_eq_some_iff.mp hget).1
    rw [trimStart, hget, if_pos (by simpa using hlt)]
    exact ih (start + 1) (by omega)

theorem trimEnd_replicate {front : Bytes} {start m : ℕ} (hstart : start ≤ front.length)
    (hfront : start = front.length ∨ front.getLast? ≠ some SLASH) (j : ℕ) (hj : j ≤ m) :
    trimEnd (front ++ List.replicate m SLASH) start (front.length + j) = front.length := by
  induction j with
  | zero =>
    rw [Nat.add_zero]
    cases hlen : front.length with
    | zero => rfl
    | succ n =>
      rw [trimEnd, if_neg]
      have hget : (front ++ List.replicate m SLASH)[n]? = front.getLast? := by
        rw [List.getElem?_append_left (by omega), List.getLast?_eq_getElem?, hlen]
        rfl
      rw [hget]
      rcases hfront with hfront | hfront
      · simp [hfront, hlen]
      · simp [hfront]
  | succ j ih =>
    have hget : (front ++ List.replicate m SLASH)[front.length + j]? = some SLASH := by
      rw [List.getElem?_append_right (by omega), Nat.add_sub_cancel_left,
        List.getElem?_replicate, if_pos (by omega)]
    rw [← Nat.add_assoc, trimEnd, hget, if_pos (by simp; omega)]
    exact ih (by omega)

/-! ### Slashes at the ends -/

theorem eq_replicate_append_dropWhile (cs : List Char) :
    ∃ k, cs = List.replicate k '/' ++ cs.dropWhile (· == '/') := by
  refine ⟨(cs.takeWhile (· == '/')).length, ?_⟩
  have hall : cs.takeWhile (· == '/') = List.replicate (cs.takeWhile (· == '/')).length '/' := by
    rw [List.eq_replicate_iff]
    refine ⟨rfl, fun c hc => ?_⟩
    have hall : (cs.takeWhile (· == '/')).all (· == '/') = true := List.all_takeWhile
    simpa using List.all_eq_true.mp hall c hc
  conv_lhs => rw [← List.takeWhile_append_dropWhile (p := (· == '/')) (l := cs), hall]

theorem head?_dropWhile_ne (cs : List Char) : (cs.dropWhile (· == '/')).head? ≠ some '/' := by
  intro h
  have hnot := List.head?_dropWhile_not (· == '/') cs
  rw [h] at hnot
  simp at hnot

/-- A path between its outer slashes. -/
theorem exists_eq_trimSlashes (cs : List Char) :
    ∃ k m, cs = List.replicate k '/' ++ trimSlashes cs ++ List.replicate m '/' ∧
      (trimSlashes cs).head? ≠ some '/' ∧ (trimSlashes cs).getLast? ≠ some '/' ∧
      (trimSlashes cs = [] → m = 0) := by
  obtain ⟨k, hk⟩ := eq_replicate_append_dropWhile cs
  obtain ⟨m, hm⟩ := eq_replicate_append_dropWhile (cs.dropWhile (· == '/')).reverse
  have hend : cs.dropWhile (· == '/') = trimSlashes cs ++ List.replicate m '/' := by
    have hreverse := congrArg List.reverse hm
    rwa [List.reverse_reverse, List.reverse_append, List.reverse_replicate] at hreverse
  have hhead := head?_dropWhile_ne cs
  rw [hend] at hhead
  refine ⟨k, m, ?_, ?_, ?_, ?_⟩
  · rw [List.append_assoc, ← hend]
    exact hk
  · cases htrim : trimSlashes cs with
    | nil => simp
    | cons c rest =>
      rw [htrim] at hhead
      exact hhead
  · rw [trimSlashes, List.getLast?_reverse]
    exact head?_dropWhile_ne _
  · intro hnil
    rw [hnil, List.nil_append] at hhead
    cases m with
    | zero => rfl
    | succ m => exact absurd rfl hhead

theorem encode_replicate (k : ℕ) : encode (List.replicate k '/') = List.replicate k SLASH := by
  induction k with
  | zero => rfl
  | succ k ih =>
    rw [List.replicate_succ, List.replicate_succ, ← ih]
    rfl

/-- A path that does not start with a slash does not start with the byte of one. -/
theorem head?_encode_ne {cs : List Char} (h : cs.head? ≠ some '/') :
    (encode cs).head? ≠ some SLASH := by
  cases cs with
  | nil => simp [encode]
  | cons c cs =>
    obtain ⟨b, bs, hc, _⟩ := Utf8.head_encode c
    have hcons : encode (c :: cs) = b :: (bs ++ encode cs) := by simp [encode, hc]
    rw [hcons]
    rintro ⟨⟩
    have hmem : SLASH ∈ String.utf8EncodeChar c := by
      rw [hc]
      exact List.mem_cons_self
    exact h (by rw [slash_mem_encode.mp hmem]; rfl)

theorem getLast?_encode_ne {cs : List Char} (front : Bytes) (hcs : cs ≠ [])
    (h : cs.getLast? ≠ some '/') : (front ++ encode cs).getLast? ≠ some SLASH := by
  have hsplit := List.dropLast_concat_getLast hcs
  rw [List.getLast?_eq_some_getLast hcs] at h
  generalize cs.getLast hcs = c at hsplit h
  have hbytes : front ++ encode cs = front ++ encode cs.dropLast ++ String.utf8EncodeChar c := by
    conv_lhs => rw [← hsplit, encode_append, ← List.append_assoc]
    simp [encode]
  have hne : String.utf8EncodeChar c ≠ [] := by
    obtain ⟨b, bs, hc, _⟩ := Utf8.head_encode c
    simp [hc]
  rw [hbytes, List.getLast?_append, List.getLast?_eq_some_getLast hne, Option.some_or]
  intro hlast
  have hmem : SLASH ∈ String.utf8EncodeChar c := Option.some.inj hlast ▸ List.getLast_mem hne
  exact h (by rw [slash_mem_encode.mp hmem])

/-- **The scan agrees with the characters.** -/
theorem scanComponents_eq (value : String) : scanComponents value = parseComponents value := by
  obtain ⟨k, m, hvalue, hhead, hlast, hempty⟩ := exists_eq_trimSlashes value.toList
  unfold parseComponents
  dsimp only
  generalize trimSlashes value.toList = mid at *
  have hbytes : utf8 value = List.replicate k SLASH ++ encode mid ++ List.replicate m SLASH := by
    rw [utf8_eq_encode, hvalue, encode_append, encode_append, encode_replicate, encode_replicate]
  have hstart : trimStart (utf8 value) 0 = k := by
    rw [hbytes, List.append_assoc]
    refine trimStart_replicate ?_ k 0 (Nat.zero_add k)
    by_cases hmid : mid = []
    · rw [hempty hmid, hmid]
      simp [encode]
    · have hne := mt encode_eq_nil_iff.mp hmid
      have hfirst := head?_encode_ne hhead
      rw [List.head?_append, List.head?_eq_some_head hne, Option.some_or]
      rwa [List.head?_eq_some_head hne] at hfirst
  have hstop : trimEnd (utf8 value) k (utf8 value).length = k + (encode mid).length := by
    have hlen : (utf8 value).length = (List.replicate k SLASH ++ encode mid).length + m := by
      rw [hbytes, List.length_append, List.length_replicate (n := m)]
    have hend := @trimEnd_replicate (List.replicate k SLASH ++ encode mid) k m (by simp) ?_ m
      (Nat.le_refl m)
    · rw [hlen, hbytes, hend]
      simp
    · by_cases hmid : mid = []
      · left
        simp [hmid, encode]
      · right
        exact getLast?_encode_ne _ hmid hlast
  have hmiddle : ((utf8 value).take (k + (encode mid).length)).drop k = encode mid := by
    have hfront : (List.replicate k SLASH ++ encode mid).length = k + (encode mid).length := by
      simp
    rw [hbytes, List.take_left' hfront, List.drop_left' List.length_replicate]
  unfold scanComponents
  dsimp only
  rw [hstart, hstop]
  by_cases hmid : mid = []
  · rw [if_pos (by simp [hmid, encode]), if_pos hmid]
    rfl
  · have hpos : 0 < (encode mid).length := List.length_pos_iff.mpr (mt encode_eq_nil_iff.mp hmid)
    rw [if_neg (by omega), if_neg hmid, hmiddle]
    have hscan := @scanBytes_eq value (List.replicate m '/') mid
      (List.replicate k '/') [] [] (by rw [List.append_nil, ← hvalue, String.ofList_toList])
    rw [List.append_nil, encode_append, encode_replicate, List.length_append,
      List.length_replicate] at hscan
    rw [← hscan]
    cases scanBytes value k k [] (encode mid) with
    | error err => rfl
    | ok last =>
      obtain ⟨componentStart, components⟩ := last
      exact bind_pure_comp NfsPath.mk
        (pushSlice value componentStart (k + (encode mid).length) components)

end NfsCrust.NfsPath
