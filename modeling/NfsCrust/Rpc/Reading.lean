import Mathlib.Data.Nat.Bitwise
import NfsCrust.Rpc.Writing

/-!
# What the reader takes off the connection

A stream frames records, each split into fragments; it arrives in pieces that have
nothing to do with either.  The reader returns the records, takes no byte that is not
theirs, and refuses a record that outgrows the limit before it reads the fragment that
does.

## Main definitions

* `Record`, `Record.framed` — a record and its fragments on the stream.
* `collect` — what becomes of the fragments of a record under a limit.
* `readRecords` — the reader, called again and again.

## Main results

* `must_fill` — what a loop of reads returns does not depend on the pieces.
* `must_readRecord` — a record.
* `records_delivered` — the writer and the reader, over whole streams.
-/

namespace NfsCrust.Rpc.Framing

open BigEndian Interaction

variable {c : Connection}

/-! ### Reads in pieces -/

/-- One read: the end of the stream, or some bytes of it. -/
theorem must_fillTurn {message : String} {target : ℕ} {out : Bytes}
    {post : Except Error (Bytes ⊕ Bytes) → Connection → Prop} (h : out.length < target)
    (hend : c.incoming = [] → post (.error (.io message)) c)
    (hread : ∀ bytes rest, bytes ≠ [] → bytes.length ≤ target - out.length →
      c.incoming = bytes ++ rest → post (.ok (.inl (out ++ bytes))) { c with incoming := rest }) :
    Must (E := transfers) Connection.serves post (fillTurn message target out).run c := by
  unfold fillTurn
  rw [if_neg (Nat.not_le.mpr h)]
  refine must_bindExcept (must_transfer (e := .readBuf (target - out.length)) ?_ ?_)
  · refine ⟨.ok (c.incoming.take (target - out.length)),
      { c with incoming := c.incoming.drop (target - out.length) }, _, ?_, rfl, ?_, rfl, ?_⟩
    · exact List.length_take_le _ _
    · exact (List.take_append_drop _ _).symm
    · intro hnil
      exact (List.take_eq_nil_iff.mp hnil).resolve_left (by omega)
  · rintro _ c' ⟨bytes, hle, rfl, hincoming, hc', hempty⟩
    refine .ret ?_
    dsimp only
    rw [hc']
    by_cases hnil : bytes = []
    · -- the connection is as it was
      rw [hnil, List.nil_append] at hincoming
      rw [if_pos (List.isEmpty_iff.mpr hnil), ← hincoming]
      exact .ret (hend (hempty hnil))
    · rw [if_neg fun h => hnil (List.isEmpty_iff.mp h)]
      exact .ret (hread bytes c'.incoming hnil hle hincoming)

/-- A loop of reads fills the buffer, or comes to the end of the stream; how the stream
is cut into pieces does not matter. -/
theorem must_fill {message : String} {target : ℕ} {out : Bytes} {n : ℕ}
    (hn : target = out.length + n) :
    Must (E := transfers) Connection.serves
      (fun r c' => c' = { c with incoming := c.incoming.drop n } ∧
        r = if n ≤ c.incoming.length then .ok (out ++ c.incoming.take n) else .error (.io message))
      (Prog.loopExcept (fillTurn message target) out).run c := by
  -- by induction on the bytes that are missing
  induction n using Nat.strongRecOn generalizing out c with
  | ind n ih =>
    refine must_loopExcept_turn ?_
    rcases Nat.eq_zero_or_pos n with rfl | hpos
    · rw [fillTurn, if_pos (show target ≤ out.length by omega)]
      refine must_pure ⟨rfl, ?_⟩
      rw [if_pos (Nat.zero_le _), List.take_zero, List.append_nil]
    · refine must_fillTurn (by omega) (fun hend => ?_) fun bytes rest hne hle hincoming => ?_
      · rw [hend, List.drop_nil, ← hend]
        exact ⟨rfl, by rw [hend, if_neg (by simp; omega)]⟩
      · have hpos : 0 < bytes.length := List.length_pos_iff.mpr hne
        refine (ih (n - bytes.length) (by omega) ?_).mono fun r c' hr => ?_
        · rw [List.length_append]
          omega
        · obtain ⟨rfl, rfl⟩ := hr
          have hle : bytes.length ≤ n := by omega
          dsimp only
          constructor
          · rw [hincoming, List.drop_append, List.drop_eq_nil_iff.mpr hle, List.nil_append]
          · rw [hincoming, List.length_append, List.take_append, List.take_of_length_le hle,
              List.append_assoc]
            exact if_congr (by omega) rfl rfl

theorem must_readU32 :
    Must (E := transfers) Connection.serves
      (fun r c' => c' = { c with incoming := c.incoming.drop 4 } ∧
        r = match takeWord32 c.incoming with
          | some (word, _) => .ok word
          | none => .error (.io "unexpected end of file")) readU32.run c := by
  refine must_bindExcept ((must_fill (n := 4) (by rfl)).mono fun r c' hr => ?_)
  obtain ⟨rfl, rfl⟩ := hr
  match c.incoming with
  | [] | [_] | [_, _] | [_, _, _] => exact ⟨rfl, rfl⟩
  | _ :: _ :: _ :: _ :: _ => exact must_pure ⟨rfl, rfl⟩

/-- What a marker says. -/
def decodeMarker (marker : UInt32) : Bool × ℕ :=
  (marker &&& LAST_FRAGMENT != 0, (marker &&& FRAGMENT_SIZE_MASK).toNat)

theorem must_readMarker {post : Except Error (Bool × ℕ) → Connection → Prop}
    (hend : takeWord32 c.incoming = none → ∀ err,
      post (.error err) { c with incoming := c.incoming.drop 4 })
    (hmarker : ∀ marker rest, takeWord32 c.incoming = some (marker, rest) →
      post (.ok (decodeMarker marker)) { c with incoming := rest }) :
    Must (E := transfers) Connection.serves post readMarker.run c := by
  refine must_bindExcept (must_readU32.mono fun r c' hr => ?_)
  obtain ⟨rfl, rfl⟩ := hr
  match hword : takeWord32 c.incoming with
  | none => exact hend hword _
  | some (marker, rest) =>
    obtain ⟨word, hlen, hincoming⟩ := eq_append_of_takeWord32 hword
    rw [hincoming, List.drop_left' hlen]
    exact must_pure (hmarker marker rest hword)

theorem must_checkResponseLimit {len : ℕ} {post : Except Error Unit → Connection → Prop}
    (hok : len ≤ c.maxResponseBytes → post (.ok ()) c)
    (herr : c.maxResponseBytes < len → ∀ err, post (.error err) c) :
    Must (E := transfers) Connection.serves post (checkResponseLimit len).run c := by
  unfold checkResponseLimit
  refine must_bindExcept (must_lift (must_transfer (e := .loadMaxResponseBytes)
    ⟨c.maxResponseBytes, c, rfl, rfl⟩ ?_))
  rintro _ c' ⟨rfl, hc'⟩
  rw [hc']
  refine .ret ?_
  dsimp only
  by_cases h : len ≤ c.maxResponseBytes
  · rw [if_neg (Nat.not_lt.mpr h)]
    exact must_pure (hok h)
  · rw [if_pos (Nat.not_le.mp h)]
    exact .ret (herr (Nat.not_le.mp h) _)

/-! ### Fragments -/

/-- The limit stays, and no record was given more room than it allows. -/
structure Connection.Within (c c' : Connection) : Prop where
  limit : c'.maxResponseBytes = c.maxResponseBytes
  reserved : c'.reserved ≤ max c.reserved c.maxResponseBytes

theorem Connection.Within.trans {c' c'' : Connection} (h : c.Within c') (h' : c'.Within c'') :
    c.Within c'' := by
  obtain ⟨hlimit, hreserved⟩ := h
  obtain ⟨hlimit', hreserved'⟩ := h'
  refine ⟨hlimit'.trans hlimit, ?_⟩
  omega

theorem Connection.Within.incoming (rest : Bytes) : c.Within { c with incoming := rest } :=
  ⟨rfl, Nat.le_max_left _ _⟩

/-- The body of a fragment that was admitted. -/
theorem must_readExactIntoBuf {out : Bytes} {size : ℕ}
    {post : Except Error Bytes → Connection → Prop}
    (hadmitted : saturatingAdd out.length size ≤ c.maxResponseBytes)
    (hover : c.maxResponseBytes < out.length + size → ∀ err, post (.error err) c)
    (hend : c.incoming.length < size → ∀ err c', c.Within c' → post (.error err) c')
    (hread : out.length + size ≤ c.maxResponseBytes → size ≤ c.incoming.length → ∀ c',
      c.Within c' → c'.incoming = c.incoming.drop size →
      post (.ok (out ++ c.incoming.take size)) c') :
    Must (E := transfers) Connection.serves post (readExactIntoBuf out size).run c := by
  have hmax := c.maxResponseBytes_lt
  unfold readExactIntoBuf
  by_cases hlen : out.length + size < 2 ^ 64
  · rw [if_neg (Nat.not_le.mpr hlen)]
    have hle : out.length + size ≤ c.maxResponseBytes := by
      rw [saturatingAdd] at hadmitted
      omega
    refine must_bindExcept (must_lift (must_transfer (e := .reserve (out.length + size))
      ⟨(), _, rfl⟩ ?_))
    rintro _ _ rfl
    refine .ret ((must_fill (by rfl)).mono fun r c' hr => ?_)
    obtain ⟨rfl, rfl⟩ := hr
    have hwithin : c.Within { c with
        incoming := c.incoming.drop size, reserved := max c.reserved (out.length + size) } :=
      ⟨rfl, by dsimp only; omega⟩
    by_cases hsize : size ≤ c.incoming.length
    · rw [if_pos hsize]
      exact hread hle hsize _ hwithin rfl
    · rw [if_neg hsize]
      exact hend (Nat.not_le.mp hsize) _ _ hwithin
  · rw [if_pos (Nat.not_lt.mp hlen)]
    exact .ret (hover (by omega) _)

/-- Every way to end a fragment, after `out`, satisfies `post`: the stream ends, the
fragment exceeds the limit and nothing of its body is read, or the buffer grows by it. -/
structure AfterFragment (c : Connection) (out : Bytes)
    (post : Except Error (Bytes ⊕ Bytes) → Connection → Prop) : Prop where
  ended : ∀ err c', c.Within c' → (∀ marker rest, takeWord32 c.incoming = some (marker, rest) →
    rest.length < (decodeMarker marker).2) → post (.error err) c'
  exceeded : ∀ err marker rest, takeWord32 c.incoming = some (marker, rest) →
    c.maxResponseBytes < out.length + (decodeMarker marker).2 →
      post (.error err) { c with incoming := rest }
  read : ∀ marker rest c', takeWord32 c.incoming = some (marker, rest) →
    out.length + (decodeMarker marker).2 ≤ c.maxResponseBytes →
    (decodeMarker marker).2 ≤ rest.length → c.Within c' →
    c'.incoming = rest.drop (decodeMarker marker).2 →
      post (.ok (if (decodeMarker marker).1 then .inr (out ++ rest.take (decodeMarker marker).2)
        else .inl (out ++ rest.take (decodeMarker marker).2))) c'

namespace AfterFragment

theorem mono {out : Bytes} {post post' : Except Error (Bytes ⊕ Bytes) → Connection → Prop}
    (h : AfterFragment c out post) (himp : ∀ r c', post r c' → post' r c') :
    AfterFragment c out post' :=
  ⟨fun err c' hc' hshort => himp _ _ (h.ended err c' hc' hshort),
    fun err marker rest hword hlt => himp _ _ (h.exceeded err marker rest hword hlt),
    fun marker rest c' hword hle hlen hc' hrest =>
      himp _ _ (h.read marker rest c' hword hle hlen hc' hrest)⟩

theorem of_takeWord32_eq_none {out : Bytes}
    {post : Except Error (Bytes ⊕ Bytes) → Connection → Prop} (h : AfterFragment c out post)
    (hnone : takeWord32 c.incoming = none) (err : Error) (rest : Bytes) :
    post (.error err) { c with incoming := rest } := by
  refine h.ended err _ (.incoming _) fun marker rest hword => ?_
  rw [hnone] at hword
  cases hword

/-- After the limit was checked, the body is read. -/
theorem must_body {out : Bytes} {marker : UInt32} {rest : Bytes}
    {post : Except Error (Bytes ⊕ Bytes) → Connection → Prop} (h : AfterFragment c out post)
    (hword : takeWord32 c.incoming = some (marker, rest)) {c₀ : Connection} (hc₀ : c.Within c₀)
    (hrest : c₀.incoming = rest)
    (hadmitted : saturatingAdd out.length (decodeMarker marker).2 ≤ c.maxResponseBytes)
    (hover : c.maxResponseBytes < out.length + (decodeMarker marker).2 → ∀ err,
      post (.error err) c₀) :
    Must (E := transfers) Connection.serves
      (fun
        | .ok out', c' => post (.ok (if (decodeMarker marker).1 then .inr out' else .inl out')) c'
        | .error err, c' => post (.error err) c')
      (readExactIntoBuf out (decodeMarker marker).2).run c₀ := by
  have hlimit := hc₀.limit
  refine must_readExactIntoBuf (by omega) (fun hlt err => hover (by omega) err)
    (fun hshort err c' hc' => ?_) fun hfits hlen c' hc' hincoming => ?_
  · refine h.ended err c' (hc₀.trans hc') fun marker' rest' hword' => ?_
    cases hword.symm.trans hword'
    rwa [hrest] at hshort
  · rw [hrest] at hlen hincoming ⊢
    exact h.read marker rest c' hword (by omega) hlen (hc₀.trans hc') hincoming

end AfterFragment

/-- **One fragment after the first.** -/
theorem must_fragmentTurn {out : Bytes} {post : Except Error (Bytes ⊕ Bytes) → Connection → Prop}
    (h : AfterFragment c out post) :
    Must (E := transfers) Connection.serves post (fragmentTurn out).run c := by
  unfold fragmentTurn
  refine must_bindExcept (must_readMarker (fun hnone err => ?_) fun marker rest hword => ?_)
  · exact h.of_takeWord32_eq_none hnone err _
  · refine must_bindExcept (must_checkResponseLimit (fun hle => ?_) fun hlt err => ?_)
    · refine must_bindExcept ((h.must_body hword (.incoming rest) rfl hle fun hover err =>
        h.exceeded err marker rest hword hover).mono fun r c' hr => ?_)
      cases r with
      | ok out' => exact must_pure hr
      | error err => exact hr
    · exact h.exceeded err marker rest hword (Nat.lt_of_lt_of_le hlt (Nat.min_le_left _ _))

theorem size_lt (marker : UInt32) : (decodeMarker marker).2 < 2 ^ 31 := by
  show (marker &&& FRAGMENT_SIZE_MASK).toNat < 2 ^ 31
  have hle : marker.toNat &&& 0x7fffffff ≤ 0x7fffffff := Nat.and_le_right
  exact Nat.lt_succ_of_le hle

/-- **The first fragment**, after which the reader returns or goes on. -/
theorem must_readRecord_of {post : Except Error Bytes → Connection → Prop}
    (h : AfterFragment c [] fun
      | .ok (.inl out), c' =>
          Must (E := transfers) Connection.serves post (Prog.loopExcept fragmentTurn out).run c'
      | .ok (.inr out), c' => post (.ok out) c'
      | .error err, c' => post (.error err) c') :
    Must (E := transfers) Connection.serves post readRecord.run c := by
  have hmax := c.maxResponseBytes_lt
  unfold readRecord
  refine must_bindExcept (must_readMarker (fun hnone err => ?_) fun marker rest hword => ?_)
  · exact h.of_takeWord32_eq_none hnone err _
  · have hsize := size_lt marker
    refine must_bindExcept (must_checkResponseLimit (fun hle => ?_) fun hlt err => ?_)
    · refine must_bindExcept (must_lift (must_transfer (e := .reserve (decodeMarker marker).2)
        ⟨(), _, rfl⟩ ?_))
      rintro _ _ rfl
      refine .ret ?_
      have hwithin : c.Within { c with
          incoming := rest, reserved := max c.reserved (decodeMarker marker).2 } := by
        have hle : (decodeMarker marker).2 ≤ c.maxResponseBytes := hle
        refine ⟨rfl, ?_⟩
        dsimp only
        omega
      refine must_bindExcept ((h.must_body hword hwithin rfl ?_ ?_).mono fun r c' hr => ?_)
      · rw [saturatingAdd, List.length_nil, Nat.zero_add]
        exact Nat.le_trans (Nat.min_le_left _ _) hle
      · intro hover err
        rw [List.length_nil, Nat.zero_add] at hover
        exact absurd hover (Nat.not_lt.mpr hle)
      · cases r with
        | error err => exact hr
        | ok out =>
          dsimp only at hr ⊢
          cases hlast : (decodeMarker marker).1 with
          | true =>
            rw [hlast, if_pos rfl] at hr
            rw [if_pos (show (marker &&& LAST_FRAGMENT != 0) = true from hlast)]
            exact must_pure hr
          | false =>
            rw [hlast, if_neg Bool.false_ne_true] at hr
            rw [if_neg (by rw [show (marker &&& LAST_FRAGMENT != 0) = false from hlast]; decide)]
            exact hr
    · exact h.exceeded err marker rest hword (by rwa [List.length_nil, Nat.zero_add])

/-! ### Records -/

/-- The marker of a fragment of `size` bytes. -/
def fragmentMarker (last : Bool) (size : ℕ) : UInt32 :=
  if last then LAST_FRAGMENT ||| .ofNat size else .ofNat size

theorem decodeMarker_fragmentMarker {last : Bool} {size : ℕ} (h : size < 2 ^ 31) :
    decodeMarker (fragmentMarker last size) = (last, size) := by
  have hsize : (UInt32.ofNat size).toNat = size := toNat_ofNat_length (by omega)
  have hmarker : (fragmentMarker last size).toNat = 2 ^ 31 * last.toNat + size := by
    cases last with
    | false =>
      rw [fragmentMarker, if_neg Bool.false_ne_true, hsize, Bool.toNat_false]
      omega
    | true =>
      rw [fragmentMarker, if_pos rfl, UInt32.toNat_or, hsize]
      exact (Nat.two_pow_add_eq_or_of_lt h 1).symm
  have hlast : (fragmentMarker last size &&& LAST_FRAGMENT != 0) = last := by
    have hbit : (fragmentMarker last size).toNat.testBit 31 = last := by
      rw [hmarker, Nat.testBit_two_pow_mul_add _ h]
      cases last <;> rfl
    have hand : (fragmentMarker last size &&& LAST_FRAGMENT).toNat = last.toNat * 2 ^ 31 := by
      have hbits : LAST_FRAGMENT.toNat = 2 ^ 31 := rfl
      rw [UInt32.toNat_and, hbits, Nat.and_two_pow, hbit]
    cases last with
    | false => exact bne_eq_false_iff_eq.mpr (UInt32.toNat_inj.mp hand)
    | true =>
      refine bne_iff_ne.mpr fun hzero => ?_
      rw [hzero] at hand
      cases hand
  have hmask : (fragmentMarker last size &&& FRAGMENT_SIZE_MASK).toNat = size := by
    rw [UInt32.toNat_and, hmarker]
    show (2 ^ 31 * last.toNat + size) &&& (2 ^ 31 - 1) = size
    rw [Nat.and_two_pow_sub_one_eq_mod]
    omega
  rw [decodeMarker, hlast, hmask]

/-- The fragments of a record on the stream, each behind its marker; the last one is
marked. -/
def framed : List Bytes → Bytes
  | [] => []
  | fragment :: fragments =>
      be32 (fragmentMarker fragments.isEmpty fragment.length) ++ (fragment ++ framed fragments)

/-- A record, with the fragments it is split into. -/
structure Record where
  fragments : List Bytes
  fragments_ne_nil : fragments ≠ []
  length_lt : ∀ fragment ∈ fragments, fragment.length < 2 ^ 31

namespace Record

def bytes (record : Record) : Bytes := record.fragments.flatten

def frame (record : Record) : Bytes := framed record.fragments

end Record

/-- What becomes of the fragments of a record after `out`: the record, or nothing and the
stream from the body of the fragment that exceeds the limit. -/
def collect (limit : ℕ) : Bytes → List Bytes → Option Bytes × Bytes
  | out, [] => (some out, [])
  | out, fragment :: fragments =>
    if out.length + fragment.length ≤ limit then collect limit (out ++ fragment) fragments
    else (none, fragment ++ framed fragments)

/-- The record is collected, or refused. -/
def Collected (c : Connection) (out : Bytes) (fragments : List Bytes) (tail : Bytes)
    (r : Except Error Bytes) (c' : Connection) : Prop :=
  r.toOption = (collect c.maxResponseBytes out fragments).1 ∧
    c'.incoming = (collect c.maxResponseBytes out fragments).2 ++ tail ∧ c.Within c'

/-- A fragment of a framed record is read, or exceeds the limit. -/
theorem afterFragment_of_framed {out fragment : Bytes} {fragments : List Bytes} {tail : Bytes}
    {post : Except Error (Bytes ⊕ Bytes) → Connection → Prop} (hlen : fragment.length < 2 ^ 31)
    (hincoming : c.incoming = framed (fragment :: fragments) ++ tail)
    (hexceeded : c.maxResponseBytes < out.length + fragment.length → ∀ err,
      post (.error err) { c with incoming := fragment ++ framed fragments ++ tail })
    (hread : out.length + fragment.length ≤ c.maxResponseBytes → ∀ c', c.Within c' →
      c'.incoming = framed fragments ++ tail →
      post (.ok (if fragments.isEmpty then .inr (out ++ fragment) else .inl (out ++ fragment))) c') :
    AfterFragment c out post := by
  have hword : takeWord32 c.incoming = some (fragmentMarker fragments.isEmpty fragment.length,
      fragment ++ framed fragments ++ tail) := by
    rw [hincoming, framed, List.append_assoc, takeWord32_be32]
  have hdecode : decodeMarker (fragmentMarker fragments.isEmpty fragment.length) =
      (fragments.isEmpty, fragment.length) := decodeMarker_fragmentMarker hlen
  refine ⟨fun err c' _ hshort => ?_, fun err marker rest hword' hlt => ?_,
    fun marker rest c' hword' hle _ hc' hrest => ?_⟩
  · have := hshort _ _ hword
    rw [hdecode, List.length_append, List.length_append] at this
    omega
  · cases hword.symm.trans hword'
    rw [hdecode] at hlt
    exact hexceeded hlt err
  · cases hword.symm.trans hword'
    rw [hdecode] at hle hrest ⊢
    rw [List.append_assoc, List.drop_left] at hrest
    rw [List.append_assoc, List.take_left]
    exact hread hle c' hc' hrest

theorem Collected.cons {c' c'' : Connection} {out fragment : Bytes} {fragments : List Bytes}
    {tail : Bytes} {r : Except Error Bytes}
    (hle : out.length + fragment.length ≤ c.maxResponseBytes) (hc' : c.Within c')
    (h : Collected c' (out ++ fragment) fragments tail r c'') :
    Collected c out (fragment :: fragments) tail r c'' := by
  obtain ⟨hr, hincoming, hc''⟩ := h
  rw [hc'.limit] at hr hincoming
  refine ⟨?_, ?_, hc'.trans hc''⟩
  · rw [collect, if_pos hle, hr]
  · rw [collect, if_pos hle, hincoming]

/-- After a fragment the record is refused, complete, or collected from the fragments
that are left. -/
theorem afterFragment_collected {out fragment : Bytes} {fragments : List Bytes} {tail : Bytes}
    (hlen : fragment.length < 2 ^ 31)
    (hincoming : c.incoming = framed (fragment :: fragments) ++ tail)
    (hrest : fragments ≠ [] → ∀ c' : Connection, c'.incoming = framed fragments ++ tail →
      Must (E := transfers) Connection.serves (Collected c' (out ++ fragment) fragments tail)
        (Prog.loopExcept fragmentTurn (out ++ fragment)).run c') :
    AfterFragment c out fun
      | .ok (.inl out'), c' => Must (E := transfers) Connection.serves
          (Collected c out (fragment :: fragments) tail) (Prog.loopExcept fragmentTurn out').run c'
      | .ok (.inr out'), c' => Collected c out (fragment :: fragments) tail (.ok out') c'
      | .error err, c' => Collected c out (fragment :: fragments) tail (.error err) c' := by
  refine afterFragment_of_framed hlen hincoming (fun hlt err => ?_) fun hle c' hc' hc'tail => ?_
  · refine ⟨?_, ?_, .incoming _⟩
    · rw [collect, if_neg (Nat.not_le.mpr hlt)]
      rfl
    · rw [collect, if_neg (Nat.not_le.mpr hlt)]
  · cases fragments with
    | nil =>
      have hdone : Collected c' (out ++ fragment) [] tail (.ok (out ++ fragment)) c' :=
        ⟨rfl, hc'tail, ⟨rfl, Nat.le_max_left _ _⟩⟩
      exact hdone.cons hle hc'
    | cons next fragments =>
      exact (hrest nofun c' hc'tail).mono fun r c'' hr => hr.cons hle hc'

/-- The fragments of a framed record after the first one. -/
theorem must_fragments {out : Bytes} {fragments : List Bytes} {tail : Bytes}
    (hne : fragments ≠ []) (hlen : ∀ fragment ∈ fragments, fragment.length < 2 ^ 31)
    (hincoming : c.incoming = framed fragments ++ tail) :
    Must (E := transfers) Connection.serves (Collected c out fragments tail)
      (Prog.loopExcept fragmentTurn out).run c := by
  induction fragments generalizing out c with
  | nil => exact absurd rfl hne
  | cons fragment fragments ih =>
    have hafter : AfterFragment c out _ := afterFragment_collected
      (hlen fragment List.mem_cons_self) hincoming fun hne c' hc' =>
        ih hne (fun next hmem => hlen next (List.mem_cons_of_mem _ hmem)) hc'
    refine must_loopExcept_turn ((must_fragmentTurn hafter).mono fun r c' hr => ?_)
    match r, hr with
    | .ok (.inl _), hr => exact hr
    | .ok (.inr _), hr => exact hr
    | .error _, hr => exact hr

/-- **One record.** -/
theorem must_readRecord {record : Record} {tail : Bytes}
    (hincoming : c.incoming = record.frame ++ tail) :
    Must (E := transfers) Connection.serves (Collected c [] record.fragments tail)
      readRecord.run c := by
  obtain ⟨fragments, hne, hlen⟩ := record
  cases fragments with
  | nil => exact absurd rfl hne
  | cons fragment fragments =>
    refine must_readRecord_of (afterFragment_collected (hlen fragment List.mem_cons_self) hincoming
      fun hne c' hc' => ?_)
    exact must_fragments hne (fun next hmem => hlen next (List.mem_cons_of_mem _ hmem)) hc'

/-- A record that fits is collected in full. -/
theorem collect_of_le {limit : ℕ} {out : Bytes} {fragments : List Bytes}
    (h : out.length + fragments.flatten.length ≤ limit) :
    collect limit out fragments = (some (out ++ fragments.flatten), []) := by
  induction fragments generalizing out with
  | nil => rw [collect, List.flatten_nil, List.append_nil]
  | cons fragment fragments ih =>
    rw [List.flatten_cons, List.length_append] at h
    have hrest : (out ++ fragment).length + fragments.flatten.length ≤ limit := by
      rw [List.length_append]
      omega
    rw [collect, if_pos (by omega), ih hrest, List.flatten_cons, List.append_assoc]

/-- A record that does not fit is refused at the fragment that exceeds the limit. -/
theorem exists_of_collect {limit : ℕ} {out : Bytes} {fragments : List Bytes}
    (hout : out.length ≤ limit) (h : limit < out.length + fragments.flatten.length) :
    ∃ before fragment after, fragments = before ++ fragment :: after ∧
      out.length + before.flatten.length ≤ limit ∧
      limit < out.length + before.flatten.length + fragment.length ∧
      collect limit out fragments = (none, fragment ++ framed after) := by
  induction fragments generalizing out with
  | nil =>
    rw [List.flatten_nil, List.length_nil] at h
    omega
  | cons fragment fragments ih =>
    rw [List.flatten_cons, List.length_append] at h
    by_cases hle : out.length + fragment.length ≤ limit
    · have hout : (out ++ fragment).length = out.length + fragment.length := List.length_append
      obtain ⟨before, next, after, rfl, hbefore, hlt, hcollect⟩ :=
        @ih (out ++ fragment) (by omega) (by omega)
      refine ⟨fragment :: before, next, after, rfl, ?_, ?_, ?_⟩
      · rw [List.flatten_cons, List.length_append]
        omega
      · rw [List.flatten_cons, List.length_append]
        omega
      · rw [collect, if_pos hle, hcollect]
    · refine ⟨[], fragment, fragments, rfl, hout, ?_, ?_⟩
      · rw [List.flatten_nil, List.length_nil]
        omega
      · rw [collect, if_neg hle]

/-! ### Streams -/

/-- Read `n` records. -/
def readRecords : ℕ → TransferM (List Bytes)
  | 0 => return []
  | n + 1 => do
    let record ← readRecord
    return record :: (← readRecords n)

/-- **Records that fit are returned in order**, and exactly their bytes are read. -/
theorem must_readRecords {records : List Record} {tail : Bytes}
    (hfits : ∀ record ∈ records, record.bytes.length ≤ c.maxResponseBytes)
    (hincoming : c.incoming = records.flatMap Record.frame ++ tail) :
    Must (E := transfers) Connection.serves
      (fun r c' => r = .ok (records.map Record.bytes) ∧ c'.incoming = tail ∧ c.Within c')
      (readRecords records.length).run c := by
  induction records generalizing c with
  | nil => exact must_pure ⟨rfl, hincoming, rfl, Nat.le_max_left _ _⟩
  | cons record records ih =>
    rw [List.flatMap_cons, List.append_assoc] at hincoming
    refine must_bindExcept ((must_readRecord hincoming).mono fun r c' hr => ?_)
    obtain ⟨hr, htail, hc'⟩ := hr
    have hrecord : record.fragments.flatten.length ≤ c.maxResponseBytes :=
      hfits record List.mem_cons_self
    rw [collect_of_le (by rwa [List.length_nil, Nat.zero_add]), List.nil_append] at hr htail
    obtain ⟨bytes, rfl⟩ : ∃ bytes, r = .ok bytes := by
      cases r with
      | ok bytes => exact ⟨bytes, rfl⟩
      | error err => cases hr
    cases hr
    refine must_bindExcept ((ih (fun record hmem => ?_) htail).mono fun r c'' hr => ?_)
    · rw [hc'.limit]
      exact hfits record (List.mem_cons_of_mem _ hmem)
    · obtain ⟨rfl, htail', hc''⟩ := hr
      exact must_pure ⟨rfl, htail', hc'.trans hc''⟩

/-- A record that does not fit is refused before the fragment that exceeds the limit. -/
def RefusedAt (limit : ℕ) (record : Record) (tail : Bytes) (r : Except Error Bytes)
    (c' : Connection) : Prop :=
  (∃ err, r = .error err) ∧ ∃ before fragment after,
    record.fragments = before ++ fragment :: after ∧ before.flatten.length ≤ limit ∧
      limit < before.flatten.length + fragment.length ∧
      c'.incoming = fragment ++ framed after ++ tail

theorem must_readRecord_refused {record : Record} {tail : Bytes}
    (hlt : c.maxResponseBytes < record.bytes.length)
    (hincoming : c.incoming = record.frame ++ tail) :
    Must (E := transfers) Connection.serves (RefusedAt c.maxResponseBytes record tail)
      readRecord.run c := by
  refine (must_readRecord hincoming).mono fun r c' hr => ?_
  obtain ⟨hr, htail, -⟩ := hr
  have hlt : c.maxResponseBytes < ([] : Bytes).length + record.fragments.flatten.length := by
    rwa [List.length_nil, Nat.zero_add]
  obtain ⟨before, fragment, after, hfragments, hbefore, hexceeds, hcollect⟩ :=
    exists_of_collect (Nat.zero_le _) hlt
  rw [List.length_nil, Nat.zero_add] at hbefore hexceeds
  rw [hcollect] at hr htail
  refine ⟨?_, before, fragment, after, hfragments, hbefore, hexceeds, htail⟩
  cases r with
  | ok bytes => cases hr
  | error err => exact ⟨err, rfl⟩

/-- Whatever the stream says, a fragment consumes it and keeps to the limit. -/
theorem afterFragment_within {out : Bytes} :
    AfterFragment c out fun r c' => c.Within c' ∧
      ∀ out', r = .ok (.inl out') → c'.incoming.length < c.incoming.length := by
  refine ⟨fun err c' hc' _ => ⟨hc', nofun⟩, fun err marker rest _ _ => ⟨.incoming _, nofun⟩,
    fun marker rest c' hword _ _ hc' hrest => ⟨hc', fun out' _ => ?_⟩⟩
  obtain ⟨word, hlen, hincoming⟩ := eq_append_of_takeWord32 hword
  rw [hrest, hincoming, List.length_drop, List.length_append]
  omega

/-- **The reader never makes room for more than the limit**, and it always ends. -/
theorem must_readRecord_within :
    Must (E := transfers) Connection.serves (fun _ c' => c.Within c') readRecord.run c := by
  have hloop : ∀ out c', c.Within c' → Must (E := transfers) Connection.serves
      (fun _ c'' => c.Within c'') (Prog.loopExcept fragmentTurn out).run c' := by
    intro out c' hc'
    refine must_loopExcept (fun n _ c'' => n = c''.incoming.length ∧ c.Within c'') ⟨rfl, hc'⟩ ?_
    rintro n out c'' ⟨rfl, hc''⟩
    refine (must_fragmentTurn afterFragment_within).mono fun r d hr => ?_
    match r, hr with
    | .ok (.inl out'), hr => exact ⟨_, hr.2 out' rfl, rfl, hc''.trans hr.1⟩
    | .ok (.inr _), hr => exact hc''.trans hr.1
    | .error _, hr => exact hc''.trans hr.1
  refine must_readRecord_of (afterFragment_within.mono fun r c' hr => ?_)
  match r, hr with
  | .ok (.inl out), hr => exact hloop out c' hr.1
  | .ok (.inr _), hr => exact hr.1
  | .error _, hr => exact hr.1

/-! ### Written and read -/

/-- The request is one `encode_call` made. -/
def RpcClient.Encoded (client : RpcClient) (request : RpcRequest) : Prop :=
  ∃ xid program version procedure payload,
    request = client.encodeCall xid program version procedure payload

namespace RpcClient

variable {client : RpcClient}

/-- A request that is written is a record of one fragment. -/
theorem Encoded.framed_eq {request : RpcRequest} (h : client.Encoded request)
    (hlen : request.recordLen < 2 ^ 31) :
    request.recordLen = (client.record request).length ∧
      request.marker ++ client.record request = framed [client.record request] := by
  obtain ⟨xid, program, version, procedure, payload, rfl⟩ := h
  have hrecord := client.recordLen_eq xid program version procedure payload
  have hlength : (client.encodeCall xid program version procedure payload).recordLen =
      (client.record (client.encodeCall xid program version procedure payload)).length := by omega
  refine ⟨hlength, ?_⟩
  rw [RpcRequest.marker, hlength, framed, framed, List.append_nil]
  rfl

/-- The records of a batch. -/
theorem exists_records {batch : List RpcRequest}
    (h : ∀ request ∈ batch, client.Encoded request ∧ request.recordLen < 2 ^ 31) :
    ∃ records : List Record, records.map Record.bytes = batch.map client.record ∧
      records.flatMap Record.frame =
        batch.flatMap (fun request => request.marker ++ client.record request) ∧
      ∀ record ∈ records, ∃ request ∈ batch, record.bytes.length = request.recordLen := by
  induction batch with
  | nil => exact ⟨[], rfl, rfl, nofun⟩
  | cons request batch ih =>
    obtain ⟨hencoded, hlt⟩ := h request List.mem_cons_self
    obtain ⟨hlen, hframed⟩ := hencoded.framed_eq hlt
    obtain ⟨records, hbytes, hframe, hlengths⟩ :=
      ih fun request hmem => h request (List.mem_cons_of_mem _ hmem)
    have hbytes' : [client.record request].flatten = client.record request := List.flatten_singleton
    refine ⟨⟨[client.record request], nofun, ?_⟩ :: records, ?_, ?_, ?_⟩
    · intro fragment hmem
      rw [List.mem_singleton.mp hmem, ← hlen]
      exact hlt
    · rw [List.map_cons, List.map_cons, hbytes, Record.bytes, hbytes']
    · rw [List.flatMap_cons, List.flatMap_cons, hframe, hframed, Record.frame]
    · intro record hmem
      rcases List.mem_cons.mp hmem with rfl | hmem
      · exact ⟨request, List.mem_cons_self, by rw [Record.bytes, hbytes', hlen]⟩
      · obtain ⟨request', hmem', hlen'⟩ := hlengths record hmem
        exact ⟨request', List.mem_cons_of_mem _ hmem', hlen'⟩

end RpcClient

/-- **The writer and the reader.**  Whatever a connection accepts of each write, a batch is
written as one framed record for each request, in order.  However a stream is delivered,
the reader returns the records it frames and takes exactly their bytes, as long as they
fit the limit; it refuses the first that does not before it reads the body of the fragment
that exceeds the limit.  It never makes room for more than the limit.  What was written
is read back. -/
theorem records_delivered (client : RpcClient) :
    (∀ (c : Connection) (batch : List RpcRequest), batch.length ≤ MAX_WRITE_BATCH_RECORDS →
      (∀ request ∈ batch, client.Encoded request ∧ request.recordLen < 2 ^ 31) →
      Must (E := transfers) Connection.serves
        (fun r c' => r = .ok () ∧
          c'.written = c.written ++ batch.flatMap (fun request => framed [client.record request]) ∧
          ∀ (d : Connection) (tail : Bytes),
            d.incoming = c'.written.drop c.written.length ++ tail →
            (∀ request ∈ batch, request.recordLen ≤ d.maxResponseBytes) →
            Must (E := transfers) Connection.serves
              (fun r d' => r = .ok (batch.map client.record) ∧ d'.incoming = tail)
              (readRecords batch.length).run d)
        (writeRecordBatch client batch).run c) ∧
    (∀ (c : Connection) (records : List Record) (tail : Bytes),
      (∀ record ∈ records, record.bytes.length ≤ c.maxResponseBytes) →
      c.incoming = records.flatMap Record.frame ++ tail →
      Must (E := transfers) Connection.serves
        (fun r c' => r = .ok (records.map Record.bytes) ∧ c'.incoming = tail)
        (readRecords records.length).run c) ∧
    (∀ (c : Connection) (records : List Record) (large : Record) (tail : Bytes),
      (∀ record ∈ records, record.bytes.length ≤ c.maxResponseBytes) →
      c.maxResponseBytes < large.bytes.length →
      c.incoming = records.flatMap Record.frame ++ (large.frame ++ tail) →
      Must (E := transfers) Connection.serves
        (fun r c' => r = .ok (records.map Record.bytes) ∧
          Must (E := transfers) Connection.serves (RefusedAt c.maxResponseBytes large tail)
            readRecord.run c')
        (readRecords records.length).run c) ∧
    ∀ c : Connection, Must (E := transfers) Connection.serves
      (fun _ c' => c'.reserved ≤ max c.reserved c.maxResponseBytes) readRecord.run c := by
  refine ⟨fun c batch hbatch hrequests => ?_, fun c records tail hfits hincoming => ?_,
    fun c records large tail hfits hlarge hincoming => ?_, fun c => ?_⟩
  · refine (client.must_writeRecordBatch hbatch fun request hmem =>
      (hrequests request hmem).2).mono fun r c' hr => ?_
    obtain ⟨rfl, rfl⟩ := hr
    obtain ⟨records, hbytes, hframe, hlengths⟩ := RpcClient.exists_records hrequests
    have hlength : records.length = batch.length := by
      simpa using congrArg List.length hbytes
    refine ⟨rfl, ?_, fun d tail hincoming hlimit => ?_⟩
    · rw [List.flatMap_congr fun request hmem =>
        ((hrequests request hmem).1.framed_eq (hrequests request hmem).2).2]
    · rw [List.drop_left, ← hframe] at hincoming
      rw [← hbytes, ← hlength]
      refine (must_readRecords (fun record hmem => ?_) hincoming).mono fun r d' hr => ⟨hr.1, hr.2.1⟩
      obtain ⟨request, hrequest, hlen⟩ := hlengths record hmem
      rw [hlen]
      exact hlimit request hrequest
  · exact (must_readRecords hfits hincoming).mono fun r c' hr => ⟨hr.1, hr.2.1⟩
  · refine (must_readRecords hfits hincoming).mono fun r c' hr => ⟨hr.1, ?_⟩
    obtain ⟨-, htail, hc'⟩ := hr
    rw [← hc'.limit] at hlarge ⊢
    exact must_readRecord_refused hlarge htail
  · exact must_readRecord_within.mono fun r c' hr => hr.reserved

/-- A record of three bytes in three fragments, the second of which is empty. -/
def threeFragments : Record := ⟨[[1], [], [2, 3]], by decide, by decide⟩

theorem records_delivered_threeFragments :
    Must (E := transfers) Connection.serves
      (fun r c' => r = .ok [[1, 2, 3]] ∧ c'.incoming = [9])
      (readRecords 1).run
      ⟨[], [0, 0, 0, 1, 1, 0, 0, 0, 0, 128, 0, 0, 2, 2, 3, 9], 4, by decide, 0⟩ := by
  refine ((records_delivered ⟨[], by decide⟩).2.1 _ [threeFragments] [9] ?_
    (by decide)).mono fun r c' hr => hr
  intro record hmem
  rw [List.mem_singleton.mp hmem]
  decide

end NfsCrust.Rpc.Framing
