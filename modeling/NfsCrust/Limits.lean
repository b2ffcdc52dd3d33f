import NfsCrust.Session

/-!
# Which requests fit

The limits a session negotiates bound the number of operations of a compound and the
length of its call.  Both grow with the request, so that a request fits whenever a
larger one does; the compounds that clean up after another one are smaller than it.

## Main results

* `NfsSession.validateCompoundRequest_of_le` — a smaller request fits.
* `NfsSession.validate_remove_of_openFile`, `NfsSession.validate_remove_of_putFused`, … — the
  requests that clean up.
-/

namespace NfsCrust

/-- The length of the operations of a compound. -/
def opsLen (ops : List NfsOp) : ℕ := (ops.map NfsOp.encodedLen).sum

@[simp] theorem opsLen_nil : opsLen [] = 0 := rfl

@[simp] theorem opsLen_cons (op : NfsOp) (ops : List NfsOp) :
    opsLen (op :: ops) = op.encodedLen + opsLen ops := List.sum_cons

@[simp] theorem opsLen_append (ops ops' : List NfsOp) :
    opsLen (ops ++ ops') = opsLen ops + opsLen ops' := by
  rw [opsLen, List.map_append, List.sum_append]
  rfl

theorem foldl_saturatingAdd (ops : List NfsOp) (a : ℕ) :
    ops.foldl (fun total op => saturatingAdd total op.encodedLen) (min a (2 ^ 64 - 1))
      = min (a + opsLen ops) (2 ^ 64 - 1) := by
  induction ops generalizing a with
  | nil => rfl
  | cons op ops ih =>
    have hstep : saturatingAdd (min a (2 ^ 64 - 1)) op.encodedLen
        = min (a + op.encodedLen) (2 ^ 64 - 1) := by
      rw [saturatingAdd]
      omega
    rw [List.foldl_cons, hstep, ih, opsLen_cons, Nat.add_assoc]

theorem compoundEncodedLen_eq (tag : String) (ops : List NfsOp) :
    compoundEncodedLen tag ops = min (xdrStringLen tag + 8 + opsLen ops) (2 ^ 64 - 1) := by
  have hheader : saturatingEncodedLen [xdrStringLen tag, 4, 4]
      = min (xdrStringLen tag + 8) (2 ^ 64 - 1) := by
    simp only [saturatingEncodedLen, List.foldl_cons, List.foldl_nil, saturatingAdd]
    omega
  rw [compoundEncodedLen, hheader, foldl_saturatingAdd]

namespace NfsSession

variable {s : NfsSession}

theorem validateCompoundRequest_eq_ok {tag : String} {ops : List NfsOp} :
    s.validateCompoundRequest tag ops = .ok () ↔
      saturatingAdd ops.length 1 ≤ s.config.maxCompoundOps.toNat ∧
      s.encodedCallLen (compoundWithSequenceEncodedLen tag ops) ≤ s.config.maxRequestSize.toNat := by
  unfold validateCompoundRequest validateCompoundRequestLimits
  dsimp only
  by_cases hops : saturatingAdd ops.length 1 > s.config.maxCompoundOps.toNat
  · rw [if_pos hops]
    exact iff_of_false nofun fun h => absurd h.1 (Nat.not_le.mpr hops)
  · rw [if_neg hops]
    by_cases hsize : s.encodedCallLen (compoundWithSequenceEncodedLen tag ops)
        > s.config.maxRequestSize.toNat
    · rw [if_pos hsize]
      exact iff_of_false nofun fun h => absurd h.2 (Nat.not_le.mpr hsize)
    · rw [if_neg hsize]
      exact iff_of_true rfl ⟨Nat.not_lt.mp hops, Nat.not_lt.mp hsize⟩

/-- A request that fits has at most the operations that were negotiated. -/
theorem length_le_of_validate {tag : String} {ops : List NfsOp}
    (h : s.validateCompoundRequest tag ops = .ok ()) :
    ops.length + 1 ≤ s.config.maxCompoundOps.toNat := by
  have hcount := (validateCompoundRequest_eq_ok.mp h).1
  have hmax := s.config.maxCompoundOps.toNat_lt
  unfold saturatingAdd at hcount
  omega

theorem length_lt_of_validate {tag : String} {ops : List NfsOp}
    (h : s.validateCompoundRequest tag ops = .ok ()) : ops.length + 1 < 2 ^ 32 :=
  Nat.lt_of_le_of_lt (length_le_of_validate h) s.config.maxCompoundOps.toNat_lt

theorem validate_of_fits {tag : String} {ops : List NfsOp}
    (h : s.compoundRequestFits tag ops = true) : s.validateCompoundRequest tag ops = .ok () := by
  unfold compoundRequestFits at h
  cases hvalid : s.validateCompoundRequest tag ops with
  | ok _ => rfl
  | error err =>
    rw [hvalid] at h
    cases h

/-- The length of a call grows with its payload. -/
theorem encodedCallLen_mono {m n : ℕ} (h : m ≤ n) : s.encodedCallLen m ≤ s.encodedCallLen n := by
  have hm := xdrPadding_eq m
  have hn := xdrPadding_eq n
  simp only [encodedCallLen, saturatingEncodedLen, List.foldl_cons, List.foldl_nil, saturatingAdd]
  generalize 2 ^ 64 - 1 = top
  omega

/-- **A request that is smaller than one that fits, fits.** -/
theorem validateCompoundRequest_of_le {tag tag' : String} {ops ops' : List NfsOp}
    (h : s.validateCompoundRequest tag ops = .ok ()) (hcount : ops'.length ≤ ops.length)
    (hlen : xdrStringLen tag' + opsLen ops' ≤ xdrStringLen tag + opsLen ops) :
    s.validateCompoundRequest tag' ops' = .ok () := by
  rw [validateCompoundRequest_eq_ok] at h ⊢
  obtain ⟨hops, hsize⟩ := h
  refine ⟨?_, Nat.le_trans (encodedCallLen_mono ?_) hsize⟩
  · rw [saturatingAdd] at hops ⊢
    generalize 2 ^ 64 - 1 = top at hops ⊢
    omega
  · rw [compoundWithSequenceEncodedLen, compoundWithSequenceEncodedLen, compoundEncodedLen_eq,
      compoundEncodedLen_eq, saturatingAdd, saturatingAdd]
    generalize 2 ^ 64 - 1 = top
    omega

/-! ### Requests that clean up -/

theorem encodedLen_putFh_le {fh : FileHandle} (h : fh.bytes.length ≤ 128) :
    (NfsOp.putFh fh).encodedLen ≤ 136 := by
  have hpad := xdrPadding_eq fh.bytes.length
  simp only [NfsOp.encodedLen, NfsOp.argsLen, xdrOpaqueLen, xdrFixedOpaqueLen, saturatingAdd]
  generalize 2 ^ 64 - 1 = top
  omega

theorem encodedLen_remove_le_open (seqid : UInt32) (clientid : UInt64) (owner : Bytes) (name : String)
    (mode : UInt32) :
    (NfsOp.remove name).encodedLen ≤ (NfsOp.«open» seqid clientid owner name mode).encodedLen := by
  simp only [NfsOp.encodedLen, NfsOp.argsLen, saturatingEncodedLen, List.foldl_cons, List.foldl_nil,
    saturatingAdd]
  generalize 2 ^ 64 - 1 = top
  omega

theorem validate_remove_of_openFile {owner : Bytes} {parent : List String} {name : String}
    (h : s.validateCompoundRequest "open" ((SessionCall.openFile owner parent name).ops s) = .ok ()) :
    s.validateCompoundRequest "remove" ((SessionCall.remove parent name).ops s) = .ok () := by
  refine validateCompoundRequest_of_le h ?_ ?_
  · simp [SessionCall.ops]
  · have hop := encodedLen_remove_le_open 0 s.clientid owner name s.config.fileMode
    have htag : xdrStringLen "remove" = 12 := by decide +kernel
    have htag' : xdrStringLen "open" = 8 := by decide +kernel
    have hgetFh : NfsOp.getFh.encodedLen = 4 := by decide +kernel
    simp only [SessionCall.ops, opsLen_append, opsLen_cons, opsLen_nil, htag, htag', hgetFh]
    omega

theorem validate_remove_of_putFused {owner : Bytes} {parent : List String} {tempName name : String}
    {data : Bytes} {createNew : Bool} (h : s.validateCompoundRequest "put-fused"
      ((SessionCall.putFused owner parent tempName name data createNew).ops s) = .ok ()) :
    s.validateCompoundRequest "remove" ((SessionCall.remove parent tempName).ops s) = .ok () := by
  refine validateCompoundRequest_of_le h ?_ ?_
  · cases createNew <;> simp [SessionCall.ops]
  · have hop := encodedLen_remove_le_open 0 s.clientid owner tempName s.config.fileMode
    have htag : xdrStringLen "remove" = 12 := by decide +kernel
    have htag' : xdrStringLen "put-fused" = 16 := by decide +kernel
    simp only [SessionCall.ops, opsLen_append, opsLen_cons, opsLen_nil, htag, htag']
    omega

end NfsSession

end NfsCrust
