import NfsCrust.Server.Paths
import NfsCrust.Server.Script

/-!
# Reads while others publish

Other clients publish new files under a path, and remove it, while it is read.  A published
file does not change any more, so that its handle stands for one version of it.  A read takes
several requests, and each that follows the path may find another version.

The server of this file is the one of `NfsCrust.Server.Paths`, with a content for every handle.
Reads that follow a handle see one file, and for them the results of `NfsCrust.Read.Mismatch`
hold as they are: seen through its handle, the file is served by `ServedFile.answers`.

## Main definitions

* `Versions`, `Versions.server` — files that do not change, and their server.
* `Versions.Returns` — a read returns data of a file that the path named at some moment.

## Main results

* `Versions.answers_of_serve` — one version, seen through its handle.
* `get_one_version` — an attempt of a read returns data of one version.
* `reads_one_version` — the operations return data of one version.
-/

namespace NfsCrust

open Interaction Thread

/-! ### The server -/

/-- The files that handles stand for. -/
structure Versions where
  content : FileHandle → Bytes
  size_lt : ∀ fh, (content fh).length < 2 ^ 64

namespace Versions

/-- A session on which files can be read. -/
def Readable (s : NfsSession) : Prop := 0 < s.readChunkSize ∧ 0 < s.readGranularity

instance (s : NfsSession) : Decidable (Readable s) := inferInstanceAs (Decidable (_ ∧ _))

/-- A server of the files, with handles of at most `NFS4_FHSIZE` bytes, and `exportRoot` for the
root of the export.  The network does not report mismatches of sizes. -/
def server (V : Versions) (exportRoot : FileHandle) : PathServer Unit where
  answer _ fh op r := fh.bytes.length ≤ 128 ∧ FileAnswers fh (V.content fh) op r
  fails err := err.isSizeMismatch = false
  session s := Readable s ∧ s.exportRoot = exportRoot
  opcode h := h.2.opcode

/-- Data that is returned is, in the sense of `Q`, that of a file which the path named at some
moment. -/
def Returns (V : Versions) (root : FileHandle) (components : List String)
    (Q : Bytes → Bytes → Prop) (r : Except Error Bytes) (m : Moments Unit) : Prop :=
  ∀ data, r = .ok data → ∃ T ∈ m.tree :: m.past, ∃ fh,
    T.resolve root components = some fh ∧ Q (V.content fh) data

variable {V : Versions} {m m' : Moments Unit} {exportRoot root fh : FileHandle} {components : List String}
  {Q : Bytes → Bytes → Prop}

theorem returns_error (err : Error) : V.Returns root components Q (.error err) m := by
  intro data h
  cases h

/-- Data of the file that the path names now. -/
theorem returns_now {r : Except Error Bytes} (hnamed : m.tree.resolve root components = some fh)
    (hdata : ∀ data, r = .ok data → Q (V.content fh) data) : V.Returns root components Q r m := by
  intro data hr
  exact ⟨m.tree, List.mem_cons_self, fh, hnamed, hdata data hr⟩

/-! ### One version -/

/-- A version as a file by itself.  It is reached by its handle only: no path has an empty
component. -/
def file (V : Versions) (fh : FileHandle) (hle : fh.bytes.length ≤ 128) : ServedFile where
  components := [""]
  fh := fh
  bytes := V.content fh
  handle_le := hle
  size_lt := V.size_lt fh

theorem truthful_of_executed (hle : fh.bytes.length ≤ 128) {s : NfsSession} {ops tail : List NfsOp}
    {n : ℕ} {T : Files Unit} {t : Replies} (hasks : (V.file fh hle).Asks s ops n tail)
    (h : (V.server exportRoot).Executed T ops none t) : (V.file fh hle).Truthful ops t.results := by
  obtain ⟨hcase, htail⟩ := hasks
  intro p hp hop
  rcases hcase with ⟨-, rfl⟩ | ⟨-, rfl⟩
  · cases h with
    | refused => simp at hp
    | next hstep hrest =>
      cases hstep with
      | putFh =>
        rcases List.mem_cons.mp hp with rfl | hp
        · cases hop
        · exact (hrest.answers_object htail p hp).2
  · -- the empty name is not found
    cases h with
    | refused => simp at hp
    | next hstep hrest =>
      rcases List.mem_cons.mp hp with rfl | hlater
      · cases hop
      · cases hrest with
        | refused => cases hlater
        | next hlookup =>
          cases hlookup with
          | lookup hname => exact absurd rfl hname
          | object hon => cases hon

/-- **One version, seen through its handle,** is a file that does not change. -/
theorem answers_of_serve (hle : fh.bytes.length ≤ 128) {e : Effect} {r : e.Response}
    (h : (V.server exportRoot).serve e m r m') : (V.file fh hle).answers e () r () := by
  cases e with
  | exchange s tag ops =>
    obtain ⟨-, hfails, hdelivered⟩ := h
    refine ⟨hfails, ?_⟩
    intro slot response n tail hr hasks
    refine (hdelivered slot response hr).imp_right ?_
    rintro ⟨t, ht, hexec⟩
    exact ⟨t, ht, hexec.answers, truthful_of_executed hle hasks hexec⟩
  | reconnect => exact h.2
  | currentSession => exact h.1.1
  | _ => trivial

/-- A read by the handle of a file that the path names. -/
theorem ensures_handle (hle : fh.bytes.length ≤ 128) {p : Prog effects (Except Error Bytes)}
    {post : Except Error Bytes → Prop} (hnamed : m.tree.resolve root components = some fh)
    (hpost : ∀ data, post (.ok data) → Q (V.content fh) data)
    (h : Ensures (E := effects) (V.file fh hle).answers (fun _ => True) p () fun r _ => post r) :
    Ensures (E := effects) (V.server exportRoot).serve (fun _ => True) p m (V.Returns root components Q) := by
  have hview : Ensures (E := effects) (V.server exportRoot).serve (fun _ => True) p m fun r _ => post r :=
    Ensures.of_view (fun _ => ()) (fun _ _ _ _ => answers_of_serve hle) h
  have hkept : Ensures (E := effects) (V.server exportRoot).serve (fun m' => m.tree ∈ m'.tree :: m'.past) p m
      fun _ m' => m.tree ∈ m'.tree :: m'.past := by
    apply Ensures.of_kept
    · exact List.mem_cons_self
    · intro e w r w' hT hserve
      exact (PathServer.later_of_serve hserve).mem hT
  refine ((hview.and hkept).mono ?_).weaken fun _ _ => trivial
  rintro r m' - ⟨hr, hT⟩ data rfl
  exact ⟨m.tree, hT, fh, hnamed, hpost data hr⟩

/-- A request that follows the path. -/
theorem ensures_pathRead {s : NfsSession} {call : SessionCall} {tail : List NfsOp}
    (hcall : SessionCall.PathRead components call tail)
    {post : Except Error call.Result → Moments Unit → Prop}
    (herr : ∀ err m', post (.error err) m')
    (hok : ∀ value m' fh os, m'.tree.resolve s.exportRoot components = some fh →
      fh.bytes.length ≤ 128 → List.Forall₂ (FileAnswers fh (V.content fh)) tail os →
      call.value (.putFh :: (List.replicate components.length .lookup ++ os)) = some value →
      post (.ok value) m') :
    Ensures (E := effects) (V.server exportRoot).serve (fun _ => True) (liftM (s.call call) : ClientM _).run m
      post := by
  have hshape : call.ops s = exportPathOps s.exportRoot components ++ tail ∧
      (∀ op ∈ tail, op.onFile = true) ∧ tail ≠ [] ∧ ∀ op status, call.typed op status = none := by
    cases hcall <;> exact ⟨rfl, by simp [NfsOp.onFile], by simp, fun _ _ => rfl⟩
  obtain ⟨hops, htail, hne, htyped⟩ := hshape
  apply PathServer.ensures_call hops htail htyped
  · exact fun err m' _ => herr err m'
  · intro value m' fh os _ hresolve hos _ hvalue
    obtain ⟨op, tail, rfl⟩ := List.exists_cons_of_ne_nil hne
    have hle : fh.bytes.length ≤ 128 := by
      obtain ⟨o, os', ho, -, -⟩ := List.forall₂_cons_left_iff.mp hos
      exact ho.1
    exact hok value m' fh os hresolve hle (hos.imp fun _ _ h => h.2) hvalue

end Versions

/-! ### What the requests return -/

section

variable {fh : FileHandle} {F initial data : Bytes} {components : List String}
  {results : List OpRes} {n start len : ℕ} {requirements : ReadRequirements}

theorem FileAnswers.readPathAnonymousWithSize {count : ℕ} {value : FileHandle × UInt64 × ReadData}
    (hresults : List.Forall₂ (FileAnswers fh F)
      [.getFh, .getAttr .sizeAttr, .read .anonymous 0 count] results)
    (hvalue : (SessionCall.readPathAnonymousWithSize components count).value
      (.putFh :: (List.replicate n .lookup ++ results)) = some value) :
    value.1 = fh ∧ value.2.1 = .ofNat F.length ∧ Served F 0 count value.2.2 := by
  obtain ⟨o, os, ho, hos, rfl⟩ := List.forall₂_cons_left_iff.mp hresults
  obtain ⟨o', os', ho', hos', rfl⟩ := List.forall₂_cons_left_iff.mp hos
  obtain ⟨o'', os'', ho'', hos'', rfl⟩ := List.forall₂_cons_left_iff.mp hos'
  obtain ⟨handle, rfl, hhandle⟩ := ho.getFh
  obtain ⟨attrs, rfl, hattrs⟩ := ho'.getAttr
  obtain ⟨eof, data, rfl, hserved⟩ := ho''.read
  cases hos''
  have hsize : ([.getFh handle, .getAttr attrs, .read eof data] : List OpRes).findSome? OpRes.size?
      = some (.ofNat F.length) := by
    simp only [List.findSome?_cons, OpRes.size?, hattrs]
  simp only [SessionCall.value, SessionCall.findSome?_path OpRes.handle? rfl rfl,
    SessionCall.findSome?_path OpRes.size? rfl rfl, hsize,
    SessionCall.findSome?_path OpRes.read? rfl rfl] at hvalue
  cases hvalue
  exact ⟨congrArg FileHandle.mk hhandle, rfl, hserved⟩

theorem FileAnswers.lookupFileHandleAttrs {value : FileHandle × FileAttrs}
    (hresults : List.Forall₂ (FileAnswers fh F) [.getFh, .getAttr .sizeAttr] results)
    (hvalue : (SessionCall.lookupFileHandleAttrs components .size).value
      (.putFh :: (List.replicate n .lookup ++ results)) = some value) :
    value.1 = fh ∧ value.2.size = some (.ofNat F.length) := by
  obtain ⟨o, os, ho, hos, rfl⟩ := List.forall₂_cons_left_iff.mp hresults
  obtain ⟨o', os', ho', hos', rfl⟩ := List.forall₂_cons_left_iff.mp hos
  obtain ⟨handle, rfl, hhandle⟩ := ho.getFh
  obtain ⟨attrs, rfl, hattrs⟩ := ho'.getAttr
  cases hos'
  simp only [SessionCall.value, SessionCall.findSome?_path OpRes.handle? rfl rfl,
    SessionCall.findSome?_path OpRes.attrs? rfl rfl] at hvalue
  cases hvalue
  exact ⟨congrArg FileHandle.mk hhandle, hattrs⟩

/-- A read that succeeds has the range, and has seen the end that was expected. -/
theorem ReadRequirements.Ends.ok (h : requirements.Ends F initial start len (.ok data)) :
    data = initial ++ slice F start len ∧ ∀ e, requirements.expectedEof = some e →
      e.offset = max F.length start := by
  rcases h with ⟨observed, hobserved, -, hdata⟩ | ⟨err, herr, -⟩
  · unfold validateOptionalObservedEof at hdata
    split at hdata
    · next expected actual hexpected =>
      split at hdata
      · cases hdata
      · next heq =>
        cases hdata
        refine ⟨rfl, ?_⟩
        intro e he
        cases hexpected.symm.trans he
        rcases hobserved with hsome | ⟨hnone, -⟩
        · cases hsome
          exact not_not.mp heq
        · cases hnone
    · next hexpected =>
      cases hdata
      exact ⟨rfl, by simp [hexpected]⟩
    · cases hdata
  · cases herr

/-- The probe of a file that is expected to be empty. -/
theorem Served.empty_of_valid {read : ReadData} (h : Served F 0 1 read)
    (hvalid : validateEofExpectation (.callerSupplied 0) read.data.length read.eof = .ok ()) :
    F = [] := by
  unfold validateEofExpectation at hvalid
  dsimp only [ExpectedEof.offset] at hvalid
  split at hvalid
  · next heof =>
    have hend := h.eof.mp heof
    split at hvalid
    · exact List.eq_nil_of_length_eq_zero (by omega)
    · cases hvalid
  · split at hvalid
    · cases hvalid
    · next hnot => exact absurd (Nat.zero_le _) hnot

end

/-! ### Attempts -/

namespace Versions

variable {V : Versions} {m : Moments Unit} {exportRoot : FileHandle} {s : NfsSession} {components : List String}
  {client : NfsClient} {requirements : ReadRequirements} {start len : ℕ} {Q : Bytes → Bytes → Prop}

theorem ensures_readRangeAnonymous (hread : Readable s) (hrange : start + len < 2 ^ 64)
    (hpos : 0 < len) (hfits : ∀ F, requirements.Fits F 0 start len)
    (hexpected : ∀ e, requirements.expectedEof = some e → e.offset ≤ start + len)
    (hQ : ∀ F data, requirements.Ends F [] start len (.ok data) → Q F data) :
    Ensures (E := effects) (V.server exportRoot).serve (fun _ => True)
      (readRangeAnonymous s components start len requirements).run m
      (V.Returns s.exportRoot components Q) := by
  obtain ⟨hchunk, hgranularity⟩ := hread
  unfold readRangeAnonymous
  split
  · next hsingle =>
    have hsmall : len < 2 ^ 32 := by
      have hlt := s.config.readGranularity.toNat_lt
      unfold NfsSession.readGranularity at hsingle
      omega
    dsimp only
    rw [asU32_eq hsmall]
    apply ensures_bindExcept
    apply ensures_pathRead (.read start len)
    · exact fun err m' => returns_error err
    intro read m' fh os hnamed hle hos hvalue
    have hserved := FileAnswers.readPathAnonymous (x := V.file fh hle) hos hvalue
    have hshort := hserved.short
    apply ensures_bindExcept
    apply ensures_except trivial
    rw [hserved.validate hpos]
    apply ensures_bindExcept
    apply ensures_except trivial
    rw [hserved.within (hfits _)]
    dsimp only
    split
    · next hdone =>
      apply ensures_bindExcept
      apply ensures_except trivial
      rw [addU64_eq (by omega)]
      refine ensures_check trivial (returns_now hnamed fun data hr => hQ _ _ ?_)
      exact hr ▸ .inl (hserved.ended hdone hexpected)
    · -- another version may be found now, and nothing of the first one is kept
      apply ensures_bindExcept
      apply ensures_pathRead .lookup
      · exact fun err m' => returns_error err
      intro fh' m'' fh os hnamed hle hos hvalue
      cases FileAnswers.lookupFileHandle (x := V.file fh hle) hos hvalue
      exact ensures_handle hle hnamed (hQ _)
        (ensures_readHandleToBytes hchunk hgranularity hrange hpos (hfits _) hexpected)
  · next hlarge =>
    dsimp only
    apply ensures_bindExcept
    apply ensures_pathRead (.readHandle start s.readGranularity)
    · exact fun err m' => returns_error err
    rintro ⟨fh, read⟩ m' fh' os hnamed hle hos hvalue
    obtain ⟨hfh, hread⟩ :=
      FileAnswers.readPathAnonymousWithHandle (x := V.file fh' hle) hos hvalue
    cases hfh
    dsimp only at hread ⊢
    have hshort := hread.short
    have hserved : Served (V.content fh) start len read := hread.mono hgranularity (by omega)
    have hadd : addU64 start read.data.length = .ok (start + read.data.length) :=
      addU64_eq (by omega)
    apply ensures_bindExcept
    apply ensures_except trivial
    rw [hread.validate hgranularity]
    apply ensures_bindExcept
    apply ensures_except trivial
    rw [hserved.within (hfits _)]
    dsimp only
    split
    · next heof =>
      have hdone : (!readNeedsRetry read len) = true := by simp [readNeedsRetry, heof]
      apply ensures_bindExcept
      apply ensures_except trivial
      rw [hadd]
      refine ensures_check trivial (returns_now hnamed fun data hr => hQ _ _ ?_)
      exact hr ▸ .inl (heof ▸ hserved.ended hdone hexpected)
    · next heof =>
      -- the rest is read from the handle that came with the first bytes
      have hbelow : start + read.data.length < (V.content fh).length :=
        Nat.lt_of_not_le fun hle => heof (hserved.eof.mpr hle)
      apply ensures_bindExcept
      apply ensures_except trivial
      rw [hadd]
      apply ensures_bindExcept
      apply ensures_except trivial
      rw [subU64_eq (by omega)]
      refine ensures_handle hle hnamed ?_ (ensures_readHandleToBytesAfterPrefix hchunk hgranularity
        (by omega) (by omega) (hserved.fits_rest (hfits _)))
      exact fun data hdata => hQ _ _ (hdata.imp_left (hserved.ended_append hbelow))

theorem ensures_getOnce (hlimit : client.maxBufferedReadSize ≠ some 0) (hread : Readable s) :
    Ensures (E := effects) (V.server exportRoot).serve (fun _ => True) (client.getOnce s components).run m
      (V.Returns s.exportRoot components fun F data => data = F) := by
  obtain ⟨hchunk, hgranularity⟩ := hread
  have hcount := smallGetProbeCount_pos (s := s) hlimit hgranularity
  unfold NfsClient.getOnce
  apply ensures_bindExcept
  apply ensures_pathRead (.readSize _)
  · exact fun err m' => returns_error err
  rintro ⟨fh, size, read⟩ m' fh' os hnamed hle hos hvalue
  obtain ⟨hfh, hsize, hserved⟩ := FileAnswers.readPathAnonymousWithSize hos hvalue
  dsimp only at hfh hsize hserved ⊢
  subst hfh hsize
  have hlength : (UInt64.ofNat (V.content fh).length).toNat = (V.content fh).length :=
    UInt64.toNat_ofNat_of_lt' (V.size_lt fh)
  rw [hlength]
  apply ensures_bindExcept
  apply ensures_except trivial
  rw [hserved.validate hcount]
  apply ensures_bindExcept
  apply ensures_except trivial
  obtain ⟨hlimited, hok⟩ | ⟨err, herr, -⟩ :=
    client.ensureKnownSizeWithinLimit_cases (V.content fh).length
  · rw [hok]
    dsimp only
    split
    · next hfull =>
      refine ensures_check trivial (returns_now hnamed ?_)
      intro data hdata
      cases hvalid : validateEofExpectation (.resolvedWithFile (V.content fh).length)
          read.data.length read.eof with
      | error err =>
        rw [hvalid] at hdata
        cases hdata
      | ok _ =>
        rw [hvalid] at hdata
        cases hdata
        rw [hserved.data, hfull, slice_whole]
    · split
      · exact ensures_throw trivial (returns_error _)
      · split
        · exact ensures_throw trivial (returns_error _)
        · next hne hnot heof =>
          have hlt := V.size_lt fh
          apply ensures_bindExcept
          apply ensures_except trivial
          rw [subU64_eq (by omega)]
          refine ensures_handle hle hnamed ?_ (ensures_readHandleToBytesAfterPrefix hchunk
            hgranularity (by omega) (by omega) ?_)
          · intro data hdata
            have happend := hserved.append_slice ((V.content fh).length - read.data.length)
            rw [Nat.zero_add, Nat.add_sub_of_le (by omega), slice_whole] at happend
            exact hdata.ok.1.trans happend
          · intro l hl
            have hle := hlimited l hl
            change read.data.length + (slice (V.content fh) _ _).length ≤ l
            rw [length_slice]
            omega
  · rw [herr]
    exact returns_error err

theorem ensures_getRangeOnce {«end» : ℕ} (hread : Readable s) (hrange : start < «end»)
    (hend : «end» < 2 ^ 64) :
    Ensures (E := effects) (V.server exportRoot).serve (fun _ => True)
      (client.getRangeOnce s components start «end»).run m
      (V.Returns s.exportRoot components fun F data => data = slice F start («end» - start)) := by
  unfold NfsClient.getRangeOnce
  apply ensures_bindExcept
  apply ensures_except trivial
  rw [subU64_eq (by omega)]
  dsimp only
  split
  · next hsmall =>
    refine ensures_readRangeAnonymous hread (by omega) (by omega) ?_
      (by simp [ReadRequirements.new]) fun _ _ hdata => hdata.ok.1
    -- no result can exceed the limit
    intro F l hl
    have hle : «end» - start ≤ l := by
      change client.maxBufferedReadSize = some l at hl
      rw [rangeReadNeedsSize, hl] at hsmall
      simpa using hsmall
    rw [length_slice]
    omega
  · apply ensures_bindExcept
    apply ensures_pathRead .attrs
    · exact fun err m' => returns_error err
    rintro ⟨fh, attrs⟩ m' fh' os hnamed hle hos hvalue
    obtain ⟨hfh, hattrs⟩ := FileAnswers.lookupFileHandleAttrs hos hvalue
    dsimp only at hfh hattrs ⊢
    subst hfh
    have hlength : (UInt64.ofNat (V.content fh).length).toNat = (V.content fh).length :=
      UInt64.toNat_ofNat_of_lt' (V.size_lt fh)
    have hexpected : bufferedRangeLen start «end» (attrs.size.map UInt64.toNat)
        = .ok (slice (V.content fh) start («end» - start)).length := by
      rw [hattrs, Option.map_some, hlength, bufferedRangeLen, length_slice]
      split
      · congr 1
        omega
      · congr 1
        omega
    generalize hsize : (slice (V.content fh) start («end» - start)).length = size at hexpected
    apply ensures_bindExcept
    apply ensures_except trivial
    rw [hexpected]
    apply ensures_bindExcept
    apply ensures_except trivial
    obtain ⟨hlimited, hok⟩ | ⟨err, herr, -⟩ := client.ensureKnownSizeWithinLimit_cases size
    · have hcut := hsize
      rw [length_slice] at hcut
      have hmin : min size («end» - start) = size := by omega
      rw [hok]
      dsimp only
      rw [hmin]
      split
      · next hzero =>
        refine ensures_pure trivial (returns_now hnamed ?_)
        rintro data ⟨⟩
        exact (List.eq_nil_of_length_eq_zero (hsize.trans hzero)).symm
      · next hpos =>
        refine ensures_handle hle hnamed ?_ (ensures_readHandleToBytes hread.1 hread.2 (by omega)
          (by omega) ?_ (by simp [ReadRequirements.new]))
        · intro data hdata
          refine hdata.ok.1.trans ?_
          change slice (V.content fh) start size = _
          rcases Nat.le_total («end» - start) ((V.content fh).length - start) with hfull | hend
          · rw [Nat.min_eq_left hfull] at hcut
            rw [← hcut]
          · exact slice_eq_slice (by omega) (by omega)
        · intro l hl
          have hle := hlimited l hl
          change 0 + (slice (V.content fh) _ _).length ≤ l
          rw [length_slice]
          omega
    · rw [herr]
      exact returns_error err

/-- With a size that is known, a file of another size is refused. -/
theorem ensures_getKnownSizeOnce {size : ℕ} (hread : Readable s) (hsize : size < 2 ^ 64) :
    Ensures (E := effects) (V.server exportRoot).serve (fun _ => True)
      (client.getKnownSizeOnce s components size).run m
      (V.Returns s.exportRoot components fun F data => data = F ∧ F.length = size) := by
  unfold NfsClient.getKnownSizeOnce
  apply ensures_bindExcept
  apply ensures_except trivial
  obtain ⟨hlimited, hok⟩ | ⟨err, herr, -⟩ := client.ensureKnownSizeWithinLimit_cases size
  · rw [hok]
    dsimp only
    split
    · next hzero =>
      subst hzero
      apply ensures_bindExcept
      apply ensures_pathRead (.read 0 1)
      · exact fun err m' => returns_error err
      intro read m' fh os hnamed hle hos hvalue
      have hserved := FileAnswers.readPathAnonymous (x := V.file fh hle) hos hvalue
      apply ensures_bindExcept
      apply ensures_except trivial
      rw [hserved.validate Nat.one_pos]
      refine ensures_check trivial (returns_now hnamed ?_)
      intro data hdata
      cases hvalid : validateEofExpectation (.callerSupplied 0) read.data.length read.eof with
      | error err =>
        rw [hvalid] at hdata
        cases hdata
      | ok _ =>
        rw [hvalid] at hdata
        cases hdata
        have hempty := hserved.empty_of_valid hvalid
        exact ⟨hempty.symm, congrArg List.length hempty⟩
    · next hpos =>
      refine ensures_readRangeAnonymous hread (by omega) (by omega) ?_ ?_ ?_
      · intro F l hl
        have hle := hlimited l hl
        rw [length_slice]
        omega
      · rintro _ ⟨⟩
        exact Nat.le_of_eq (Nat.zero_add size).symm
      · intro F data hdata
        obtain ⟨hslice, hend⟩ := hdata.ok
        have hlen : F.length = size := by
          have heof : size = max F.length 0 := hend _ rfl
          omega
        refine ⟨?_, hlen⟩
        rw [hslice, List.nil_append, ← hlen, slice_whole]
  · rw [herr]
    exact returns_error err

end Versions

open Versions

/-- **An attempt of a read returns one version.**  Whatever others publish or remove while it
runs, and whatever the limits of the session, the number of slots, the lengths of the replies
and their order: the data is the whole content of a file that the path named at some moment of
the call, or the part of such a file in the range, cut at its end. -/
theorem get_one_version (V : Versions) (client : NfsClient) (s : NfsSession)
    (components : List String) (T : Files Unit) (start «end» : ℕ)
    (hlimit : client.maxBufferedReadSize ≠ some 0) (hread : Readable s) (hrange : start < «end»)
    (hend : «end» < 2 ^ 64) :
    Ensures (E := effects) (V.server s.exportRoot).serve (fun _ => True) (client.getOnce s components).run
      ⟨T, []⟩ (fun r m => ∀ data, r = .ok data → ∃ T' ∈ m.tree :: m.past, ∃ fh,
        T'.resolve s.exportRoot components = some fh ∧ data = V.content fh) ∧
    Ensures (E := effects) (V.server s.exportRoot).serve (fun _ => True)
      (client.getRangeOnce s components start «end»).run
      ⟨T, []⟩ (fun r m => ∀ data, r = .ok data → ∃ T' ∈ m.tree :: m.past, ∃ fh,
        T'.resolve s.exportRoot components = some fh ∧
          data = slice (V.content fh) start («end» - start)) :=
  ⟨ensures_getOnce hlimit hread, ensures_getRangeOnce hread hrange hend⟩

/-- A directory with one file. -/
def oneFile : Files Unit where
  node h :=
    if h = ⟨[1]⟩ then some (.dir fun name => if name = "f" then some ⟨[7]⟩ else none)
    else if h = ⟨[7]⟩ then some (.file ()) else none
  closed {d entries name h} hdir hentry := by
    split at hdir
    · cases hdir
      dsimp only at hentry
      split at hentry
      · cases hentry
        rfl
      · cases hentry
    · split at hdir
      · cases hdir
      · cases hdir

/-- Every file has the same three bytes. -/
def sameBytes : Versions where
  content _ := [1, 2, 3]
  size_lt _ := by decide

theorem get_one_version_oneFile :
    Readable plainSession ∧
    Ensures (E := effects) (sameBytes.server ⟨[1]⟩).serve (fun _ => True)
      (NfsClient.getOnce ⟨some 8⟩ plainSession ["f"]).run
      ⟨oneFile, []⟩ (fun r m => ∀ data, r = .ok data → ∃ T' ∈ m.tree :: m.past, ∃ fh,
        T'.resolve ⟨[1]⟩ ["f"] = some fh ∧ data = [1, 2, 3]) :=
  ⟨by decide, (get_one_version sameBytes ⟨some 8⟩ plainSession ["f"] oneFile 1 3 (by decide)
    (by decide) (by decide) (by decide)).1⟩

/-- The rule for the attempts of a read. -/
theorem Versions.ensures_attempts {V : Versions} {exportRoot : FileHandle} {m : Moments Unit}
    {components : List String} {Q : Bytes → Bytes → Prop} {operation : ClientSession → ClientM Bytes}
    (h : ∀ snapshot m, Readable snapshot.session → Ensures (E := effects)
      (V.server exportRoot).serve (fun _ => True) (operation snapshot).run m
      (V.Returns snapshot.session.exportRoot components Q)) :
    Ensures (E := effects) (V.server exportRoot).serve (fun _ => True)
      (retryingSessionOperation operation).run m (V.Returns exportRoot components Q) := by
  apply ensures_retryingSessionOperation (fun _ => True) trivial (fun _ _ => trivial)
  · rintro _ snapshot w - ⟨⟨hread, rfl⟩, rfl⟩
    refine ⟨trivial, (h snapshot w hread).mono ?_⟩
    exact fun r w' _ hr => ⟨hr, fun _ _ _ => trivial⟩
  · intro generation n cause w r w' _ _
    exact ⟨trivial, fun err _ => returns_error err⟩

/-- **The operations return one version.**  However often the session is replaced and a read
starts again, `get` returns the whole of a file that the path named at some moment of the call,
`get_known_size` does so only for a file of that size, and `get_range` returns the part of such
a file in the range, cut at its end. -/
theorem reads_one_version (V : Versions) (exportRoot : FileHandle) (client : NfsClient)
    (rawPath : String) (path : NfsPath) (T : Files Unit) (start «end» size : ℕ)
    (hlimit : client.maxBufferedReadSize ≠ some 0) (hpath : NfsPath.file rawPath = .ok path)
    (hend : «end» < 2 ^ 64) (hsize : size < 2 ^ 64) :
    Ensures (E := effects) (V.server exportRoot).serve (fun _ => True) (client.get rawPath).run
      ⟨T, []⟩ (V.Returns exportRoot path.components fun F data => data = F) ∧
    Ensures (E := effects) (V.server exportRoot).serve (fun _ => True)
      (client.getKnownSize rawPath size).run
      ⟨T, []⟩ (V.Returns exportRoot path.components fun F data => data = F ∧ F.length = size) ∧
    (start < «end» → Ensures (E := effects) (V.server exportRoot).serve (fun _ => True)
      (client.getRange rawPath start «end»).run ⟨T, []⟩
      (V.Returns exportRoot path.components fun F data => data = slice F start («end» - start))) := by
  refine ⟨?_, ?_, ?_⟩
  · unfold NfsClient.get
    apply ensures_bindExcept
    apply ensures_except trivial
    rw [hpath]
    exact ensures_attempts fun snapshot m hread => ensures_getOnce hlimit hread
  · unfold NfsClient.getKnownSize
    apply ensures_bindExcept
    apply ensures_except trivial
    rw [hpath]
    exact ensures_attempts fun snapshot m hread => ensures_getKnownSizeOnce hread hsize
  · intro hrange
    unfold NfsClient.getRange
    apply ensures_bindExcept
    apply ensures_except trivial
    rw [hpath]
    dsimp only
    rw [if_neg (by omega)]
    exact ensures_attempts fun snapshot m hread => ensures_getRangeOnce hread hrange hend

theorem reads_one_version_oneFile :
    NfsPath.file "/f" = .ok ⟨["f"]⟩ ∧
    Ensures (E := effects) (sameBytes.server ⟨[1]⟩).serve (fun _ => True)
      (NfsClient.getRange ⟨some 8⟩ "/f" 1 3).run ⟨oneFile, []⟩
      (sameBytes.Returns ⟨[1]⟩ ["f"] fun F data => data = slice F 1 2) :=
  ⟨by decide +kernel, (reads_one_version sameBytes ⟨[1]⟩ ⟨some 8⟩ "/f" ⟨["f"]⟩ oneFile 1 3 3
    (by decide) (by decide +kernel) (by decide) (by decide)).2.2 (by decide)⟩

end NfsCrust
