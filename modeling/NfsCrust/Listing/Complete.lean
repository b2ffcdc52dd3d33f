import NfsCrust.Delivery
import NfsCrust.Limits
import NfsCrust.Listing.Program
import NfsCrust.Server.Script

/-!
# A listing of a whole directory

A caller that starts without a token and follows `next_token`, with any positive number of
entries for each call, gets the whole directory: against a server that answers with pages
of its own choice, the calls come to an end, and their entries together are those of the
directory without `.` and `..`, in its order.

The position between two calls is the cookie of the last entry taken.  As the cookies of a
directory differ, it determines the entries that are still to come, and every call that is
not the last takes at least one of them.

## Main definitions

* `Directory` — the entries of a directory, with their cookies.
* `servesDirectory` — a server that has the directory.
* `listAll` — following the tokens.

## Main results

* `listingPage_spec` — what a page takes from the entries the server sent.
* `listAll_complete` — the calls end with the whole directory.
-/

namespace NfsCrust

open Interaction

/-! ### Directories -/

/-- The entries of a directory: their cookies are not zero and tell them apart, and their
names are UTF-8. -/
structure Directory where
  entries : List DirEntryRes
  cookies_nodup : (entries.map DirEntryRes.cookie).Nodup
  cookies_ne_zero : ∀ e ∈ entries, e.cookie ≠ 0
  names : ∀ e ∈ entries, e.Supported

namespace Directory

variable {D : Directory}

/-- The entries after a cookie; zero stands before the first one. -/
def after (D : Directory) (cookie : UInt64) : List DirEntryRes :=
  if cookie = 0 then D.entries else (D.entries.dropWhile (·.cookie != cookie)).tail

@[simp] theorem after_zero : D.after 0 = D.entries := if_pos rfl

theorem after_sublist (D : Directory) (cookie : UInt64) : (D.after cookie).Sublist D.entries := by
  unfold after
  split
  · exact List.Sublist.refl _
  · exact (List.tail_sublist _).trans (List.dropWhile_sublist _)

/-- The entries after the cookie of an entry are those that follow it. -/
theorem after_cookie {taken left : List DirEntryRes} {e : DirEntryRes}
    (h : D.entries = taken ++ e :: left) : D.after e.cookie = left := by
  have hne : e.cookie ≠ 0 := D.cookies_ne_zero e (by simp [h])
  have hnodup := D.cookies_nodup
  rw [h, List.map_append, List.map_cons, List.nodup_append] at hnodup
  have htaken : ∀ x ∈ taken, (x.cookie != e.cookie) = true := by
    intro x hx
    have := hnodup.2.2 x.cookie (List.mem_map_of_mem hx) e.cookie List.mem_cons_self
    simpa using this
  rw [after, if_neg hne, h, List.dropWhile_append_of_pos htaken,
    List.dropWhile_cons_of_neg (by simp), List.tail_cons]

/-- The cookie of an entry is not one of those that follow. -/
theorem cookie_not_mem {taken left : List DirEntryRes} {e x : DirEntryRes}
    (h : D.entries = taken ++ e :: left) (hx : x ∈ left) : x.cookie ≠ e.cookie := by
  have hnodup := D.cookies_nodup
  rw [h, List.map_append, List.map_cons, List.nodup_append, List.nodup_cons] at hnodup
  intro heq
  exact hnodup.2.1.1 (heq ▸ List.mem_map_of_mem hx)

end Directory

/-! ### The server -/

/-- What a server that has `D` may answer to a `READDIR` from a cookie. -/
structure PageOf (D : Directory) (cookie : UInt64) (listed : List DirEntryRes) (eof : Bool) :
    Prop where
  consecutive : listed <+: D.after cookie
  progress : listed = [] → D.after cookie = []
  eof : eof = true ↔ listed = D.after cookie

/-- The results of a `READDIR` at the end of a path. -/
def listingResults (components : List String) (verifier : Verifier) (listed : List DirEntryRes)
    (eof : Bool) : List OpRes :=
  .putFh :: (List.replicate components.length .lookup ++ [.readDir verifier listed eof])

/-- The negotiated limits admit a listing of the path. -/
def NfsSession.AdmitsListing (s : NfsSession) (components : List String) : Prop :=
  ∀ cookie verifier hint, s.validateCompoundRequest "readdir-path"
    ((SessionCall.readDirPathPageWithoutHandle components cookie verifier hint).ops s) = .ok ()

/-- A server that has the directory at the path, for clients whose sessions admit the
request.  Nothing is said about other requests. -/
def servesDirectory (components : List String) (D : Directory) (e : Effect) (_ : Unit)
    (r : e.Response) (_ : Unit) : Prop :=
  match e, r with
  | .exchange s _ ops, r => ∀ cookie verifier dircount maxcount attrs,
      ops = exportPathOps s.exportRoot components
        ++ [.readDir cookie verifier dircount maxcount attrs] →
      ∃ slot response verifier' listed eof, r = .ok (slot, response) ∧
        Delivered slot ⟨listingResults components verifier' listed eof, none⟩ response ∧
        PageOf D cookie listed eof
  | .currentSession, snapshot =>
      NfsSession.AdmitsListing (ClientSession.session snapshot) components
  | _, _ => True

section

variable {components : List String} {D : Directory}

theorem answers_listingResults (s : NfsSession) (cookie : UInt64) (verifier verifier' : Verifier)
    (hint : Option ℕ) (listed : List DirEntryRes) (eof : Bool) :
    Replies.Answers (((SessionCall.readDirPathPageWithoutHandle components cookie verifier
      hint).ops s).map NfsOp.opcode) ⟨listingResults components verifier' listed eof, none⟩ := by
  refine Replies.answers_of_map_opcode ?_
  simp [SessionCall.ops, listingResults, readdirOp, OpRes.opcode, NfsOp.opcode]

theorem pageOf_after (D : Directory) (cookie : UInt64) : PageOf D cookie (D.after cookie) true :=
  ⟨List.prefix_refl _, id, by simp⟩

/-- A server may answer with all the entries that are left. -/
theorem servesDirectory_answer (s : NfsSession) (tag : String) (ops : List NfsOp)
    (hshort : components.length + 3 < 2 ^ 32) :
    ∃ r w', servesDirectory components D (.exchange s tag ops) () r w' := by
  by_cases hops : ∃ cookie verifier dircount maxcount attrs,
      ops = exportPathOps s.exportRoot components
        ++ [.readDir cookie verifier dircount maxcount attrs]
  · obtain ⟨cookie, verifier, dircount, maxcount, attrs, rfl⟩ := hops
    have hlen : (Replies.mk (listingResults components (.replicate 8 0) (D.after cookie) true)
        none).length + 1 < 2 ^ 32 := by
      simpa [listingResults, Replies.length] using hshort
    obtain ⟨response, hresponse⟩ := exists_delivered ⟨.replicate 16 0, 1, 0⟩ hlen
    refine ⟨.ok (⟨.replicate 16 0, 1, 0⟩, response), (), ?_⟩
    intro cookie' verifier' dircount' maxcount' attrs' heq
    cases (List.append_cancel_left heq)
    exact ⟨_, response, _, _, _, rfl, hresponse, pageOf_after D cookie⟩
  · refine ⟨.error (.connectionLost ""), (), ?_⟩
    intro cookie verifier dircount maxcount attrs heq
    exact absurd ⟨cookie, verifier, dircount, maxcount, attrs, heq⟩ hops

/-- The client takes a page of the directory. -/
theorem finishes_readDirPage {s : NfsSession} (hadmits : s.AdmitsListing components)
    (cookie : UInt64) (verifier : Verifier) (hint : Option ℕ) :
    Thread.Finishes (E := effects) (servesDirectory components D)
      (fun r _ => ∃ verifier' listed eof, r = .ok (listingPage hint verifier' eof listed [] 0) ∧
        PageOf D cookie listed eof) 1
      (s.call (.readDirPathPageWithoutHandle components cookie verifier hint)).run () := by
  have hvalid := hadmits cookie verifier hint
  have hshort := NfsSession.length_lt_of_validate hvalid
  simp only [SessionCall.ops, exportPathOps, List.length_append, List.length_cons, List.length_map,
    List.length_nil] at hshort
  refine finishes_call hvalid (servesDirectory_answer _ _ _ (by omega)) fun resp _ hserve => ?_
  obtain ⟨slot, response, verifier', listed, eof, rfl, hdelivered, hpage⟩ :=
    hserve cookie verifier _ _ .empty rfl
  have hnames : ∀ v l e, .readDir v l e ∈ listingResults components verifier' listed eof →
      ∀ e ∈ l, e.Supported := by
    intro v l e hmem e he
    simp only [listingResults, List.mem_cons, List.mem_append, List.mem_replicate, reduceCtorEq,
      and_false, false_or, OpRes.readDir.injEq, List.not_mem_nil, or_false] at hmem
    obtain ⟨-, rfl, -⟩ := hmem
    exact D.names e (D.after_sublist cookie |>.subset (hpage.consecutive.subset he))
  obtain ⟨page, hreceived, hvalue⟩ := SessionCall.received_complete (s := s)
    (.readDirPathPageWithoutHandle components cookie verifier hint) hdelivered
    (answers_listingResults s cookie verifier verifier' hint listed eof)
    ⟨by simp [listingResults], by simp [listingResults], by simp [listingResults], hnames, trivial⟩
  have hlisted : (listingResults components verifier' listed eof).findSome? (OpRes.page? hint)
      = some (listingPage hint verifier' eof listed [] 0) := by
    rw [listingResults, SessionCall.findSome?_path _ rfl rfl]
    rfl
  refine ⟨page, hreceived, verifier', listed, eof, ?_, hpage⟩
  exact congrArg Except.ok (Option.some.inj (hvalue.symm.trans hlisted))

end

/-! ### Pages -/

/-- What a page of at most `m` entries takes from the entries the server sent. -/
theorem listingPage_spec (m : ℕ) (verifier : Verifier) (eof : Bool) (listed : List DirEntryRes)
    (entries : List DirEntry) (lastCookie : UInt64) :
    ∃ taken rest, listed = taken ++ rest ∧
      (listingPage (some m) verifier eof listed entries lastCookie).entries
        = entries ++ taken.filterMap DirEntryRes.entry? ∧
      (listingPage (some m) verifier eof listed entries lastCookie).lastCookie
        = (taken.getLast?.map DirEntryRes.cookie).getD lastCookie ∧
      ((listingPage (some m) verifier eof listed entries lastCookie).eof = true ↔
        rest = [] ∧ eof = true) ∧
      (entries.length ≤ m → (listingPage (some m) verifier eof listed entries
        lastCookie).entries.length ≤ m) ∧
      (taken = [] → listed = [] ∨ m = entries.length) := by
  induction listed generalizing entries lastCookie with
  | nil =>
    exact ⟨[], [], rfl, by simp [listingPage], rfl, by simp [listingPage], id, fun _ => .inl rfl⟩
  | cons e listed ih =>
    rw [listingPage]
    by_cases hfull : some m = some entries.length
    · -- the page is full
      rw [if_pos hfull]
      exact ⟨[], e :: listed, rfl, by simp, rfl, by simp, id, fun _ => .inr (Option.some.inj hfull)⟩
    · rw [if_neg hfull]
      have hroom : entries.length ≠ m := fun h => hfull (by rw [h])
      obtain ⟨taken, rest, rfl, hentries, hlast, heof, hlen, -⟩ :=
        ih (entries ++ e.entry?.toList) e.cookie
      refine ⟨e :: taken, rest, rfl, ?_, ?_, heof, fun hle => hlen ?_, by simp⟩
      · rw [hentries]
        cases hentry : e.entry? with
        | none => simp [hentry]
        | some entry => simp [hentry]
      · rw [hlast, List.getLast?_cons]
        cases taken.getLast? with
        | none => rfl
        | some last => rfl
      · rw [List.length_append]
        cases e.entry? with
        | none => simpa using hle
        | some entry =>
          simp only [Option.toList_some, List.length_singleton]
          omega

theorem listingPage_verifier (m : ℕ) (verifier : Verifier) (eof : Bool) (listed : List DirEntryRes)
    (entries : List DirEntry) (lastCookie : UInt64) :
    (listingPage (some m) verifier eof listed entries lastCookie).verifier = verifier := by
  induction listed generalizing entries lastCookie with
  | nil => rfl
  | cons e listed ih =>
    rw [listingPage]
    split
    · rfl
    · exact ih _ _

/-! ### Following the tokens -/

/-- The loop variables of a caller that follows the tokens. -/
structure Listing where
  results : List ListResult := []
  token : Option ContinuationToken := none

/-- Call `list_page` until it returns no token, with a number of entries for each call. -/
def listAll (directory : String) (maxEntries : ℕ → ℕ) : ClientM (List ListResult) :=
  Prog.loopExcept (fun x : Listing => do
    let result ← listPage directory (maxEntries x.results.length) x.token
    match result.nextToken with
    | some token => return .inl { results := x.results ++ [result], token := some token }
    | none => return .inr (x.results ++ [result])) {}

/-- The results so far are those of the entries before `left`, and the next call starts
there. -/
structure Listing.Before (D : Directory) (directory : String) (maxEntries : ℕ → ℕ)
    (left : List DirEntryRes) (x : Listing) : Prop where
  results : ∃ taken, D.entries = taken ++ left ∧ x.results.length ≤ taken.length ∧
    x.results.flatMap ListResult.entries
      = (taken.filterMap DirEntryRes.entry?).map (listEntry directory)
  position : ∃ cookie verifier, startPosition x.token directory = .ok (cookie, verifier) ∧
    D.after cookie = left ∧ ∀ e ∈ left, e.cookie ≠ cookie
  bounded : ∀ k result, x.results[k]? = some result → result.entries.length ≤ maxEntries k
  more : left ≠ [] ∨ x.results = []

/-- The results are those of the whole directory. -/
structure Listing.Complete (D : Directory) (directory : String) (maxEntries : ℕ → ℕ)
    (results : List ListResult) : Prop where
  entries : results.flatMap ListResult.entries
    = (D.entries.filterMap DirEntryRes.entry?).map (listEntry directory)
  bounded : ∀ k result, results[k]? = some result → result.entries.length ≤ maxEntries k
  calls : results.length ≤ max 1 D.entries.length

section

variable {D : Directory} {directory : String} {maxEntries : ℕ → ℕ} {taken rest : List DirEntryRes}
  {x : Listing} {result : ListResult}

/-- One more result within its bound. -/
theorem Listing.bounded_append {results : List ListResult}
    (h : ∀ k result, results[k]? = some result → result.entries.length ≤ maxEntries k)
    (hlen : result.entries.length ≤ maxEntries results.length) (k : ℕ) (r : ListResult)
    (hr : (results ++ [result])[k]? = some r) : r.entries.length ≤ maxEntries k := by
  rcases Nat.lt_trichotomy k results.length with hlt | rfl | hgt
  · rw [List.getElem?_append_left hlt] at hr
    exact h k r hr
  · rw [List.getElem?_concat_length] at hr
    cases hr
    exact hlen
  · rw [List.getElem?_eq_none (by simp; omega)] at hr
    cases hr

/-- The last call. -/
theorem Listing.Before.complete (h : Before D directory maxEntries taken x)
    (hentries : result.entries
      = (taken.filterMap DirEntryRes.entry?).map (listEntry directory))
    (hlen : result.entries.length ≤ maxEntries x.results.length) :
    Complete D directory maxEntries (x.results ++ [result]) := by
  obtain ⟨before, hD, hcalls, hbefore⟩ := h.results
  refine ⟨?_, bounded_append h.bounded hlen, ?_⟩
  · rw [List.flatMap_append, hbefore, hD, List.filterMap_append, List.map_append, ← hentries]
    simp
  · rw [hD, List.length_append, List.length_append, List.length_singleton]
    rcases h.more with hmore | hnone
    · have := List.length_pos_iff.mpr hmore
      omega
    · rw [hnone, List.length_nil]
      omega

/-- A call before the last one. -/
theorem Listing.Before.advance (h : Before D directory maxEntries (taken ++ rest) x)
    (hentries : result.entries
      = (taken.filterMap DirEntryRes.entry?).map (listEntry directory))
    (hlen : result.entries.length ≤ maxEntries x.results.length) {e : DirEntryRes}
    (hlast : taken.getLast? = some e) (hrest : rest ≠ []) (verifier : Verifier) :
    Before D directory maxEntries rest
      { results := x.results ++ [result], token := some ⟨directory, e.cookie, verifier⟩ } := by
  obtain ⟨before, hD, hcalls, hbefore⟩ := h.results
  have hne : taken ≠ [] := by
    rintro rfl
    cases hlast
  have htaken : taken = taken.dropLast ++ [e] := by
    rw [List.dropLast_append_getLast? e hlast]
  have hposition : D.entries = (before ++ taken.dropLast) ++ e :: rest := by
    rw [hD, htaken]
    simp
  refine ⟨⟨before ++ taken, by rw [hD, List.append_assoc], ?_, ?_⟩, ?_,
    bounded_append h.bounded hlen, Or.inl hrest⟩
  · have := List.length_pos_iff.mpr hne
    rw [List.length_append, List.length_append, List.length_singleton]
    omega
  · rw [List.flatMap_append, hbefore, List.filterMap_append, List.map_append, ← hentries]
    simp
  · refine ⟨e.cookie, verifier, ?_, D.after_cookie hposition,
      fun y hy => D.cookie_not_mem hposition hy⟩
    simp [startPosition, ContinuationToken.listPosition]

end

/-- A page of the entries that are left takes the first of them.  It is the last page exactly
when it takes them all, and otherwise its token stands for the entries it leaves. -/
theorem exists_listResult (directory : String) {D : Directory} {left : List DirEntryRes}
    {cookie : UInt64} (hafter : D.after cookie = left) (hcookie : ∀ e ∈ left, e.cookie ≠ cookie)
    {m : ℕ} (hm : 0 < m) {verifier : Verifier} {listed : List DirEntryRes} {eof : Bool}
    (h : PageOf D cookie listed eof) :
    ∃ result taken rest, left = taken ++ rest ∧
      listResult directory cookie (listingPage (some m) verifier eof listed [] 0) = .ok result ∧
      result.entries = (taken.filterMap DirEntryRes.entry?).map (listEntry directory) ∧
      result.entries.length ≤ m ∧
      (result.nextToken = none ∧ rest = [] ∨
        ∃ e, result.nextToken = some ⟨directory, e.cookie, verifier⟩ ∧ rest ≠ [] ∧
          taken.getLast? = some e) := by
  obtain ⟨taken, skipped, rfl, hentries, hlast, heof, hlen, hnone⟩ :=
    listingPage_spec m verifier eof listed [] 0
  have hverifier := listingPage_verifier m verifier eof (taken ++ skipped) [] 0
  generalize listingPage (some m) verifier eof (taken ++ skipped) [] 0 = page at *
  obtain ⟨beyond, hbeyond⟩ := h.consecutive
  rw [hafter] at hbeyond
  have hleft : left = taken ++ (skipped ++ beyond) := by rw [← hbeyond, List.append_assoc]
  -- a page is the last one exactly when nothing is skipped and nothing lies beyond it
  have hdone : page.eof = true ↔ skipped ++ beyond = [] := by
    rw [heof, h.eof, hafter, ← hbeyond, List.append_eq_nil_iff]
    refine and_congr_right fun _ => ?_
    simp
  have hresult : ∀ token, nextToken directory cookie page = .ok token →
      listResult directory cookie page
        = .ok { entries := page.entries.map (listEntry directory), nextToken := token } := by
    intro token htoken
    rw [listResult, htoken]
    rfl
  have hlength : (page.entries.map (listEntry directory)).length ≤ m := by
    rw [List.length_map]
    exact hlen (Nat.zero_le m)
  by_cases hlastPage : page.eof = true
  · have htoken : nextToken directory cookie page = .ok none := if_pos hlastPage
    exact ⟨_, taken, _, hleft, hresult _ htoken, by rw [hentries]; rfl, hlength,
      Or.inl ⟨rfl, hdone.mp hlastPage⟩⟩
  · have hrest : skipped ++ beyond ≠ [] := fun hnil => hlastPage (hdone.mpr hnil)
    have htaken : taken ≠ [] := by
      -- a page that is not the last one has room for an entry, and the server sent one
      intro hnil
      subst hnil
      rcases hnone rfl with hempty | hzero
      · have hnone := h.progress hempty
        rw [hafter, hleft] at hnone
        exact hrest hnone
      · exact absurd hzero (Nat.ne_of_gt hm)
    have hlast' := List.getLast?_eq_some_getLast htaken
    have hmem : taken.getLast htaken ∈ left := hleft ▸ List.mem_append_left _ (List.getLast_mem _)
    rw [hlast'] at hlast
    have htoken : nextToken directory cookie page
        = .ok (some ⟨directory, (taken.getLast htaken).cookie, verifier⟩) := by
      have hmoved : page.lastCookie ≠ cookie := by
        rw [hlast]
        exact hcookie _ hmem
      rw [nextToken, if_neg hlastPage, if_neg hmoved, hlast, hverifier]
      rfl
    exact ⟨_, taken, _, hleft, hresult _ htoken, by rw [hentries]; rfl, hlength,
      Or.inr ⟨_, rfl, hrest, hlast'⟩⟩

section

variable {path : NfsPath} {D : Directory} {maxEntries : ℕ → ℕ} {directory : String}

/-- One call of `list_page`. -/
theorem must_listPage (hpath : NfsPath.directory directory = .ok path)
    (hsession : ∃ s : NfsSession, s.AdmitsListing path.components) {m : ℕ} (hm : 0 < m)
    {token : Option ContinuationToken} {cookie : UInt64} {verifier : Verifier}
    (hstart : startPosition token (basePath path) = .ok (cookie, verifier))
    {post : Except Error ListResult → Unit → Prop}
    (hpost : ∀ verifier' listed eof, PageOf D cookie listed eof → ∃ result,
      listResult (basePath path) cookie (listingPage (some m) verifier' eof listed [] 0)
        = .ok result ∧ post (.ok result) ()) :
    Must (E := effects) (servesDirectory path.components D) post
      (listPage directory m token).run () := by
  unfold listPage
  rw [if_neg (Nat.ne_of_gt hm), hpath]
  obtain ⟨s, hs⟩ := hsession
  refine must_retryingSessionOperation ⟨⟨s, 0⟩, (), hs⟩ fun snapshot _ hadmits => ?_
  have hrun : listPageOnce snapshot.session path m token
      = (snapshot.session.call (.readDirPathPageWithoutHandle path.components cookie verifier
          (some m)) >>= fun page => liftM (listResult (basePath path) cookie page)) := by
    unfold listPageOnce
    rw [hstart]
    rfl
  rw [hrun]
  refine must_liftThreadExcept (n := 1) ?_
  refine Thread.Finishes.bindExcept
    ((finishes_readDirPage hadmits cookie verifier (some m)).mono ?_)
  rintro _ _ ⟨verifier', listed, eof, rfl, hpage⟩
  obtain ⟨result, hresult, hpost⟩ := hpost verifier' listed eof hpage
  dsimp only
  rw [hresult]
  exact ⟨hpost, nofun⟩

end

/-- **A whole directory.**  Whatever pages the server answers with and however many entries each
call asks for, the calls that follow the tokens end, each with at most as many entries as
it asked for, and together with the entries of the directory in its order. -/
theorem listAll_complete (directory : String) (path : NfsPath) (D : Directory)
    (maxEntries : ℕ → ℕ) (hpath : NfsPath.directory directory = .ok path)
    (hsession : ∃ s : NfsSession, s.AdmitsListing path.components) (hmax : ∀ k, 0 < maxEntries k) :
    Must (E := effects) (servesDirectory path.components D)
      (fun r _ => ∃ results, r = .ok results ∧
        Listing.Complete D (basePath path) maxEntries results)
      (listAll directory maxEntries).run () := by
  have hstart : Listing.Before D (basePath path) maxEntries D.entries {} :=
    ⟨⟨[], rfl, Nat.le_refl 0, rfl⟩, ⟨0, _, rfl, D.after_zero, D.cookies_ne_zero⟩, by simp, .inr rfl⟩
  refine must_loopExcept (fun n x _ => ∃ left, left.length = n ∧
    Listing.Before D (basePath path) maxEntries left x) ⟨D.entries, rfl, hstart⟩ ?_
  rintro _ x _ ⟨left, rfl, hx⟩
  obtain ⟨cookie, verifier, hposition, hafter, hcookie⟩ := hx.position
  refine must_bindExcept (must_listPage hpath hsession (hmax _) hposition ?_)
  intro verifier' listed eof hpage
  obtain ⟨result, taken, rest, rfl, hresult, hentries, hlen, hnext⟩ :=
    exists_listResult (basePath path) hafter hcookie (hmax x.results.length) hpage
  refine ⟨result, hresult, ?_⟩
  obtain ⟨hnone, rfl⟩ | ⟨e, htoken, hrest, hlast⟩ := hnext
  · rw [List.append_nil] at hx
    dsimp only
    rw [hnone]
    exact must_pure ⟨_, rfl, hx.complete hentries hlen⟩
  · dsimp only
    rw [htoken]
    refine must_pure ⟨rest.length, ?_, rest, rfl, hx.advance hentries hlen hlast hrest verifier'⟩
    have hpos : 0 < taken.length := by
      cases taken with
      | nil => cases hlast
      | cons y ys => simp
    rw [List.length_append]
    omega

theorem length_singleton_lt (b : UInt8) : [b].length < 2 ^ 32 := by simp

def oneLetter (b : UInt8) : Opaque := ⟨[b], length_singleton_lt b⟩

/-- A directory with the entries `.`, `a` and `b`. -/
def threeEntries : Directory where
  entries := [⟨1, oneLetter 46, ⟨[], WireBitmap.short_nil⟩, ⟨[], Opaque.short_nil⟩⟩,
    ⟨2, oneLetter 97, ⟨[], WireBitmap.short_nil⟩, ⟨[], Opaque.short_nil⟩⟩,
    ⟨3, oneLetter 98, ⟨[], WireBitmap.short_nil⟩, ⟨[], Opaque.short_nil⟩⟩]
  cookies_nodup := by decide
  cookies_ne_zero := by decide
  names := by
    intro e he
    simp only [List.mem_cons, List.not_mem_nil, or_false] at he
    rcases he with rfl | rfl | rfl
    · exact Or.inl (by decide +kernel)
    · exact Or.inr (by decide +kernel)
    · exact Or.inr (by decide +kernel)

theorem plainSession_admitsListing : plainSession.AdmitsListing ["d"] := by
  intro cookie verifier hint
  -- the length of the request depends on the path only
  change plainSession.validateCompoundRequest "readdir-path"
    ((SessionCall.readDirPathPageWithoutHandle ["d"] 0 (.replicate 8 0) none).ops plainSession) = _
  decide +kernel

theorem listAll_complete_threeEntries :
    Must (E := effects) (servesDirectory ["d"] threeEntries)
      (fun r _ => ∃ results, r = .ok results ∧
        results.flatMap ListResult.entries = [⟨"d/a", "a"⟩, ⟨"d/b", "b"⟩] ∧
        ∀ (k : ℕ) (result : ListResult), results[k]? = some result → result.entries.length ≤ 1)
      (listAll "/d" fun _ => 1).run () := by
  refine (listAll_complete "/d" ⟨["d"]⟩ threeEntries (fun _ => 1) (by decide +kernel)
    ⟨_, plainSession_admitsListing⟩ (by simp)).mono ?_
  rintro _ _ ⟨results, rfl, hcomplete⟩
  refine ⟨results, rfl, hcomplete.entries.trans ?_, hcomplete.bounded⟩
  decide +kernel

end NfsCrust
