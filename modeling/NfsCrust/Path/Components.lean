import NfsCrust.Path.Scan
import NfsCrust.Listing.Program

/-!
# Which paths are accepted

The grammar of paths: between its outer slashes a path is empty, or components separated by
single slashes, none of them empty, a dot component, or with a NUL.  The components are all
there is to a path, so that joining them with slashes gives it back; directories are told
apart by that string, and the path of an entry of a listing is the directory and the name.

## Main definitions

* `ValidName` — a component, as a name.
* `Parses` — a path and its components.

## Main results

* `parseComponents_eq_ok_iff` — what the parser accepts is the grammar.
* `path_components_exact` — the grammar, the reserved names, and what follows for joined paths,
  continuation tokens and the entries of a listing.
-/

namespace NfsCrust

/-- A name that can be a component. -/
structure ValidName (name : String) : Prop where
  ne_empty : name ≠ ""
  no_nul : Char.ofNat 0 ∉ name.toList
  ne_dot : name ≠ "."
  ne_dotdot : name ≠ ".."

namespace NfsPath

/-- The components of a path: those between the slashes, once the outer slashes are gone. -/
def Parses (path : String) (components : List String) : Prop :=
  if trimSlashes path.toList = [] then components = []
  else components.map String.toList = List.splitOn '/' (trimSlashes path.toList) ∧
    ∀ c ∈ components, ValidName c

/-! ### Splitting -/

theorem splitOn_of_not_mem {cs : List Char} (h : '/' ∉ cs) : List.splitOn '/' cs = [cs] := by
  apply List.splitOnP_eq_singleton
  intro c hc
  have hne : c ≠ '/' := by
    rintro rfl
    exact h hc
  simpa using hne

theorem splitOn_append_slash {cs ds : List Char} (h : '/' ∉ cs) :
    List.splitOn '/' (cs ++ '/' :: ds) = cs :: List.splitOn '/' ds := by
  rw [List.splitOn_append_cons_self, splitOn_of_not_mem h]
  rfl

/-- A list with a slash in it, cut at the last one. -/
theorem exists_last_slash {cs : List Char} (h : '/' ∈ cs) :
    ∃ front last, cs = front ++ '/' :: last ∧ '/' ∉ last := by
  obtain ⟨s, t, hst, hs⟩ := List.eq_append_cons_of_mem (List.mem_reverse.mpr h)
  refine ⟨t.reverse, s.reverse, ?_, by simpa using hs⟩
  have hreverse := congrArg List.reverse hst
  rw [List.reverse_reverse, List.reverse_append, List.reverse_cons] at hreverse
  rw [hreverse, List.append_assoc]
  rfl

/-- The last part is not empty when there is no slash at the end. -/
theorem getLast?_splitOn_ne {cs : List Char} (hcs : cs ≠ []) (hlast : cs.getLast? ≠ some '/') :
    (List.splitOn '/' cs).getLast? ≠ some [] := by
  by_cases h : '/' ∈ cs
  · obtain ⟨front, last, rfl, hno⟩ := exists_last_slash h
    rw [List.splitOn_append_cons_self, splitOn_of_not_mem hno, List.getLast?_concat]
    rintro ⟨⟩
    exact hlast (List.getLast?_concat)
  · rw [splitOn_of_not_mem h]
    rintro ⟨⟩
    exact hcs rfl

/-- A character other than the slash is in one of the parts. -/
theorem exists_mem_splitOn {c : Char} (hc : c ≠ '/') {cs : List Char} (h : c ∈ cs) :
    ∃ part ∈ List.splitOn '/' cs, c ∈ part := by
  rw [← @List.intercalate_splitOn _ cs _ _ '/'] at h
  generalize List.splitOn '/' cs = parts at h ⊢
  induction parts with
  | nil => simp [List.intercalate] at h
  | cons part parts ih =>
    cases parts with
    | nil => exact ⟨part, List.mem_singleton.mpr rfl, by simpa [List.intercalate] using h⟩
    | cons part' parts =>
      rw [List.intercalate_cons_cons, List.append_assoc, List.mem_append, List.mem_append] at h
      rcases h with h | h | h
      · exact ⟨part, List.mem_cons_self, h⟩
      · exact absurd (List.mem_singleton.mp h) hc
      · obtain ⟨found, hfound, hmem⟩ := ih h
        exact ⟨found, List.mem_cons_of_mem part hfound, hmem⟩

theorem mem_dropLast_or_getLast? {part : List Char} {parts : List (List Char)}
    (h : part ∈ parts) : part ∈ parts.dropLast ∨ parts.getLast? = some part := by
  have hne : parts ≠ [] := List.ne_nil_of_mem h
  rw [← List.dropLast_concat_getLast hne, List.mem_append, List.mem_singleton] at h
  rcases h with h | h
  · exact .inl h
  · exact .inr (by rw [List.getLast?_eq_some_getLast hne, h])

/-! ### The parser -/

theorem pushComponent_eq_ok_iff {component : List Char} {components out : List String} :
    pushComponent component components = .ok out ↔
      out = components ++ [String.ofList component] ∧
        String.ofList component ≠ "." ∧ String.ofList component ≠ ".." := by
  unfold pushComponent
  dsimp only
  split
  · next h =>
    constructor
    · intro hok
      cases hok
    · rintro ⟨_, hdot, hdotdot⟩
      rcases h with h | h
      · exact absurd h hdot
      · exact absurd h hdotdot
  · next h =>
    rw [not_or] at h
    constructor
    · intro hok
      cases hok
      exact ⟨rfl, h⟩
    · rintro ⟨rfl, _⟩
      rfl

/-- A part the parser takes as a component. -/
def PartOk (part : List Char) : Prop :=
  Char.ofNat 0 ∉ part ∧ String.ofList part ≠ "." ∧ String.ofList part ≠ ".."

/-- The loop accepts the parts between the slashes; only the last may be empty. -/
theorem parseRest_eq_ok_iff (rest : List Char) :
    ∀ {component : List Char} {components out : List String}, '/' ∉ component →
      Char.ofNat 0 ∉ component →
      (parseRest component components rest = .ok out ↔
        out = components ++ (List.splitOn '/' (component ++ rest)).map String.ofList ∧
        (∀ part ∈ List.splitOn '/' (component ++ rest), PartOk part) ∧
        ∀ part ∈ (List.splitOn '/' (component ++ rest)).dropLast, part ≠ []) := by
  induction rest with
  | nil =>
    intro component components out hslash hnul
    rw [List.append_nil, splitOn_of_not_mem hslash, parseRest, pushComponent_eq_ok_iff]
    constructor
    · rintro ⟨rfl, hdot, hdotdot⟩
      refine ⟨rfl, ?_, by simp⟩
      intro part hpart
      rw [List.mem_singleton] at hpart
      subst hpart
      exact ⟨hnul, hdot, hdotdot⟩
    · rintro ⟨rfl, hparts, _⟩
      exact ⟨rfl, (hparts component (List.mem_singleton.mpr rfl)).2⟩
  | cons c rest ih =>
    intro component components out hslash hnul
    rw [parseRest]
    by_cases hc : c = Char.ofNat 0
    · -- a NUL is in one of the parts
      rw [if_pos hc]
      constructor
      · intro hok
        cases hok
      · rintro ⟨_, hparts, _⟩
        obtain ⟨part, hpart, hmem⟩ := exists_mem_splitOn (c := c) (by rw [hc]; decide)
          (List.mem_append_right component List.mem_cons_self)
        exact absurd (hc ▸ hmem) (hparts part hpart).1
    · by_cases hc' : c = '/'
      · subst hc'
        rw [if_neg hc, if_pos rfl, splitOn_append_slash hslash,
          List.dropLast_cons_of_ne_nil (List.splitOn_ne_nil _ _)]
        by_cases hempty : component = []
        · rw [if_pos hempty]
          constructor
          · intro hok
            cases hok
          · rintro ⟨_, _, hnonempty⟩
            exact absurd hempty (hnonempty component List.mem_cons_self)
        · rw [if_neg hempty]
          cases hpush : pushComponent component components with
          | error err =>
            constructor
            · intro hok
              cases hok
            · rintro ⟨_, hparts, _⟩
              have hpart := (hparts component List.mem_cons_self).2
              rw [(@pushComponent_eq_ok_iff component components _).mpr ⟨rfl, hpart⟩] at hpush
              cases hpush
          | ok pushed =>
            obtain ⟨rfl, hpart⟩ := pushComponent_eq_ok_iff.mp hpush
            change parseRest [] _ rest = .ok out ↔ _
            rw [ih List.not_mem_nil List.not_mem_nil, List.nil_append, List.map_cons,
              List.append_assoc, List.forall_mem_cons, List.forall_mem_cons]
            constructor
            · rintro ⟨hout, hparts, hnonempty⟩
              exact ⟨hout, ⟨⟨hnul, hpart⟩, hparts⟩, hempty, hnonempty⟩
            · rintro ⟨hout, ⟨_, hparts⟩, _, hnonempty⟩
              exact ⟨hout, hparts, hnonempty⟩
      · rw [if_neg hc, if_neg hc', ih (by simp [hslash, Ne.symm hc']) (by simp [hnul, Ne.symm hc])]
        simp

/-! ### The grammar -/

theorem trimSlashes_spec (cs : List Char) :
    (trimSlashes cs).head? ≠ some '/' ∧ (trimSlashes cs).getLast? ≠ some '/' := by
  obtain ⟨k, m, _, hhead, hlast, _⟩ := exists_eq_trimSlashes cs
  exact ⟨hhead, hlast⟩

theorem trimSlashes_eq_self {cs : List Char} (hhead : cs.head? ≠ some '/')
    (hlast : cs.getLast? ≠ some '/') : trimSlashes cs = cs := by
  have hdrop : ∀ ds : List Char, ds.head? ≠ some '/' → ds.dropWhile (· == '/') = ds := by
    intro ds hds
    cases ds with
    | nil => rfl
    | cons d ds =>
      rw [List.dropWhile_cons_of_neg]
      intro hd
      exact hds (congrArg some (by simpa using hd))
  rw [trimSlashes, hdrop cs hhead, hdrop, List.reverse_reverse]
  rwa [List.head?_reverse]

theorem validName_iff (part : List Char) :
    ValidName (String.ofList part) ↔ part ≠ [] ∧ PartOk part := by
  constructor
  · intro h
    refine ⟨?_, by simpa using h.no_nul, h.ne_dot, h.ne_dotdot⟩
    rintro rfl
    exact h.ne_empty rfl
  · rintro ⟨hne, hnul, hdot, hdotdot⟩
    refine ⟨?_, by simpa using hnul, hdot, hdotdot⟩
    intro hempty
    exact hne (by simpa using congrArg String.toList hempty)

/-- The parser accepts the paths of the grammar, with their components. -/
theorem parseComponents_eq_ok_iff (value : String) (path : NfsPath) :
    parseComponents value = .ok path ↔ Parses value path.components := by
  unfold parseComponents Parses
  dsimp only
  by_cases hempty : trimSlashes value.toList = []
  · rw [if_pos hempty, if_pos hempty]
    constructor
    · intro h
      cases h
      rfl
    · intro h
      rw [← h]
  · rw [if_neg hempty, if_neg hempty]
    have hlast := getLast?_splitOn_ne hempty (trimSlashes_spec value.toList).2
    have hparse := @parseRest_eq_ok_iff (trimSlashes value.toList) [] [] path.components
      List.not_mem_nil List.not_mem_nil
    rw [List.nil_append, List.nil_append] at hparse
    have hok : NfsPath.mk <$> parseRest [] [] (trimSlashes value.toList) = .ok path ↔
        parseRest [] [] (trimSlashes value.toList) = .ok path.components := by
      cases parseRest [] [] (trimSlashes value.toList) with
      | error err =>
        constructor
        · intro h
          cases h
        · intro h
          cases h
      | ok components =>
        constructor
        · intro h
          cases h
          rfl
        · intro h
          cases h
          rfl
    rw [hok, hparse]
    generalize List.splitOn '/' (trimSlashes value.toList) = parts at hlast ⊢
    constructor
    · rintro ⟨hcomponents, hparts, hnonempty⟩
      rw [hcomponents, List.map_map]
      refine ⟨by simp [Function.comp_def], ?_⟩
      intro c hc
      obtain ⟨part, hpart, rfl⟩ := List.mem_map.mp hc
      apply (validName_iff part).mpr
      refine ⟨?_, hparts part hpart⟩
      rintro rfl
      -- an empty part is not the last, and no other is empty
      obtain hmem | hmem := mem_dropLast_or_getLast? hpart
      · exact hnonempty [] hmem rfl
      · exact hlast hmem
    · rintro ⟨hcomponents, hvalid⟩
      have hmap : path.components = parts.map String.ofList := by
        rw [← hcomponents, List.map_map]
        simp [Function.comp_def]
      have hparts : ∀ part ∈ parts, part ≠ [] ∧ PartOk part := by
        intro part hpart
        apply (validName_iff part).mp
        apply hvalid
        rw [hmap]
        exact List.mem_map_of_mem hpart
      exact ⟨hmap, fun part hpart => (hparts part hpart).2,
        fun part hpart => (hparts part (List.dropLast_subset parts hpart)).1⟩

/-- A path that is refused is refused for its components. -/
theorem parseRest_eq_error (rest : List Char) :
    ∀ {component : List Char} {components : List String} {err : Error},
      parseRest component components rest = .error err → ∃ message, err = .invalidPath message := by
  have hpush : ∀ {component : List Char} {components : List String} {err : Error},
      pushComponent component components = .error err → ∃ message, err = .invalidPath message := by
    intro component components err h
    unfold pushComponent at h
    dsimp only at h
    split at h
    · cases h
      exact ⟨_, rfl⟩
    · cases h
  induction rest with
  | nil => exact hpush
  | cons c rest ih =>
    intro component components err h
    rw [parseRest] at h
    split at h
    · cases h
      exact ⟨_, rfl⟩
    · split at h
      · split at h
        · cases h
          exact ⟨_, rfl⟩
        · cases hcomponent : pushComponent component components with
          | error err' =>
            rw [hcomponent] at h
            cases h
            exact hpush hcomponent
          | ok pushed =>
            rw [hcomponent] at h
            exact ih h
      · exact ih h

theorem scanComponents_ne_panic (value message : String) :
    scanComponents value ≠ .error (.panic message) := by
  rw [scanComponents_eq, parseComponents]
  split
  · intro h
    cases h
  · intro h
    cases hrest : parseRest [] [] (trimSlashes value.toList) with
    | error err =>
      obtain ⟨_, rfl⟩ := parseRest_eq_error _ hrest
      rw [hrest] at h
      cases h
    | ok components =>
      rw [hrest] at h
      cases h

theorem validateUserComponents_eq_ok_iff (components : List String) :
    validateUserComponents components = .ok () ↔ ∀ c ∈ components, isTempName c = false := by
  unfold validateUserComponents
  constructor
  · intro h
    split at h
    · cases h
    · next hfind =>
      intro c hc
      simpa using List.find?_eq_none.mp hfind c hc
  · intro h
    rw [List.find?_eq_none.mpr]
    intro c hc
    rw [h c hc]
    exact Bool.false_ne_true

theorem directory_eq_ok_iff (value : String) (path : NfsPath) :
    directory value = .ok path ↔
      Parses value path.components ∧ ∀ c ∈ path.components, isTempName c = false := by
  rw [← parseComponents_eq_ok_iff, ← validateUserComponents_eq_ok_iff, directory]
  cases parseComponents value with
  | error err =>
    constructor
    · intro h
      cases h
    · rintro ⟨⟨⟩, _⟩
  | ok parsed =>
    change (do validateUserComponents parsed.components; return parsed) = Except.ok path ↔ _
    constructor
    · intro h
      cases hvalidate : validateUserComponents parsed.components with
      | error err =>
        rw [hvalidate] at h
        cases h
      | ok u =>
        rw [hvalidate] at h
        cases h
        exact ⟨rfl, hvalidate⟩
    · rintro ⟨⟨⟩, hvalidate⟩
      rw [hvalidate]
      rfl

theorem file_eq_ok_iff (value : String) (path : NfsPath) :
    file value = .ok path ↔ directory value = .ok path ∧ path.components ≠ [] := by
  unfold file directory
  cases parseComponents value with
  | error err =>
    constructor
    · intro h
      cases h
    · rintro ⟨⟨⟩, _⟩
  | ok parsed =>
    change (if parsed.components = [] then _ else
      (do validateUserComponents parsed.components; return parsed : Except Error NfsPath)) = _ ↔ _
    by_cases hempty : parsed.components = []
    · rw [if_pos hempty]
      constructor
      · intro h
        cases h
      · rintro ⟨h, hne⟩
        change (do validateUserComponents parsed.components; return parsed) = Except.ok path at h
        rw [hempty] at h
        cases h
        exact absurd hempty hne
    · rw [if_neg hempty]
      constructor
      · intro h
        refine ⟨h, ?_⟩
        cases hvalidate : validateUserComponents parsed.components with
        | error err =>
          rw [hvalidate] at h
          cases h
        | ok u =>
          rw [hvalidate] at h
          cases h
          exact hempty
      · rintro ⟨h, _⟩
        exact h

/-! ### Joined paths -/

/-- The parts of a text without outer slashes. -/
theorem parses_of_trimmed {value : String} (hne : value.toList ≠ [])
    (hhead : value.toList.head? ≠ some '/') (hlast : value.toList.getLast? ≠ some '/')
    {components : List String} :
    Parses value components ↔ components.map String.toList = List.splitOn '/' value.toList ∧
      ∀ c ∈ components, ValidName c := by
  unfold Parses
  rw [trimSlashes_eq_self hhead hlast, if_neg hne]

/-- What the components join to is the path without its outer slashes. -/
theorem toList_basePath {value : String} {path : NfsPath} (h : Parses value path.components) :
    (basePath path).toList = trimSlashes value.toList := by
  unfold Parses at h
  rw [basePath, String.toList_intercalate]
  split at h
  · next hempty =>
    rw [h, hempty]
    rfl
  · rw [h.1]
    exact List.intercalate_splitOn '/'

theorem parses_basePath {value : String} {path : NfsPath} (h : Parses value path.components) :
    Parses (basePath path) path.components := by
  have hbase := toList_basePath h
  obtain ⟨hhead, hlast⟩ := trimSlashes_spec value.toList
  unfold Parses at h ⊢
  rwa [hbase, trimSlashes_eq_self hhead hlast]

theorem parses_unique {value : String} {cs ds : List String} (hc : Parses value cs)
    (hd : Parses value ds) : cs = ds := by
  have hpath := (parseComponents_eq_ok_iff value ⟨cs⟩).mpr hc
  rw [(parseComponents_eq_ok_iff value ⟨ds⟩).mpr hd] at hpath
  cases hpath
  rfl

/-- Directories are the same exactly when their components join to the same text. -/
theorem basePath_eq_iff {value value' : String} {path path' : NfsPath}
    (h : Parses value path.components) (h' : Parses value' path'.components) :
    basePath path = basePath path' ↔ path.components = path'.components := by
  constructor
  · intro hbase
    have hparse := parses_basePath h
    rw [hbase] at hparse
    exact parses_unique hparse (parses_basePath h')
  · intro hcomponents
    rw [basePath, hcomponents, basePath]

theorem listPosition_eq_ok_iff (directory directory' : String) (cookie : UInt64)
    (verifier : Verifier) :
    (ContinuationToken.fromListPosition directory cookie verifier).listPosition directory' =
      .ok (cookie, verifier) ↔ directory = directory' := by
  unfold ContinuationToken.listPosition ContinuationToken.fromListPosition
  dsimp only
  split
  · next h =>
    constructor
    · intro hok
      cases hok
    · intro heq
      exact absurd heq h
  · next h =>
    rw [not_not] at h
    exact ⟨fun _ => h, fun _ => rfl⟩

/-- The path of an entry: the parts of the directory, and the name. -/
theorem parses_listEntry {value name : String} {path : NfsPath}
    (h : Parses value path.components) (hname : ValidName name) (hslash : '/' ∉ name.toList) :
    Parses (listEntry (basePath path) ⟨name⟩).path (path.components ++ [name]) := by
  have hbase := toList_basePath h
  obtain ⟨hhead, hlast⟩ := trimSlashes_spec value.toList
  have hne : name.toList ≠ [] := by
    intro hempty
    exact hname.ne_empty (String.toList_inj.mp hempty)
  have hnamelast : name.toList.getLast? ≠ some '/' := fun hl =>
    hslash (List.mem_of_getLast? hl)
  have hnamehead : name.toList.head? ≠ some '/' := fun hl =>
    hslash (List.mem_of_head? hl)
  by_cases hempty : trimSlashes value.toList = []
  · -- in the root the path is the name
    have hcomponents : path.components = [] := by
      unfold Parses at h
      rwa [if_pos hempty] at h
    have hpath : (listEntry (basePath path) ⟨name⟩).path = name := by
      have : basePath path = "" := by
        rw [basePath, hcomponents]
        rfl
      rw [this]
      exact String.empty_append
    rw [hpath, hcomponents, parses_of_trimmed hne hnamehead hnamelast, splitOn_of_not_mem hslash]
    refine ⟨rfl, ?_⟩
    intro c hc
    rw [List.nil_append, List.mem_singleton] at hc
    rwa [hc]
  · have hpath : (listEntry (basePath path) ⟨name⟩).path.toList =
        trimSlashes value.toList ++ '/' :: name.toList := by
      have hnonempty : (basePath path).isEmpty = false := by
        rw [← Bool.not_eq_true, String.isEmpty_iff]
        intro hb
        rw [hb] at hbase
        exact hempty hbase.symm
      rw [listEntry]
      dsimp only
      rw [hnonempty]
      simp [hbase]
    unfold Parses at h
    rw [if_neg hempty] at h
    rw [parses_of_trimmed, hpath, List.splitOn_append_cons_self, splitOn_of_not_mem hslash,
      List.map_append, h.1]
    · refine ⟨rfl, ?_⟩
      intro c hc
      rcases List.mem_append.mp hc with hc | hc
      · exact h.2 c hc
      · rw [List.mem_singleton] at hc
        rwa [hc]
    · rw [hpath]
      simp
    · rw [hpath]
      cases htrim : trimSlashes value.toList with
      | nil => exact absurd htrim hempty
      | cons c cs =>
        rw [htrim] at hhead
        exact hhead
    · rw [hpath, ← List.singleton_append, ← List.append_assoc, List.getLast?_append,
        List.getLast?_eq_some_getLast hne]
      rwa [List.getLast?_eq_some_getLast hne] at hnamelast

/-- A path is accepted exactly when, without its outer slashes, it is empty or its parts between
the slashes are valid names, and these are then its components; no slice of the text is cut
inside a character.  Files and directories are the accepted paths without a reserved component,
files those with a component.  The components joined by slashes are a path with the same
components; two directories join to the same text, and take each other's tokens, exactly when
their components are the same; and the path of an entry is the directory's components followed
by its name. -/
theorem path_components_exact :
    (∀ value path, scanComponents value = .ok path ↔ Parses value path.components) ∧
    (∀ value message, scanComponents value ≠ .error (.panic message)) ∧
    (∀ value path, file value = .ok path ↔ scanComponents value = .ok path ∧
      path.components ≠ [] ∧ ∀ c ∈ path.components, isTempName c = false) ∧
    (∀ value path, directory value = .ok path ↔ scanComponents value = .ok path ∧
      ∀ c ∈ path.components, isTempName c = false) ∧
    (∀ value path, scanComponents value = .ok path → scanComponents (basePath path) = .ok path) ∧
    (∀ value value' path path', directory value = .ok path → directory value' = .ok path' →
      (basePath path = basePath path' ↔ path.components = path'.components) ∧
      ∀ cookie verifier,
        (ContinuationToken.fromListPosition (basePath path) cookie verifier).listPosition
          (basePath path') = .ok (cookie, verifier) ↔ path.components = path'.components) ∧
    ∀ value path name, directory value = .ok path → ValidName name → '/' ∉ name.toList →
      isTempName name = false →
      file (listEntry (basePath path) ⟨name⟩).path = .ok ⟨path.components ++ [name]⟩ := by
  have hscan : ∀ value path, scanComponents value = .ok path ↔ Parses value path.components := by
    intro value path
    rw [scanComponents_eq]
    exact parseComponents_eq_ok_iff value path
  refine ⟨hscan, scanComponents_ne_panic, ?_, ?_, ?_, ?_, ?_⟩
  · intro value path
    rw [file_eq_ok_iff, directory_eq_ok_iff, hscan, and_assoc, and_comm (b := path.components ≠ [])]
  · intro value path
    rw [directory_eq_ok_iff, hscan]
  · intro value path h
    rw [hscan] at h ⊢
    exact parses_basePath h
  · intro value value' path path' h h'
    have hparses := ((directory_eq_ok_iff value path).mp h).1
    have hparses' := ((directory_eq_ok_iff value' path').mp h').1
    refine ⟨basePath_eq_iff hparses hparses', ?_⟩
    intro cookie verifier
    rw [listPosition_eq_ok_iff]
    exact basePath_eq_iff hparses hparses'
  · intro value path name h hname hslash htemp
    obtain ⟨hparses, hreserved⟩ := (directory_eq_ok_iff value path).mp h
    rw [file_eq_ok_iff, directory_eq_ok_iff]
    refine ⟨⟨parses_listEntry hparses hname hslash, ?_⟩, by simp⟩
    intro c hc
    rcases List.mem_append.mp hc with hc | hc
    · exact hreserved c hc
    · rw [List.mem_singleton] at hc
      rwa [hc]

example : (scanComponents "//é/b.txt/").toOption.map NfsPath.components = some ["é", "b.txt"] := by
  decide +kernel

end NfsPath

end NfsCrust
