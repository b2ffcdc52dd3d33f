import NfsCrust.Error

/-!
# Paths

Paths below the export, from `src/path.rs`.  A path is a sequence of components
between slashes.  Slashes at either end do not count; an empty component in the
middle, a dot component, a NUL and the names of temporary files are refused.

The source scans bytes; a slash and a NUL are one byte in UTF-8 and occur in no other
character, so the components are the same.

## Main definitions

* `NfsPath`, `NfsPath.file`, `NfsPath.directory` — paths, and what is accepted.
* `NfsPath.parentAndName` — the directory and the name of a file.

## Main results

* `NfsPath.file_spec` — an accepted path has a name, and none of its components is that of
  a temporary file.
-/

namespace NfsCrust

def TEMP_FILE_PREFIX : String := ".nfs-crust-tmp-"

/-- The name is one the client gives to temporary files. -/
def isTempName (name : String) : Bool := TEMP_FILE_PREFIX.toList.isPrefixOf name.toList

structure NfsPath where
  components : List String
  deriving DecidableEq, Repr

namespace NfsPath

def pushComponent (component : List Char) (components : List String) :
    Except Error (List String) :=
  let text := String.ofList component
  if text = "." ∨ text = ".." then
    .error (.invalidPath s!"reserved path component {text.quote} is not valid in paths")
  else .ok (components ++ [text])

/-- The characters of the component that is being read, and the components before it. -/
def parseRest (component : List Char) (components : List String) :
    List Char → Except Error (List String)
  | [] => pushComponent component components
  | c :: cs =>
    if c = Char.ofNat 0 then .error (.invalidPath "NUL bytes are not valid in paths")
    else if c = '/' then
      if component = [] then .error (.invalidPath "empty path components are not valid paths")
      else do parseRest [] (← pushComponent component components) cs
    else parseRest (component ++ [c]) components cs

/-- Without the slashes at both ends. -/
def trimSlashes (cs : List Char) : List Char :=
  ((cs.dropWhile (· == '/')).reverse.dropWhile (· == '/')).reverse

def parseComponents (value : String) : Except Error NfsPath :=
  let cs := trimSlashes value.toList
  if cs = [] then .ok ⟨[]⟩ else NfsPath.mk <$> parseRest [] [] cs

def validateUserComponents (components : List String) : Except Error Unit :=
  match components.find? isTempName with
  | some component => .error (.invalidPath (s!"path component {component.quote} uses the reserved "
      ++ "nfs-crust temporary-file namespace"))
  | none => .ok ()

def file (path : String) : Except Error NfsPath := do
  let parsed ← parseComponents path
  if parsed.components = [] then .error (.invalidPath "file path must not be empty")
  validateUserComponents parsed.components
  return parsed

def directory (path : String) : Except Error NfsPath := do
  let parsed ← parseComponents path
  validateUserComponents parsed.components
  return parsed

def parentAndName (path : NfsPath) : Except Error (List String × String) :=
  match path.components.getLast? with
  | some name => .ok (path.components.dropLast, name)
  | none => .error (.invalidPath "file path must not be empty")

theorem file_spec {raw : String} {path : NfsPath} (h : file raw = .ok path) :
    path.components ≠ [] ∧ ∀ c ∈ path.components, isTempName c = false := by
  unfold file at h
  cases hparse : parseComponents raw with
  | error err =>
    rw [hparse] at h
    cases h
  | ok parsed =>
    rw [hparse] at h
    change (if parsed.components = [] then _ else _) = _ at h
    split at h
    · cases h
    · next hne =>
      change (do validateUserComponents parsed.components; return parsed) = _ at h
      cases hfind : parsed.components.find? isTempName with
      | some component =>
        rw [validateUserComponents, hfind] at h
        cases h
      | none =>
        rw [validateUserComponents, hfind] at h
        cases h
        refine ⟨hne, fun c hc => ?_⟩
        have := List.find?_eq_none.mp hfind c hc
        simpa using this

example : (file "///a/b.txt///").toOption.map NfsPath.components = some ["a", "b.txt"] := by
  decide +kernel

/-- The directory and the name of an accepted path. -/
theorem parentAndName_file {raw : String} {path : NfsPath} (h : file raw = .ok path) :
    ∃ parent name, path.parentAndName = .ok (parent, name) ∧ path.components = parent ++ [name] ∧
      isTempName name = false := by
  obtain ⟨hne, htemp⟩ := file_spec h
  have hlast := List.dropLast_concat_getLast hne
  refine ⟨path.components.dropLast, path.components.getLast hne, ?_, hlast.symm, ?_⟩
  · rw [parentAndName, List.getLast?_eq_some_getLast hne]
  · exact htemp _ (List.getLast_mem hne)

end NfsPath

end NfsCrust
