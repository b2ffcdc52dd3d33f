import NfsCrust.Lib.FileTree
import NfsCrust.Server.Environment

/-!
# What the operations do to names

The operations of a compound that look at or change the names of a file server, over the
trees of `NfsCrust.Lib.FileTree`.  A compound carries a current and a saved handle from one
operation to the next.  What is in the files is left to a parameter.

## Main definitions

* `Cursor` — the handles a compound carries.
* `NameStep` — an operation on names succeeds.
* `Missing`, `Truthful` — a refusal that says what is the case.
-/

namespace NfsCrust

/-- What the handles of a server name. -/
abbrev Files (F : Type) := FileTree FileHandle String F

/-- The handles that a compound carries. -/
structure Cursor where
  current : Option FileHandle := none
  saved : Option FileHandle := none

variable {F : Type}

/-- The status that says that something is not a directory. -/
def NfsStatus.NOTDIR : NfsStatus := ⟨20⟩

/-- An operation on names succeeds.  New files start out as `init`. -/
inductive NameStep (init : F) : NfsOp → Files F × Cursor → OpRes → Files F × Cursor → Prop
  | putFh {fh : FileHandle} {T : Files F} {c : Cursor} (h : (T.node fh).isSome) :
      NameStep init (.putFh fh) (T, c) .putFh (T, { c with current := some fh })
  | lookup {name : String} {T : Files F} {c : Cursor} {d h : FileHandle}
      (hcurrent : c.current = some d) (hchild : T.child d name = some h) :
      NameStep init (.lookup name) (T, c) .lookup (T, { c with current := some h })
  | saveFh {T : Files F} {c : Cursor} {h : FileHandle} (hcurrent : c.current = some h) :
      NameStep init .saveFh (T, c) .saveFh (T, { c with saved := some h })
  | restoreFh {T : Files F} {c : Cursor} {h : FileHandle} (hsaved : c.saved = some h) :
      NameStep init .restoreFh (T, c) .restoreFh (T, { c with current := some h })
  | getFh {T : Files F} {c : Cursor} {h : FileHandle} {handle : Opaque}
      (hcurrent : c.current = some h) (hhandle : handle.bytes = h.bytes)
      (hlen : handle.bytes.length ≤ 128) : NameStep init .getFh (T, c) (.getFh handle) (T, c)
  | createDir {name : String} {mode : UInt32} {T : Files F} {c : Cursor} {d h : FileHandle}
      {cinfo : ChangeInfo} {attrset : WireBitmap} (hcurrent : c.current = some d)
      (hdir : T.IsDir d) (hnew : T.child d name = none) (hfresh : T.node h = none) :
      NameStep init (.createDir name mode) (T, c) (.create cinfo attrset)
        (T.create d name h none, { c with current := some h })
  | «open» {seqid : UInt32} {clientid : UInt64} {owner : Bytes} {name : String} {mode : UInt32}
      {T : Files F} {c : Cursor} {d h : FileHandle} {res : OpenRes} (hcurrent : c.current = some d)
      (hdir : T.IsDir d) (hnew : T.child d name = none) (hfresh : T.node h = none) :
      NameStep init (.«open» seqid clientid owner name mode) (T, c) (.«open» res)
        (T.create d name h (some init), { c with current := some h })
  | link {name : String} {T : Files F} {c : Cursor} {d h : FileHandle} {cinfo : ChangeInfo}
      (hcurrent : c.current = some d) (hsaved : c.saved = some h) (hdir : T.IsDir d)
      (hnew : T.child d name = none) (hnode : (T.node h).isSome) :
      NameStep init (.link name) (T, c) (.link cinfo) (T.link d name h hnode, c)
  | remove {name : String} {T : Files F} {c : Cursor} {d h : FileHandle} {cinfo : ChangeInfo}
      (hcurrent : c.current = some d) (hchild : T.child d name = some h)
      (hleaf : T.IsFile h ∨ T.IsEmptyDir h) :
      NameStep init (.remove name) (T, c) (.remove cinfo) (T.unlink d name, c)
  | rename {oldName newName : String} {T : Files F} {c : Cursor} {d d' h : FileHandle}
      {source target : ChangeInfo} (hcurrent : c.current = some d') (hsaved : c.saved = some d)
      (hchild : T.child d oldName = some h) (hdir : T.IsDir d')
      (htarget : T.child d' newName = none ∨
        T.IsFile h ∧ ∃ h', T.child d' newName = some h' ∧ h' ≠ h ∧ T.IsFile h')
      (hnode : (T.node h).isSome) :
      NameStep init (.rename oldName newName) (T, c) (.rename source target)
        ((T.link d' newName h hnode).unlink d oldName, c)
  /-- Renaming an object to a name it already has changes nothing. -/
  | renameSame {oldName newName : String} {T : Files F} {c : Cursor} {d d' h : FileHandle}
      {source target : ChangeInfo} (hcurrent : c.current = some d') (hsaved : c.saved = some d)
      (hchild : T.child d oldName = some h) (htarget : T.child d' newName = some h) :
      NameStep init (.rename oldName newName) (T, c) (.rename source target) (T, c)

theorem NameStep.opcode {init : F} {op : NfsOp} {x y : Files F × Cursor} {r : OpRes}
    (h : NameStep init op x r y) : r.opcode = op.opcode := by
  cases h <;> rfl

/-- The results of operations on names are ones the client supports. -/
theorem supported_of_nameSteps {S : Type} {env : Environment S} {init : F} {ops : List NfsOp}
    {x y : S × env.Ctx} {t : Replies} {call : SessionCall}
    (hsteps : ∀ {op x r y}, env.exec op x r y → ∃ x' y', NameStep init op x' r y')
    (h : env.Executes ops x t y) (hopen : .«open» ∉ ops.map NfsOp.opcode)
    (hchecked : call.Checked t.results) : call.Supported t.results := by
  have hresult : ∀ r ∈ t.results, r.opcode ≠ .«open» ∧ ∃ op x y, NameStep init op x r y := by
    clear hchecked
    induction h with
    | done | refused => exact nofun
    | next hexec _ _ ih =>
      intro r hr
      rcases List.mem_cons.mp hr with rfl | hr
      · obtain ⟨x', y', hstep⟩ := hsteps hexec
        refine ⟨?_, _, _, _, hstep⟩
        rw [hstep.opcode]
        exact fun heq => hopen (heq ▸ List.mem_cons_self)
      · exact ih (fun hop => hopen (List.mem_cons_of_mem _ hop)) r hr
  refine ⟨?_, ?_, ?_, ?_, hchecked⟩
  · intro res hres
    exact absurd rfl (hresult _ hres).1
  · intro handle hhandle
    obtain ⟨-, op, x, y, hstep⟩ := hresult _ hhandle
    cases hstep with
    | getFh _ _ hlen => exact hlen
  · intro attrs request hattrs
    obtain ⟨-, op, x, y, hstep⟩ := hresult _ hattrs
    cases hstep
  · intro verifier listed eof hlisted
    obtain ⟨-, op, x, y, hstep⟩ := hresult _ hlisted
    cases hstep

/-- What an operation looks for is missing. -/
def Missing : NfsOp → Files F × Cursor → Prop
  | .putFh fh, x => x.1.node fh = none
  | .lookup name, x | .remove name, x => ∃ d, x.2.current = some d ∧ x.1.child d name = none
  | _, _ => True

/-- The statuses that speak of the names of the server say what is the case. -/
structure Truthful (op : NfsOp) (x : Files F × Cursor) (f : Failure) : Prop where
  noent : f.status = .NOENT → Missing op x
  exist : ∀ name mode, op = .createDir name mode → f.status = .EXIST →
    ∃ d h, x.2.current = some d ∧ x.1.child d name = some h
  notdir : f.status = .NOTDIR → ∃ h, x.2.current = some h ∧ x.1.IsFile h

/-- An operation can always be refused for reasons of the server's own. -/
theorem truthful_delay (op : NfsOp) (x : Files F × Cursor) (code : OpCode) :
    Truthful op x ⟨code, .DELAY⟩ := ⟨nofun, nofun, nofun⟩

end NfsCrust
