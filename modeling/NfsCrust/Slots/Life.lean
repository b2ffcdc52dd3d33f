import NfsCrust.Slots.Table

/-!
# The life of a slot

What the tasks do with the slots, without the scan, the permits and the limits
that lead them there.  A task takes the lock of a slot, uses the slot for at most
one request, and gives the lock back; between the unlock and its last step it
still has to clear the slot's `active` flag.  This is the protocol the machine of
`NfsCrust.Slots.Table` follows, and the one its safety rests on.

## Main definitions

* `Status` — what a task has to do with a slot.
* `Life`, `Life.Step` — the protocol.
* `Life.Ok` — its invariant: locks are exclusive, and a slot that can be used
  again has a validated reply for everything it was used for.

## Main results

* `Life.Step.ok` — every step keeps the invariant.
* `Life.Step.flagged` — slots with a guard stay flagged, as long as no flag is set
  while a clear of it is due.
-/

namespace NfsCrust.Slots

open Function (update update_self update_of_ne)

/-- What a task has to do with a slot. -/
inductive Status
  | away
  /-- Holds the lock and may give it back at once. -/
  | looking (slot : ℕ)
  /-- Took the slot; its `active` flag is not set yet. -/
  | selected (slot : ℕ)
  /-- Has a guard and no request. -/
  | holding (slot : ℕ)
  /-- Has a request that is marked outstanding and not handed over. -/
  | armed (slot : ℕ)
  | awaiting (slot id : ℕ)
  /-- Has a validated reply; the sequence id is not advanced yet. -/
  | settled (slot : ℕ)
  /-- Drops a guard whose request is outstanding. -/
  | abandoning (slot : ℕ)
  /-- About to unlock. -/
  | releasing (slot : ℕ)
  /-- Unlocked; about to clear the `active` flag. -/
  | clearing (slot : ℕ)
  deriving DecidableEq, Repr

namespace Status

/-- The slot whose lock a task holds. -/
def slot? : Status → Option ℕ
  | away | clearing _ => none
  | looking s | selected s | holding s | armed s | awaiting s _ | settled s | abandoning s
  | releasing s => some s

/-- The slot a task past `acquire` has a guard on. -/
def guarded? : Status → Option ℕ
  | holding s | armed s | awaiting s _ | settled s | abandoning s | releasing s => some s
  | away | looking _ | selected _ | clearing _ => none

theorem slot?_of_guarded? {A : Status} {s : ℕ} (h : A.guarded? = some s) : A.slot? = some s := by
  cases A <;> first | exact h | cases h

end Status

/-- The slots and the tasks that use them. -/
structure Life where
  slots : ℕ → SlotState
  owner : ℕ → Option ℕ
  active : ℕ → Bool
  status : ℕ → Status
  queue : List Request
  wire : List Request
  validated : ℕ → Bool

namespace Life

/-- One step of the protocol, in which a slot's `active` flag is set only where
`may` allows it. -/
inductive Step (may : ℕ → Prop) (l : Life) : Life → Prop
  | look {t s : ℕ} (ht : l.status t = .away) (hs : l.owner s = none) :
      Step may l { l with
        owner := update l.owner s (some t), status := update l.status t (.looking s) }
  | pass {t s : ℕ} (ht : l.status t = .looking s) :
      Step may l { l with owner := update l.owner s none, status := update l.status t .away }
  | select {t s : ℕ} (ht : l.status t = .looking s) (hs : (l.slots s).usable = true) :
      Step may l { l with status := update l.status t (.selected s) }
  | activate {t s : ℕ} (ht : l.status t = .selected s) (hs : may s) :
      Step may l { l with
        active := update l.active s true, status := update l.status t (.holding s) }
  | arm {t s : ℕ} (ht : l.status t = .holding s) :
      Step may l { l with status := update l.status t (.armed s) }
  | leave {t s : ℕ} (ht : l.status t = .holding s ∨ l.status t = .armed s) :
      Step may l { l with status := update l.status t (.releasing s) }
  | hand {t s : ℕ} (ht : l.status t = .armed s) (highest : UInt32) :
      Step may l { l with
        queue := l.queue ++ [⟨(l.wire ++ l.queue).length, s, (l.slots s).sequenceid, highest⟩]
        status := update l.status t (.awaiting s (l.wire ++ l.queue).length) }
  | validate {t s id : ℕ} (ht : l.status t = .awaiting s id) :
      Step may l { l with
        validated := update l.validated id true, status := update l.status t (.settled s) }
  | advance {t s : ℕ} (ht : l.status t = .settled s) :
      Step may l { l with
        slots := update l.slots s
          { l.slots s with sequenceid := (l.slots s).sequenceid + 1 }
        status := update l.status t (.releasing s) }
  | abandon {t s : ℕ} (ht : l.status t = .armed s ∨ ∃ id, l.status t = .awaiting s id) :
      Step may l { l with status := update l.status t (.abandoning s) }
  | retire {t s : ℕ} (ht : l.status t = .abandoning s) :
      Step may l { l with
        slots := update l.slots s { l.slots s with usable := false }
        status := update l.status t (.releasing s) }
  | unlock {t s : ℕ} (ht : l.status t = .releasing s) :
      Step may l { l with
        owner := update l.owner s none, status := update l.status t (.clearing s) }
  | clear {t s : ℕ} (ht : l.status t = .clearing s) :
      Step may l { l with active := update l.active s false, status := update l.status t .away }
  | write {request : Request} {queue : List Request} (hq : l.queue = request :: queue) :
      Step may l { l with queue := queue, wire := l.wire ++ [request] }

variable {may : ℕ → Prop} {l l' : Life} {t s : ℕ} {A B : Status}

/-! ### The invariant -/

/-- The requests of a slot, oldest first. -/
def onSlot (l : Life) (s : ℕ) : List Request := (l.wire ++ l.queue).filter (·.slot == s)

/-- The sequence ids of `n` requests in a row. -/
def sequenceids (n : ℕ) : List UInt32 := (List.range n).map fun i => .ofNat (i + 1)

/-- The next request of the slot continues its sequence. -/
def Fresh (l : Life) (s : ℕ) : Prop :=
  (∀ r ∈ l.onSlot s, l.validated r.id = true) ∧
    (l.slots s).sequenceid = .ofNat ((l.onSlot s).length + 1)

/-- What a slot is known to have been used for, given what its owner does. -/
def Fits (l : Life) (s : ℕ) : Status → Prop
  | .away | .looking _ | .releasing _ | .clearing _ => (l.slots s).usable = true → l.Fresh s
  | .selected _ | .holding _ | .armed _ => (l.slots s).usable = true ∧ l.Fresh s
  | .awaiting _ id => (∃ r, (l.onSlot s).getLast? = some r ∧ r.id = id) ∧
      (l.slots s).sequenceid = .ofNat (l.onSlot s).length
  | .settled _ => (∀ r ∈ l.onSlot s, l.validated r.id = true) ∧
      (l.slots s).sequenceid = .ofNat (l.onSlot s).length
  | .abandoning _ => True

/-- What the owner of a slot does. -/
def ownerStatus (l : Life) (s : ℕ) : Status := (l.owner s).elim .away l.status

structure Ok (l : Life) : Prop where
  owned : ∀ t s, l.owner s = some t ↔ (l.status t).slot? = some s
  numbered : ∀ s, (l.onSlot s).map (·.sequenceid) = sequenceids (l.onSlot s).length
  followed : ∀ s, ∀ r ∈ (l.onSlot s).dropLast, l.validated r.id = true
  fits : ∀ s, l.Fits s (l.ownerStatus s)

theorem Ok.fits_of_status (h : l.Ok) (ht : l.status t = A) (hA : A.slot? = some s) :
    l.Fits s A := by
  have howner : l.owner s = some t := (h.owned t s).mpr (by rw [ht, hA])
  have := h.fits s
  rwa [ownerStatus, howner, Option.elim_some, ht] at this

/-- A step of `t` that concerns slot `s` only: before and after, either `t` holds
its lock or nobody does. -/
theorem Ok.of_local {C : Status} (h : l.Ok) (ht : l.status t = A)
    (hA : A.slot? = some s ∨ A.slot? = none ∧ l.owner s = none)
    (hB : B.slot? = some s ∧ l'.owner s = some t ∧ C = B ∨
      B.slot? = none ∧ l'.owner s = none ∧ C = .away)
    (hstatus : l'.status = update l.status t B)
    (howner : ∀ s' ≠ s, l'.owner s' = l.owner s')
    (hnumbered : ∀ s, (l'.onSlot s).map (·.sequenceid) = sequenceids (l'.onSlot s).length)
    (hfollowed : ∀ s, ∀ r ∈ (l'.onSlot s).dropLast, l'.validated r.id = true)
    (hother : ∀ s' ≠ s, ∀ D, l.Fits s' D → l'.Fits s' D) (hfits : l'.Fits s C) : l'.Ok := by
  have hlone : ∀ t' ≠ t, l.owner s ≠ some t' := by
    rintro t' ht' ho
    rcases hA with hA | ⟨-, hA⟩
    · have := (h.owned t s).mpr (by rw [ht, hA])
      exact ht' (Option.some.inj (ho.symm.trans this))
    · rw [hA] at ho
      cases ho
  have hsame : l'.status t = B := by rw [hstatus, update_self]
  refine ⟨fun t' s' => ?_, hnumbered, hfollowed, fun s' => ?_⟩
  · by_cases ht' : t' = t <;> by_cases hs' : s' = s
    · subst ht' hs'
      rcases hB with ⟨hB, ho, -⟩ | ⟨hB, ho, -⟩ <;> simp [hsame, hB, ho]
    · subst ht'
      have := h.owned t' s'
      rw [howner s' hs', hsame, this, ht]
      rcases hA with hA | ⟨hA, -⟩ <;> rcases hB with ⟨hB, -⟩ | ⟨hB, -⟩ <;>
        simp [hA, hB, Ne.symm hs']
    · subst hs'
      rw [hstatus, update_of_ne ht', ← h.owned t' s']
      rcases hB with ⟨-, ho, -⟩ | ⟨-, ho, -⟩ <;> simp [ho, hlone t' ht', Ne.symm ht']
    · rw [howner s' hs', hstatus, update_of_ne ht']
      exact h.owned t' s'
  · by_cases hs' : s' = s
    · subst hs'
      rcases hB with ⟨hB, ho, rfl⟩ | ⟨hB, ho, rfl⟩
      · rwa [ownerStatus, ho, Option.elim_some, hsame]
      · rwa [ownerStatus, ho, Option.elim_none]
    · have hold := hother s' hs' _ (h.fits s')
      rw [ownerStatus] at hold ⊢
      rw [howner s' hs']
      cases ho : l.owner s' with
      | none => simpa [ho] using hold
      | some u =>
        have hu : u ≠ t := by
          rintro rfl
          have := (h.owned u s').mp ho
          rw [ht] at this
          rcases hA with hA | ⟨hA, -⟩ <;> simp [hA, Ne.symm hs'] at this
        rw [Option.elim_some, hstatus, update_of_ne hu]
        simpa [ho] using hold

/-- A step that changes nothing but what `t` does with the slot it holds. -/
theorem Ok.move (h : l.Ok) (ht : l.status t = A) (hA : A.slot? = some s) (hB : B.slot? = some s)
    (hfits : l.Fits s A → l.Fits s B) : Ok { l with status := update l.status t B } := by
  have howner : l.owner s = some t := (h.owned t s).mpr (by rw [ht, hA])
  exact h.of_local ht (Or.inl hA) (Or.inl ⟨hB, howner, rfl⟩) rfl (fun _ _ => rfl) h.numbered
    h.followed (fun _ _ _ hf => hf) (hfits (h.fits_of_status ht hA))

theorem sequenceids_succ (n : ℕ) : sequenceids (n + 1) = sequenceids n ++ [.ofNat (n + 1)] := by
  simp [sequenceids, List.range_succ]

section Hand

variable {highest : UInt32}

/-- The request `t` hands over. -/
def nextRequest (l : Life) (s : ℕ) (highest : UInt32) : Request :=
  ⟨(l.wire ++ l.queue).length, s, (l.slots s).sequenceid, highest⟩

theorem onSlot_hand (l : Life) (s : ℕ) (status : ℕ → Status) :
    onSlot { l with queue := l.queue ++ [l.nextRequest s highest], status } s
      = l.onSlot s ++ [l.nextRequest s highest] := by
  simp [onSlot, nextRequest, ← List.append_assoc, List.filter_append]

theorem onSlot_hand_of_ne (l : Life) {s s' : ℕ} (status : ℕ → Status) (hs : s' ≠ s) :
    onSlot { l with queue := l.queue ++ [l.nextRequest s highest], status } s' = l.onSlot s' := by
  simp [onSlot, nextRequest, List.filter_append, Ne.symm hs]

theorem Fits.of_onSlot_eq {C : Status} (h : l.Fits s C) (hslot : l'.slots s = l.slots s)
    (hon : l'.onSlot s = l.onSlot s) (hval : ∀ id, l.validated id = true → l'.validated id = true) :
    l'.Fits s C := by
  have hall : (∀ r ∈ l.onSlot s, l.validated r.id = true) →
      ∀ r ∈ l'.onSlot s, l'.validated r.id = true :=
    fun h r hr => hval r.id (h r (hon ▸ hr))
  have hfresh : l.Fresh s → l'.Fresh s := fun ⟨h₁, h₂⟩ => ⟨hall h₁, by rw [hslot, hon, h₂]⟩
  cases C with
  | away | looking | releasing | clearing =>
    intro hu
    exact hfresh (h (hslot ▸ hu))
  | selected | holding | armed => exact ⟨hslot ▸ h.1, hfresh h.2⟩
  | awaiting slot id =>
    obtain ⟨hlast, hseq⟩ := h
    exact ⟨by rw [hon]; exact hlast, by rw [hslot, hon, hseq]⟩
  | settled => exact ⟨hall h.1, by rw [hslot, hon, h.2]⟩
  | abandoning => trivial

theorem Ok.hand (h : l.Ok) (ht : l.status t = .armed s) :
    Ok { l with
      queue := l.queue ++ [l.nextRequest s highest]
      status := update l.status t (.awaiting s (l.wire ++ l.queue).length) } := by
  obtain ⟨-, hfresh⟩ := h.fits_of_status ht rfl
  refine h.of_local ht (Or.inl rfl) (Or.inl ⟨rfl, (h.owned t s).mpr (by rw [ht]; rfl), rfl⟩) rfl
    (fun _ _ => rfl) (fun s' => ?_) (fun s' => ?_) (fun s' hs' C hf => ?_) ?_
  · by_cases hs' : s' = s
    · subst hs'
      rw [onSlot_hand, List.map_append, h.numbered, List.length_append, List.length_singleton,
        sequenceids_succ, ← hfresh.2]
      rfl
    · rw [onSlot_hand_of_ne _ _ hs']
      exact h.numbered s'
  · by_cases hs' : s' = s
    · subst hs'
      rw [onSlot_hand, List.dropLast_concat]
      exact hfresh.1
    · rw [onSlot_hand_of_ne _ _ hs']
      exact h.followed s'
  · exact hf.of_onSlot_eq rfl (onSlot_hand_of_ne _ _ hs') fun _ hid => hid
  · refine ⟨⟨l.nextRequest s highest, ?_, rfl⟩, ?_⟩
    · rw [onSlot_hand, List.getLast?_append, List.getLast?_singleton, Option.some_or]
    · simp only [onSlot_hand, List.length_append, List.length_singleton]
      exact hfresh.2

end Hand

theorem Ok.validate {id : ℕ} (h : l.Ok) (ht : l.status t = .awaiting s id) :
    Ok { l with
      validated := update l.validated id true, status := update l.status t (.settled s) } := by
  obtain ⟨⟨r, hlast, hid⟩, hseq⟩ := h.fits_of_status ht rfl
  have hval : ∀ i, l.validated i = true → update l.validated id true i = true := by
    intro i hi
    by_cases hi' : i = id
    · rw [hi', update_self]
    · rw [update_of_ne hi', hi]
  refine h.of_local ht (Or.inl rfl) (Or.inl ⟨rfl, (h.owned t s).mpr (by rw [ht]; rfl), rfl⟩) rfl
    (fun _ _ => rfl) h.numbered (fun s' r hr => hval _ (h.followed s' r hr))
    (fun s' _ C hf => hf.of_onSlot_eq rfl rfl hval) ⟨fun r' hr' => ?_, hseq⟩
  -- the last request is the one that was answered; the others were validated before
  obtain ⟨before, hsplit⟩ := List.getLast?_eq_some_iff.mp hlast
  have hbefore := h.followed s
  have hr' : r' ∈ l.onSlot s := hr'
  rw [hsplit, List.dropLast_concat] at hbefore
  rw [hsplit, List.mem_append, List.mem_singleton] at hr'
  rcases hr' with hr' | rfl
  · exact hval _ (hbefore r' hr')
  · rw [hid]
    exact update_self ..

theorem Ok.advance (h : l.Ok) (ht : l.status t = .settled s) :
    Ok { l with
      slots := update l.slots s { l.slots s with sequenceid := (l.slots s).sequenceid + 1 }
      status := update l.status t (.releasing s) } := by
  obtain ⟨hall, hseq⟩ := h.fits_of_status ht rfl
  refine h.of_local ht (Or.inl rfl) (Or.inl ⟨rfl, (h.owned t s).mpr (by rw [ht]; rfl), rfl⟩) rfl
    (fun _ _ => rfl) h.numbered h.followed
    (fun s' hs' C hf => hf.of_onSlot_eq (update_of_ne hs' ..) rfl fun _ hid => hid)
    fun _ => ⟨hall, ?_⟩
  change (update l.slots s _ s).sequenceid = .ofNat ((l.onSlot s).length + 1)
  rw [update_self, UInt32.ofNat_add, ← hseq]
  rfl

theorem Ok.retire (h : l.Ok) (ht : l.status t = .abandoning s) :
    Ok { l with
      slots := update l.slots s { l.slots s with usable := false }
      status := update l.status t (.releasing s) } := by
  refine h.of_local ht (Or.inl rfl) (Or.inl ⟨rfl, (h.owned t s).mpr (by rw [ht]; rfl), rfl⟩) rfl
    (fun _ _ => rfl) h.numbered h.followed
    (fun s' hs' C hf => hf.of_onSlot_eq (update_of_ne hs' ..) rfl fun _ hid => hid) fun hu => ?_
  simp at hu

theorem Ok.clear {active : ℕ → Bool} (h : l.Ok) (ht : l.status t = .clearing s) :
    Ok { l with active, status := update l.status t .away } := by
  -- `t` holds no lock, so it is nobody's owner
  have hlone : ∀ s', l.owner s' ≠ some t := by
    intro s' ho
    have := (h.owned t s').mp ho
    rw [ht] at this
    cases this
  refine ⟨fun t' s' => ?_, h.numbered, h.followed, fun s' => ?_⟩
  · by_cases ht' : t' = t
    · subst ht'
      simp [hlone s', Status.slot?]
    · dsimp only
      rw [update_of_ne ht']
      exact h.owned t' s'
  · have hold := h.fits s'
    rw [ownerStatus] at hold ⊢
    cases ho : l.owner s' with
    | none => rwa [ho] at hold
    | some u =>
      rw [ho, Option.elim_some] at hold
      have hu : u ≠ t := by
        rintro rfl
        exact hlone s' ho
      rw [Option.elim_some]
      dsimp only
      rw [update_of_ne hu]
      exact hold

theorem Ok.write {request : Request} {queue : List Request} (h : l.Ok)
    (hq : l.queue = request :: queue) :
    Ok { l with queue := queue, wire := l.wire ++ [request] } := by
  have hon : ∀ s, onSlot { l with queue := queue, wire := l.wire ++ [request] } s = l.onSlot s := by
    intro s
    simp [onSlot, hq]
  refine ⟨h.owned, fun s => ?_, fun s => ?_,
    fun s => (h.fits s).of_onSlot_eq rfl (hon s) fun _ hid => hid⟩
  · rw [hon]
    exact h.numbered s
  · rw [hon]
    exact h.followed s

/-- Every step of the protocol keeps its invariant. -/
theorem Step.ok (h : Step may l l') (hl : l.Ok) : l'.Ok := by
  cases h with
  | @look t s ht hs =>
    have hfree := hl.fits s
    rw [ownerStatus, hs] at hfree
    exact hl.of_local ht (Or.inr ⟨rfl, hs⟩) (Or.inl ⟨rfl, update_self .., rfl⟩) rfl
      (fun _ hs' => update_of_ne hs' ..) hl.numbered hl.followed (fun _ _ _ hf => hf) hfree
  | pass ht | unlock ht =>
    exact hl.of_local ht (Or.inl rfl) (Or.inr ⟨rfl, update_self .., rfl⟩) rfl
      (fun _ hs' => update_of_ne hs' ..) hl.numbered hl.followed (fun _ _ _ hf => hf)
      (hl.fits_of_status ht rfl)
  | select ht hs => exact hl.move ht rfl rfl fun hf => ⟨hs, hf hs⟩
  | activate ht hs =>
    have := hl.move ht rfl rfl (B := .holding _) fun hf => hf
    exact ⟨this.owned, this.numbered, this.followed, this.fits⟩
  | arm ht => exact hl.move ht rfl rfl fun hf => hf
  | leave ht =>
    rcases ht with ht | ht
    · exact hl.move ht rfl rfl fun hf _ => hf.2
    · exact hl.move ht rfl rfl fun hf _ => hf.2
  | hand ht highest => exact hl.hand ht
  | validate ht => exact hl.validate ht
  | advance ht => exact hl.advance ht
  | abandon ht =>
    rcases ht with ht | ⟨id, ht⟩
    · exact hl.move ht rfl rfl fun _ => trivial
    · exact hl.move ht rfl rfl fun _ => trivial
  | retire ht => exact hl.retire ht
  | clear ht => exact hl.clear ht
  | write hq => exact hl.write hq

/-- Each request has an id of its own: ids count the requests handed over. -/
theorem Step.map_id (h : Step may l l')
    (hl : (l.wire ++ l.queue).map (·.id) = List.range (l.wire ++ l.queue).length) :
    (l'.wire ++ l'.queue).map (·.id) = List.range (l'.wire ++ l'.queue).length := by
  cases h with
  | hand ht highest =>
    simp only [← List.append_assoc, List.map_append, hl]
    simp [← Nat.add_assoc, List.range_succ]
  | write hq =>
    rw [hq] at hl
    simpa using hl
  | _ => exact hl

/-! ### Flags -/

/-- Every slot with a guard is flagged, and nobody is about to clear its flag. -/
def Flagged (l : Life) : Prop :=
  ∀ t s, (l.status t).guarded? = some s → l.active s = true ∧ ∀ u, l.status u ≠ .clearing s

/-- A step of `t` that neither takes a guard nor touches a flag. -/
theorem Flagged.move (h : l.Flagged) (ht : l.status t = A)
    (hstatus : l'.status = update l.status t B) (hactive : l'.active = l.active)
    (hB : ∀ s, B.guarded? = some s → A.guarded? = some s) (hclear : ∀ s, B ≠ .clearing s) :
    l'.Flagged := by
  have hguard : ∀ u s, (l'.status u).guarded? = some s → (l.status u).guarded? = some s := by
    intro u s hu
    rw [hstatus] at hu
    by_cases hut : u = t
    · subst hut
      rw [update_self] at hu
      rw [ht]
      exact hB s hu
    · rwa [update_of_ne hut] at hu
  intro u s hu
  obtain ⟨hflag, hno⟩ := h u s (hguard u s hu)
  refine ⟨by rw [hactive, hflag], fun v => ?_⟩
  rw [hstatus]
  by_cases hvt : v = t
  · subst hvt
    rw [update_self]
    exact hclear s
  · rw [update_of_ne hvt]
    exact hno v

theorem Flagged.activate (h : l.Flagged) (hs : ∀ u, l.status u ≠ .clearing s) :
    Flagged { l with
      active := update l.active s true, status := update l.status t (.holding s) } := by
  intro u s' hu
  have hclearing : ∀ v, update l.status t (.holding s) v = .clearing s' →
      l.status v = .clearing s' := by
    intro v hv
    by_cases hvt : v = t
    · subst hvt
      rw [update_self] at hv
      cases hv
    · rwa [update_of_ne hvt] at hv
  dsimp only at hu ⊢
  by_cases hs' : s' = s
  · subst hs'
    exact ⟨update_self .., fun v hv => hs v (hclearing v hv)⟩
  · have hut : u ≠ t := by
      rintro rfl
      rw [update_self] at hu
      exact hs' (Option.some.inj hu).symm
    rw [update_of_ne hut] at hu
    obtain ⟨hflag, hno⟩ := h u s' hu
    exact ⟨by rw [update_of_ne hs', hflag], fun v hv => hno v (hclearing v hv)⟩

theorem Flagged.unlock (h : l.Flagged) (hl : l.Ok) (ht : l.status t = .releasing s)
    {owner : ℕ → Option ℕ} :
    Flagged { l with owner, status := update l.status t (.clearing s) } := by
  intro u s' hu
  dsimp only at hu ⊢
  have hut : u ≠ t := by
    rintro rfl
    rw [update_self] at hu
    cases hu
  rw [update_of_ne hut] at hu
  -- nobody else has a guard on the slot `t` had a guard on
  have hs' : s' ≠ s := by
    rintro rfl
    have ho := (hl.owned t s').mpr (by rw [ht]; rfl)
    rw [(hl.owned u s').mpr (Status.slot?_of_guarded? hu)] at ho
    exact hut (Option.some.inj ho)
  obtain ⟨hflag, hno⟩ := h u s' hu
  refine ⟨hflag, fun v hv => ?_⟩
  by_cases hvt : v = t
  · subst hvt
    rw [update_self] at hv
    cases hv
    exact hs' rfl
  · rw [update_of_ne hvt] at hv
    exact hno v hv

theorem Flagged.clear (h : l.Flagged) (ht : l.status t = .clearing s) :
    Flagged { l with active := update l.active s false, status := update l.status t .away } := by
  intro u s' hu
  dsimp only at hu ⊢
  have hut : u ≠ t := by
    rintro rfl
    rw [update_self] at hu
    cases hu
  rw [update_of_ne hut] at hu
  obtain ⟨hflag, hno⟩ := h u s' hu
  have hs' : s' ≠ s := by
    rintro rfl
    exact hno t ht
  refine ⟨by rw [update_of_ne hs', hflag], fun v hv => ?_⟩
  by_cases hvt : v = t
  · subst hvt
    rw [update_self] at hv
    cases hv
  · rw [update_of_ne hvt] at hv
    exact hno v hv

/-- When a flag is set only where no clear is due, slots with a guard stay
flagged. -/
theorem Step.flagged (h : Step (fun s => ∀ u, l.status u ≠ .clearing s) l l') (hl : l.Ok)
    (hf : l.Flagged) : l'.Flagged := by
  cases h with
  | look ht _ | pass ht | select ht _ =>
    exact hf.move ht rfl rfl (fun _ h => h) fun _ h => by cases h
  | arm ht | hand ht _ | validate ht | advance ht | retire ht =>
    exact hf.move ht rfl rfl (fun _ h => h) fun _ h => by cases h
  | leave ht =>
    rcases ht with ht | ht
    · exact hf.move ht rfl rfl (fun _ h => h) fun _ h => by cases h
    · exact hf.move ht rfl rfl (fun _ h => h) fun _ h => by cases h
  | abandon ht =>
    rcases ht with ht | ⟨id, ht⟩
    · exact hf.move ht rfl rfl (fun _ h => h) fun _ h => by cases h
    · exact hf.move ht rfl rfl (fun _ h => h) fun _ h => by cases h
  | activate _ hs => exact hf.activate hs
  | unlock ht => exact hf.unlock hl ht
  | clear ht => exact hf.clear ht
  | write hq => exact hf

end Life

end NfsCrust.Slots
