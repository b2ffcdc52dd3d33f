import NfsCrust.Lib.Runs

/-!
# Threads under changing labels

A thread of a pool is known under a label, and what it does to the world is told by how its
label changes.  `Thread.Tracked` is that notion: every request takes the label to another, in a
way that `track` allows, and the last label says what the thread returns.

## Main definitions

* `Thread.Tracked` — a thread and its labels.

## Main results

* `Thread.Tracked.bind` — a thread after another.
* `Pool.ensures_run_tracked` — the rule for pools of such threads.
-/

namespace Interaction

variable {E : Interface} {W α β σ X : Type} {serve : (e : E.Request) → W → E.Response e → W → Prop}
  {track : X → X → W → W → Prop}

/-- Every request of the thread takes its label on; the last one says what is returned. -/
def Thread.Tracked (serve : (e : E.Request) → W → E.Response e → W → Prop)
    (track : X → X → W → W → Prop) (result : X → α → Prop) : X → Thread E α → Prop
  | x, ret a => result x a
  | x, ask e k => ∀ w r w', serve e w r w' →
      ∃ x', track x x' w w' ∧ Tracked serve track result x' (k r)

theorem Thread.Tracked.bind {result : X → β → Prop} {x : X} {t : Thread E α} {f : α → Thread E β}
    (h : t.Tracked serve track (fun x a => (f a).Tracked serve track result x) x) :
    (t.bind f).Tracked serve track result x := by
  induction t generalizing x with
  | ret a => exact h
  | ask e k ih =>
    intro w r w' hserve
    obtain ⟨x', htrack, hrest⟩ := h w r w' hserve
    exact ⟨x', htrack, ih r hrest⟩

/-- **The rule for pools.**  The invariant is about the labels: it survives the start of a thread,
a step from one label to another, and a result that its last label allows. -/
theorem Pool.ensures_run_tracked {P : Pool E σ β} {s : σ} {w : W} {always : W → Prop}
    {post : σ → W → Prop} (track : X → X → W → W → Prop) (result : X → β → Prop)
    (I : σ → List X → W → Prop)
    (hdepth : 0 < P.depth) (hstart : I s [] w) (halways : ∀ s xs w, I s xs w → always w)
    (hnext : ∀ s xs w t s', I s xs w → P.next s = some (t, s') →
      ∃ x, t.Tracked serve track result x ∧ I s' (xs ++ [x]) w)
    (htrack : ∀ s l x x' r w w', I s (l ++ x :: r) w → track x x' w w' → I s (l ++ x' :: r) w')
    (habsorb : ∀ s l x r b w, I s (l ++ x :: r) w → result x b → I (P.absorb s b) (l ++ r) w)
    (hdone : ∀ s w, I s [] w → P.next s = none → post s w) :
    Ensures serve always (P.run s) w post := by
  refine ensures_run (fun x t _ => t.Tracked serve track result x) I hdepth hstart halways hnext
    ?_ habsorb hdone
  intro s l x r e k w resp w' hI htracked hserve
  obtain ⟨x', hx', hrest⟩ := htracked w resp w' hserve
  exact ⟨⟨x', hrest, htrack s l x x' r w w' hI hx'⟩, fun _ _ _ ht => ht⟩

end Interaction
