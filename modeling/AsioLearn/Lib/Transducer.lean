import Mathlib.Tactic.Linarith
import Mathlib.Tactic.TypeStar

/-!
# Stream transducers and the state that survives a cut

A transducer reads its input one element at a time and emits outputs (`feed`). A stream that is
delivered in chunks goes through the same transducer chunk by chunk (`feedChunks`); between two
chunks only `keep` of the state is carried over. A decoder that resumes exactly where it stopped
has `keep = id`; one that forgets part of its state at the end of a chunk has a smaller `keep`.

Results:
* `feed_append`: feeding is a monoid action; it does not see where its input was cut.
* `feedChunks_of_kept`: a machine that forgets agrees with the uncut stream as soon as no cut
  falls where it would forget something (`CutsKept`).
* `feedChunks_before_last`: before the last chunk of such a delivery nothing has been forgotten.
* `feedChunks_invariant`: a relation between the input so far and the state, kept by `step` and by
  `keep`, holds after any chunks.
-/

namespace AsioLearn.Lib.Transducer

variable {σ α ο : Type*}

/-- Feed inputs one at a time, collecting the outputs in order. -/
def feed (step : σ → α → σ × List ο) : σ → List α → σ × List ο
  | s, [] => (s, [])
  | s, a :: as =>
    let r := step s a
    let t := feed step r.1 as
    (t.1, r.2 ++ t.2)

/-- Feed chunk by chunk; `keep` is what of the state survives the end of a chunk. -/
def feedChunks (step : σ → α → σ × List ο) (keep : σ → σ) : σ → List (List α) → σ × List ο
  | s, [] => (s, [])
  | s, c :: cs =>
    let r := feed step s c
    let t := feedChunks step keep (keep r.1) cs
    (t.1, r.2 ++ t.2)

variable {step : σ → α → σ × List ο} {keep : σ → σ}

@[simp]
theorem feed_nil (s : σ) : feed step s [] = (s, []) := rfl

theorem feed_cons (s : σ) (a : α) (as : List α) :
    feed step s (a :: as) =
      ((feed step (step s a).1 as).1, (step s a).2 ++ (feed step (step s a).1 as).2) := rfl

theorem feed_append (s : σ) (as bs : List α) :
    feed step s (as ++ bs) =
      ((feed step (feed step s as).1 bs).1,
        (feed step s as).2 ++ (feed step (feed step s as).1 bs).2) := by
  induction as generalizing s with
  | nil => rfl
  | cons a as ih =>
    rw [List.cons_append, feed_cons, ih, feed_cons]
    simp only [List.append_assoc]

@[simp]
theorem feedChunks_nil (s : σ) : feedChunks step keep s [] = (s, []) := rfl

theorem feedChunks_cons (s : σ) (c : List α) (cs : List (List α)) :
    feedChunks step keep s (c :: cs) =
      ((feedChunks step keep (keep (feed step s c).1) cs).1,
        (feed step s c).2 ++ (feedChunks step keep (keep (feed step s c).1) cs).2) := rfl

/-- No cut between two chunks falls where the machine would forget something. -/
def CutsKept (step : σ → α → σ × List ο) (keep : σ → σ) (s : σ) (cs : List (List α)) : Prop :=
  ∀ k, 0 < k → k < cs.length →
    keep (feed step s (cs.take k).flatten).1 = (feed step s (cs.take k).flatten).1

theorem CutsKept.tail {s : σ} {c : List α} {cs : List (List α)}
    (h : CutsKept step keep s (c :: cs)) : CutsKept step keep (feed step s c).1 cs := by
  intro k hk hlt
  have h1 := h (k + 1) (by omega) (by simp only [List.length_cons]; omega)
  rw [List.take_succ_cons, List.flatten_cons, feed_append] at h1
  exact h1

/-- **Cuts where nothing is forgotten are invisible.** The last state is what survives of the
state the uncut stream leads to. -/
theorem feedChunks_of_kept {s : σ} {cs : List (List α)} (h : CutsKept step keep s cs)
    (hne : cs ≠ []) :
    feedChunks step keep s cs = (keep (feed step s cs.flatten).1, (feed step s cs.flatten).2) := by
  induction cs generalizing s with
  | nil => exact absurd rfl hne
  | cons c cs ih =>
    rw [feedChunks_cons, List.flatten_cons, feed_append]
    by_cases hcs : cs = []
    · subst hcs
      simp
    · have hlen : 0 < cs.length := List.length_pos_iff.mpr hcs
      have hkeep := h 1 (by omega) (by simp only [List.length_cons]; omega)
      rw [List.take_succ_cons, List.take_zero, List.flatten_cons, List.flatten_nil,
        List.append_nil] at hkeep
      rw [hkeep, ih h.tail hcs]

/-- Before the last chunk nothing has been forgotten. -/
theorem feedChunks_before_last {s : σ} {cs : List (List α)} {c : List α}
    (h : CutsKept step keep s (cs ++ [c])) :
    feedChunks step keep s cs = feed step s cs.flatten := by
  have hlen : (cs ++ [c]).length = cs.length + 1 := by simp
  by_cases hcs : cs = []
  · subst hcs
    rfl
  · have hpre : CutsKept step keep s cs := by
      intro k hk hlt
      have := h k hk (by omega)
      rwa [List.take_append_of_le_length hlt.le] at this
    have hlast := h cs.length (List.length_pos_iff.mpr hcs) (by omega)
    rw [List.take_append_of_le_length le_rfl, List.take_length] at hlast
    rw [feedChunks_of_kept hpre hcs, hlast]

/-- **Invariants of the state and the input so far.** What every step and every end of a chunk
preserve holds after any chunks. -/
theorem feedChunks_invariant {I : List α → σ → Prop}
    (hstep : ∀ done s a, I done s → I (done ++ [a]) (step s a).1)
    (hkeep : ∀ done s, I done s → I done (keep s)) {done : List α} {s : σ} (hs : I done s)
    (cs : List (List α)) : I (done ++ cs.flatten) (feedChunks step keep s cs).1 := by
  have hfeed : ∀ (as done : List α) (s : σ), I done s → I (done ++ as) (feed step s as).1 := by
    intro as
    induction as with
    | nil =>
      intro done s h
      rwa [List.append_nil]
    | cons a as ih =>
      intro done s h
      have := ih (done ++ [a]) _ (hstep done s a h)
      rwa [List.append_assoc, List.singleton_append] at this
  induction cs generalizing done s with
  | nil => rwa [List.flatten_nil, List.append_nil]
  | cons c cs ih =>
    have := ih (hkeep _ _ (hfeed c done s hs))
    rwa [List.append_assoc, ← List.flatten_cons] at this

end AsioLearn.Lib.Transducer
