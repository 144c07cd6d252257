import Mathlib.Algebra.BigOperators.Ring.Finset

/-!
# Counting by backtracking

A search that fills one place after the other and undoes every choice counts the leaves of its
tree of choices. `leaves choices left p` is that number: `p` are the choices made so far, `left`
places are still open and `choices p` are the values that may stand in the next one.

The program keeps its choices in a store that it changes and changes back, and its count in a
counter that it increments once for each leaf; the increment is a parameter that may fail (a
machine integer that is full). `bump inc k` is `k` increments.

Results:
* `bump_add`: counting `a` leaves and then `b` leaves is counting `a + b` leaves.
* `foldlM_bump`, `foldlM_error`: a loop whose rounds each leave the store as it was and count `f c`
  leaves counts the sum, and leaves the store as it was; if some round always fails, so does the
  loop.
* `Throughout`: what holds at every node of the tree that is not a leaf.
* `leaves_filter`: the choices that a test leaves of a fixed list, summed over that list.
* `leaves_congr`: two trees with the same choices below `p` have the same number of leaves there.
* `mem_leafPaths`, `leaves_eq_card`: the leaves are the fillings each of whose values was a choice
  behind the ones before it; without repeated choices their number is that of a set.
-/

namespace AsioLearn.Lib.Backtrack

variable {α β κ ε : Type}

/-! ## The counter -/

/-- `k` increments of the counter, up to the first that fails. -/
def bump (inc : κ → Except ε κ) : Nat → κ → Except ε κ
  | 0, s => .ok s
  | k + 1, s => inc s >>= bump inc k

variable {inc : κ → Except ε κ}

@[simp]
theorem bump_zero (s : κ) : bump inc 0 s = .ok s := rfl

theorem bump_one (s : κ) : bump inc 1 s = inc s := by
  simp only [bump]
  cases inc s <;> rfl

theorem bump_add (a b : Nat) (s : κ) : bump inc (a + b) s = bump inc a s >>= bump inc b := by
  induction a generalizing s with
  | zero => rw [Nat.zero_add]; rfl
  | succ a ih =>
    rw [Nat.succ_add]
    simp only [bump]
    cases hs : inc s with
    | error e => rfl
    | ok s' => exact ih s'

/-- If the increment fails in one way only, then so do several. -/
theorem bump_error_eq {e e' : ε} (hinc : ∀ s e', inc s = .error e' → e' = e) {k : Nat} {s : κ}
    (h : bump inc k s = .error e') : e' = e := by
  induction k generalizing s with
  | zero => cases h
  | succ k ih =>
    simp only [bump] at h
    cases hs : inc s with
    | error e'' =>
      rw [hs] at h
      obtain rfl := Except.error.inj h
      exact hinc s e'' hs
    | ok s' =>
      rw [hs] at h
      exact ih h

/-- A loop of a search: every round finds the store as the loop found it, counts the leaves below
its choice and restores the store. -/
theorem foldlM_bump {step : β × κ → α → Except ε (β × κ)} {f : α → Nat} {b : β} (cs : List α)
    (hstep : ∀ c ∈ cs, ∀ s, step (b, s) c = (bump inc (f c) s).map (b, ·)) (s : κ) :
    cs.foldlM step (b, s) = (bump inc (cs.map f).sum s).map (b, ·) := by
  induction cs generalizing s with
  | nil => rfl
  | cons c cs ih =>
    rw [List.foldlM_cons, List.map_cons, List.sum_cons, bump_add,
      hstep c List.mem_cons_self s]
    cases bump inc (f c) s with
    | error e => rfl
    | ok s' => exact ih (fun c' hc' => hstep c' (List.mem_cons_of_mem c hc')) s'

/-- One round that fails, whatever the count, is enough, if the increment fails in no other way. -/
theorem foldlM_error {step : β × κ → α → Except ε (β × κ)} {f : α → Nat} {b : β} {e : ε}
    (hinc : ∀ s e', inc s = .error e' → e' = e) {cs : List α}
    (hstep : ∀ c ∈ cs, (∀ s, step (b, s) c = (bump inc (f c) s).map (b, ·)) ∨
      ∀ s, step (b, s) c = .error e)
    (hbad : ∃ c ∈ cs, ∀ s, step (b, s) c = .error e) (s : κ) :
    cs.foldlM step (b, s) = .error e := by
  induction cs generalizing s with
  | nil =>
    obtain ⟨c, hc, -⟩ := hbad
    cases hc
  | cons c cs ih =>
    rw [List.foldlM_cons]
    by_cases hhead : ∀ s, step (b, s) c = .error e
    · rw [hhead s]
      rfl
    · rw [(hstep c List.mem_cons_self).resolve_right hhead s]
      obtain ⟨c', hc', hbad'⟩ := hbad
      have hc' : c' ∈ cs := by
        rcases List.mem_cons.mp hc' with rfl | hc'
        · exact absurd hbad' hhead
        · exact hc'
      cases hs : bump inc (f c) s with
      | error e' =>
        rw [bump_error_eq hinc hs]
        rfl
      | ok s' => exact ih (fun c hc => hstep c (List.mem_cons_of_mem _ hc)) ⟨c', hc', hbad'⟩ s'

/-! ## The tree of choices -/

/-- The number of ways to fill `left` more places behind `p`. -/
def leaves (choices : List α → List α) : Nat → List α → Nat
  | 0, _ => 1
  | left + 1, p => ((choices p).map fun c => leaves choices left (p ++ [c])).sum

/-- Summing over the values a test leaves is summing over all of them, the others counting zero. -/
theorem sum_map_filter (ok : α → Bool) (f : α → Nat) (cs : List α) :
    ((cs.filter ok).map f).sum = (cs.map fun c => if ok c then f c else 0).sum := by
  induction cs with
  | nil => rfl
  | cons c cs ih => by_cases hc : ok c <;> simp [hc, ih]

theorem leaves_filter {choices : List α → List α} {p cs : List α} {ok : α → Bool}
    (h : choices p = cs.filter ok) (left : Nat) :
    leaves choices (left + 1) p =
      (cs.map fun c => if ok c then leaves choices left (p ++ [c]) else 0).sum := by
  rw [leaves, h, sum_map_filter]

/-- Only the choices below `p` matter. -/
theorem leaves_congr {choices choices' : List α → List α} {left : Nat} {p : List α}
    (h : ∀ r, r.length < left → choices (p ++ r) = choices' (p ++ r)) :
    leaves choices left p = leaves choices' left p := by
  induction left generalizing p with
  | zero => rfl
  | succ left ih =>
    have h0 : choices p = choices' p := by simpa using h [] (Nat.succ_pos left)
    rw [leaves, leaves, h0]
    congr 1
    refine List.map_congr_left fun c _ => ih fun r hr => ?_
    rw [List.append_assoc]
    exact h ([c] ++ r) (by simp only [List.length_append, List.length_singleton]; omega)

/-- `P` holds of the choices made at every node from `p` down to the last place. -/
def Throughout (choices : List α → List α) (P : List α → Prop) : Nat → List α → Prop
  | 0, _ => True
  | left + 1, p => P p ∧ ∀ c ∈ choices p, Throughout choices P left (p ++ [c])

/-- What follows from something that every choice keeps holds throughout. -/
theorem throughout_of {choices : List α → List α} {P I : List α → Prop} {left : Nat} {p : List α}
    (h : ∀ r, I r → r.length < p.length + left → P r ∧ ∀ c ∈ choices r, I (r ++ [c])) (hp : I p) :
    Throughout choices P left p := by
  induction left generalizing p with
  | zero => trivial
  | succ left ih =>
    obtain ⟨hP, hchoices⟩ := h p hp (by omega)
    refine ⟨hP, fun c hc => ih (fun r hr hlen => h r hr ?_) (hchoices c hc)⟩
    rw [List.length_append, List.length_singleton] at hlen
    omega

/-! ## The leaves themselves -/

/-- The fillings the leaves stand for, in the order they are found. -/
def leafPaths (choices : List α → List α) : Nat → List α → List (List α)
  | 0, p => [p]
  | left + 1, p => (choices p).flatMap fun c => leafPaths choices left (p ++ [c])

theorem length_leafPaths (choices : List α → List α) (left : Nat) (p : List α) :
    (leafPaths choices left p).length = leaves choices left p := by
  induction left generalizing p with
  | zero => rfl
  | succ left ih => simp only [leafPaths, leaves, List.length_flatMap, ih]

/-- The value at the end of a prefix that is one longer. -/
theorem prefix_snoc_iff {p r : List α} {c : α} :
    p ++ [c] <+: r ↔ p <+: r ∧ ∃ h : p.length < r.length, r[p.length] = c := by
  constructor
  · rintro ⟨s, rfl⟩
    exact ⟨⟨c :: s, by simp⟩, by simp, by simp⟩
  · rintro ⟨⟨s, rfl⟩, h, rfl⟩
    cases s with
    | nil => simp at h
    | cons c s => exact ⟨s, by simp⟩

theorem mem_leafPaths {choices : List α → List α} {left : Nat} {p r : List α} :
    r ∈ leafPaths choices left p ↔ r.length = p.length + left ∧ p <+: r ∧
      ∀ k (hk : k < r.length), p.length ≤ k → r[k] ∈ choices (r.take k) := by
  induction left generalizing p with
  | zero =>
    rw [leafPaths, List.mem_singleton]
    constructor
    · rintro rfl
      exact ⟨rfl, List.prefix_rfl, fun k hk hle => absurd hk (not_lt.mpr hle)⟩
    · rintro ⟨hlen, hpre, -⟩
      exact (hpre.eq_of_length hlen.symm).symm
  | succ left ih =>
    simp only [leafPaths, List.mem_flatMap, ih, prefix_snoc_iff, List.length_append,
      List.length_singleton]
    constructor
    · rintro ⟨c, hc, hlen, ⟨hpre, hlt, rfl⟩, hrest⟩
      refine ⟨by omega, hpre, ?_⟩
      intro k hk hle
      rcases Nat.eq_or_lt_of_le hle with rfl | hlt'
      · rw [← List.prefix_iff_eq_take.mp hpre]
        exact hc
      · exact hrest k hk hlt'
    · rintro ⟨hlen, hpre, hrest⟩
      have hlt : p.length < r.length := by omega
      refine ⟨r[p.length], ?_, by omega, ⟨hpre, hlt, rfl⟩, fun k hk hle => hrest k hk (by omega)⟩
      have := hrest p.length hlt le_rfl
      rwa [← List.prefix_iff_eq_take.mp hpre] at this

theorem nodup_leafPaths {choices : List α → List α} (h : ∀ p, (choices p).Nodup) (left : Nat)
    (p : List α) : (leafPaths choices left p).Nodup := by
  induction left generalizing p with
  | zero => exact List.nodup_singleton p
  | succ left ih =>
    rw [leafPaths, List.nodup_flatMap]
    refine ⟨fun c _ => ih (p ++ [c]), (h p).imp ?_⟩
    -- leaves below different choices differ in that place
    intro c c' hne r hr hr'
    obtain ⟨-, hpre, -⟩ := mem_leafPaths.mp hr
    obtain ⟨-, hpre', -⟩ := mem_leafPaths.mp hr'
    obtain ⟨-, hlt, hc⟩ := prefix_snoc_iff.mp hpre
    obtain ⟨-, _, hc'⟩ := prefix_snoc_iff.mp hpre'
    exact hne (hc.symm.trans hc')

/-- **Counting the leaves is counting a set.** -/
theorem leaves_eq_card [DecidableEq α] {choices : List α → List α} (h : ∀ p, (choices p).Nodup)
    (left : Nat) (p : List α) :
    leaves choices left p = (leafPaths choices left p).toFinset.card := by
  rw [List.toFinset_card_of_nodup (nodup_leafPaths h left p), length_leafPaths]

end AsioLearn.Lib.Backtrack
