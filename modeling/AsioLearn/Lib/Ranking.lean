import AsioLearn.Lib.Lts
import Mathlib.Algebra.BigOperators.Group.Finset.Basic
import Mathlib.Algebra.Order.BigOperators.Group.Finset

/-!
# Ranks and counts along a run

What a number computed from the state says about the length of a run, and about the steps in it.

Results:
* `run_ranked_of_meets`, `run_ranked`: a run of steps that lower a rank is at most as long as the
  rank.
* `exists_rest`: bounded runs come to a state from which no step is left.
* `run_budget`: where other steps raise the rank, each by a bounded amount.
* `run_countP_le`: a number that pays for the steps of a kind bounds how often they are taken.
* `run_count_iff`: a count that steps meeting a condition keep, and the others raise, is kept by the
  run exactly if all steps meet the condition.
* `sum_range_change`, `sum_range_update`: a rank that is a sum over the parties, after a step of
  one of them.
-/

namespace AsioLearn.Lib.Lts

variable {σ ε : Type*} {step : σ → ε → Option σ} {C : σ → ε → Prop}

/-- **Ranking rule**: steps that lower a rank come to an end, whatever their order. -/
theorem run_ranked_of_meets {I : σ → Prop} {rank : σ → Nat}
    (hstep : ∀ s e s', I s → C s e → step s e = some s' → I s' ∧ rank s' < rank s) {s t : σ}
    {es : List ε} (h0 : I s) (hm : Meets step C s es) (h : run step s es = some t) :
    I t ∧ es.length + rank t ≤ rank s := by
  induction es generalizing s with
  | nil =>
    obtain rfl := Option.some.inj h
    exact ⟨h0, Nat.le_of_eq (Nat.zero_add (rank s))⟩
  | cons e es ih =>
    obtain ⟨s', h1, h2⟩ := run_cons_eq_some.mp h
    obtain ⟨hI, hlt⟩ := hstep s e s' h0 hm.1 h1
    obtain ⟨hIt, hle⟩ := ih hI (hm.2 s' h1) h2
    refine ⟨hIt, ?_⟩
    rw [List.length_cons]
    omega

/-- The same for a condition on the events alone. -/
theorem run_ranked {I : σ → Prop} {P : ε → Prop} {rank : σ → Nat}
    (hstep : ∀ s e s', I s → P e → step s e = some s' → I s' ∧ rank s' < rank s) {s t : σ}
    {es : List ε} (h0 : I s) (hP : ∀ e ∈ es, P e) (h : run step s es = some t) :
    I t ∧ es.length + rank t ≤ rank s :=
  run_ranked_of_meets hstep h0 (meets_of_forall hP) h

/-- **Paying rule**: the steps of a kind each take one off a number that no other step raises. -/
theorem run_countP_le (P : ε → Bool) (left : σ → Nat)
    (hstep : ∀ s e s', step s e = some s' → (P e).toNat + left s' ≤ left s) {s t : σ}
    {es : List ε} (h : run step s es = some t) : es.countP P + left t ≤ left s := by
  induction es generalizing s with
  | nil =>
    obtain rfl := Option.some.inj h
    exact Nat.le_of_eq (Nat.zero_add _)
  | cons e es ih =>
    obtain ⟨s', h1, h2⟩ := run_cons_eq_some.mp h
    have hfirst := hstep s e s' h1
    have hrest := ih h2
    rw [List.countP_cons]
    cases hP : P e with
    | false =>
      rw [hP, Bool.toNat_false] at hfirst
      simp only [Bool.false_eq_true, if_false]
      omega
    | true =>
      rw [hP, Bool.toNat_true] at hfirst
      simp only [if_true]
      omega

/-- **Rest rule**: where the runs that meet `C` are bounded, one of them cannot be continued. -/
theorem exists_rest {s : σ} {bound : Nat}
    (hbound : ∀ es t, run step s es = some t → Meets step C s es → es.length ≤ bound) :
    ∃ es t, run step s es = some t ∧ Meets step C s es ∧ ∀ e, C t e → step t e = none := by
  by_contra hnone
  have hlong : ∀ k, ∃ es t, run step s es = some t ∧ Meets step C s es ∧ es.length = k := by
    intro k
    induction k with
    | zero => exact ⟨[], s, rfl, trivial, rfl⟩
    | succ k ih =>
      obtain ⟨es, t, hrun, hm, hlen⟩ := ih
      obtain ⟨e, hC, hstep⟩ : ∃ e, C t e ∧ step t e ≠ none := by
        by_contra hstuck
        exact hnone ⟨es, t, hrun, hm, fun e hC => by_contra fun he => hstuck ⟨e, hC, he⟩⟩
      obtain ⟨u, hu⟩ := Option.ne_none_iff_exists'.mp hstep
      refine ⟨es ++ [e], u, run_snoc hrun hu, meets_snoc hm hrun hC, ?_⟩
      rw [List.length_append, hlen, List.length_singleton]
  obtain ⟨es, t, hrun, hm, hlen⟩ := hlong (bound + 1)
  have hle := hbound es t hrun hm
  omega

/-- **Budget rule**: steps of a kind lower a rank, and any other step raises it by `c` at most. They
are then as many as the rank and what the others have added to it. -/
theorem run_budget {I : σ → Prop} {D : ε → Prop} (P : ε → Bool) {rank : σ → Nat} {c : Nat}
    (hstep : ∀ s e s', I s → D e → step s e = some s' →
      I s' ∧ (P e = true → rank s' < rank s) ∧ rank s' ≤ rank s + c) {s t : σ} {es : List ε}
    (h0 : I s) (hD : ∀ e ∈ es, D e) (h : run step s es = some t) :
    es.countP P + rank t ≤ rank s + c * es.countP fun e => !P e := by
  induction es generalizing s with
  | nil =>
    obtain rfl := Option.some.inj h
    exact Nat.le_of_eq (Nat.zero_add _)
  | cons e es ih =>
    obtain ⟨s', h1, h2⟩ := run_cons_eq_some.mp h
    obtain ⟨hI, hlower, hraise⟩ := hstep s e s' h0 (hD e List.mem_cons_self) h1
    have hrest := ih hI (fun e' he' => hD e' (List.mem_cons_of_mem e he')) h2
    rw [List.countP_cons, List.countP_cons]
    cases hP : P e with
    | true =>
      have hlt := hlower hP
      simp only [if_true, Bool.not_true, Bool.false_eq_true, if_false, Nat.add_zero]
      omega
    | false =>
      simp only [Bool.false_eq_true, if_false, Bool.not_false, if_true, Nat.mul_add, Nat.mul_one]
      omega

/-- **Counting rule.** A count that a step keeps if it meets `C`, and raises if it does not. -/
theorem run_count_iff {I : σ → Prop} {P : ε → Prop} {count : σ → Nat}
    (hstep : ∀ s e s', I s → P e → step s e = some s' →
      I s' ∧ (C s e → count s' = count s) ∧ (¬ C s e → count s < count s'))
    {s t : σ} {es : List ε} (h0 : I s) (hP : ∀ e ∈ es, P e) (h : run step s es = some t) :
    count s ≤ count t ∧ (count t = count s ↔ Meets step C s es) := by
  induction es generalizing s with
  | nil =>
    obtain rfl := Option.some.inj h
    exact ⟨Nat.le_refl _, iff_of_true rfl trivial⟩
  | cons e es ih =>
    obtain ⟨s', h1, h2⟩ := run_cons_eq_some.mp h
    obtain ⟨hI, hkeep, hraise⟩ := hstep s e s' h0 (hP e List.mem_cons_self) h1
    obtain ⟨hle, hiff⟩ := ih hI (fun e' he' => hP e' (List.mem_cons_of_mem e he')) h2
    by_cases hC : C s e
    · rw [hkeep hC] at hle hiff
      refine ⟨hle, hiff.trans ⟨fun hm => ⟨hC, fun u hu => ?_⟩, fun hm => hm.2 s' h1⟩⟩
      obtain rfl := Option.some.inj (h1.symm.trans hu)
      exact hm
    · have hlt := hraise hC
      exact ⟨by omega, iff_of_false (by omega) fun hm => hC hm.1⟩

/-! ## Sums over the parties -/

/-- Sums that differ in one place. -/
theorem sum_range_change {n s : Nat} {f g : Nat → Nat} (hs : s < n) (h : ∀ t, t ≠ s → g t = f t) :
    (∑ t ∈ Finset.range n, g t) + f s = (∑ t ∈ Finset.range n, f t) + g s := by
  have hmem : s ∈ Finset.range n := Finset.mem_range.mpr hs
  have hf := Finset.add_sum_erase (Finset.range n) f hmem
  have hg := Finset.add_sum_erase (Finset.range n) g hmem
  have heq : ∑ t ∈ (Finset.range n).erase s, g t = ∑ t ∈ (Finset.range n).erase s, f t :=
    Finset.sum_congr rfl fun t ht => h t (Finset.ne_of_mem_erase ht)
  omega

theorem sum_range_update {α : Type*} (f : α → Nat) (g : Nat → α) {n i : Nat} (x : α) (hi : i < n) :
    (∑ k ∈ Finset.range n, f (Function.update g i x k)) + f (g i) =
      (∑ k ∈ Finset.range n, f (g k)) + f x := by
  have h := sum_range_change (f := fun k => f (g k)) (g := fun k => f (Function.update g i x k)) hi
    fun k hk => by rw [Function.update_of_ne hk]
  rwa [Function.update_self] at h

end AsioLearn.Lib.Lts
