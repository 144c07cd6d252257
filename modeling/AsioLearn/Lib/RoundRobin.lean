import Mathlib.Data.Int.CardIntervalMod

/-!
# Taking turns

`n` takers are served one after the other, over and over: turn `k` is that of taker `k % n`.

Results:
* `next_turn`: an index that is counted up, and set back to 0 when it has come to `n`, is the one of
  the turn.
* `balanced_turns`: no taker is ever more than one turn ahead of another.
* `turns_eq_replicate_iff`, `balanced_replicate_iff`: when always serving taker 0 is the same, and
  when it is balanced.
-/

namespace AsioLearn.Lib.RoundRobin

/-- The takers of the first `k` turns. -/
def turns (n k : Nat) : List Nat := (List.range k).map (· % n)

/-- No taker is more than one turn ahead of another. -/
def Balanced (n : Nat) (l : List Nat) : Prop := ∀ c < n, ∀ d < n, l.count c ≤ l.count d + 1

variable {n k : Nat}

theorem turns_succ (n k : Nat) : turns n (k + 1) = turns n k ++ [k % n] := by
  unfold turns
  rw [List.range_succ, List.map_append]
  rfl

@[simp]
theorem length_turns (n k : Nat) : (turns n k).length = k := by simp [turns]

/-- The index of the next turn. -/
theorem next_turn (hn : 0 < n) (k : Nat) :
    (if k % n + 1 = n then 0 else k % n + 1) = (k + 1) % n := by
  have hlt := Nat.mod_lt k hn
  rw [← Nat.mod_add_mod k n 1]
  split_ifs with h
  · rw [h, Nat.mod_self]
  · rw [Nat.mod_eq_of_lt (show k % n + 1 < n by omega)]

/-! ## How often it is whose turn -/

theorem count_turns (hn : 0 < n) {c : Nat} (hc : c < n) (k : Nat) :
    (turns n k).count c = k / n + if c < k % n then 1 else 0 := by
  have hcount : (turns n k).count c = k.count (· ≡ c [MOD n]) := by
    induction k with
    | zero => rfl
    | succ k ih =>
      rw [turns_succ, List.count_append, ih, Nat.count_succ, List.count_singleton]
      congr 1
      simp only [Nat.ModEq, Nat.mod_eq_of_lt hc, beq_iff_eq]
  rw [hcount, Nat.count_modEq_card k hn c, Nat.mod_eq_of_lt hc]

/-- **Turns are balanced** after any number of them. -/
theorem balanced_turns (hn : 0 < n) (k : Nat) : Balanced n (turns n k) := by
  intro c hc d hd
  rw [count_turns hn hc, count_turns hn hd]
  split_ifs <;> omega

/-! ## Always the first -/

theorem turns_eq_replicate_iff : turns n k = List.replicate k 0 ↔ n = 1 ∨ k ≤ 1 := by
  rw [List.eq_replicate_iff]
  constructor
  · rintro ⟨-, h⟩
    by_contra hno
    obtain ⟨hn, hk⟩ := not_or.mp hno
    have hmem : 1 % n ∈ turns n k :=
      List.mem_map.mpr ⟨1, List.mem_range.mpr (by omega), rfl⟩
    have h1 := h _ hmem
    rcases Nat.eq_zero_or_pos n with rfl | hpos
    · cases h1
    · rw [Nat.mod_eq_of_lt (by omega)] at h1
      cases h1
  · intro h
    refine ⟨length_turns n k, ?_⟩
    intro c hc
    obtain ⟨i, hi, rfl⟩ := List.mem_map.mp hc
    rcases h with rfl | hk
    · exact Nat.mod_one i
    · have hi := List.mem_range.mp hi
      rw [show i = 0 by omega, Nat.zero_mod]

theorem balanced_replicate_iff (hn : 0 < n) :
    Balanced n (List.replicate k 0) ↔ n = 1 ∨ k ≤ 1 := by
  constructor
  · intro h
    by_contra hno
    have := h 0 hn 1 (by omega)
    rw [List.count_replicate_self, List.count_replicate] at this
    simp only [beq_iff_eq, zero_ne_one, if_false] at this
    omega
  · intro h
    rw [← turns_eq_replicate_iff.mpr h]
    exact balanced_turns hn k

end AsioLearn.Lib.RoundRobin
