import Mathlib.Algebra.Field.ZMod
import Mathlib.Data.Fintype.BigOperators
import Mathlib.Tactic.Linarith
import Mathlib.Tactic.Positivity
import Mathlib.Tactic.Ring

/-!
# Placements of queens

A placement of `n` queens, one in every row, is the function `q` of their columns. `NonAttacking`
says that no two share a column or a diagonal; `Modular` says so of the board whose edges are glued
together, columns and rows being counted modulo `n`.

Results:
* `card_lines`: for a prime `p` there are at least `(p - 3) * p` modular placements, on lines.
* `card_interleave`: a modular placement on `n` columns, and for each row of it a non-attacking one
  on `m` columns, make one on `m * n` columns; different ones make different ones.
-/

namespace AsioLearn.Lib.Queens

/-- No two queens share a column or a diagonal. -/
def NonAttacking {n : Nat} (q : Fin n → Int) : Prop :=
  ∀ i j : Fin n, i ≠ j → q i ≠ q j ∧ |q i - q j| ≠ |(i.val : Int) - j.val|

instance {n : Nat} (q : Fin n → Int) : Decidable (NonAttacking q) :=
  inferInstanceAs (Decidable (∀ i j : Fin n, i ≠ j →
    q i ≠ q j ∧ |q i - q j| ≠ |(i.val : Int) - j.val|))

/-- The same modulo `n`. -/
def Modular {n : Nat} (q : Fin n → Int) : Prop :=
  ∀ i j : Fin n, i ≠ j → ¬ (n : Int) ∣ q i - q j ∧
    ¬ (n : Int) ∣ q i - q j - ((i.val : Int) - j.val) ∧
    ¬ (n : Int) ∣ q i - q j + ((i.val : Int) - j.val)

instance {n : Nat} (q : Fin n → Int) : Decidable (Modular q) :=
  inferInstanceAs (Decidable (∀ i j : Fin n, i ≠ j → ¬ (n : Int) ∣ q i - q j ∧
    ¬ (n : Int) ∣ q i - q j - ((i.val : Int) - j.val) ∧
    ¬ (n : Int) ∣ q i - q j + ((i.val : Int) - j.val)))

/-- The placements on columns `0` to `n - 1`. -/
def boards (n : Nat) : Finset (Fin n → Int) :=
  Fintype.piFinset fun _ => (Finset.range n).image fun c : Nat => (c : Int)

/-- Those of them without attacks. -/
def solutions (n : Nat) : Finset (Fin n → Int) := (boards n).filter NonAttacking

/-- Those of them without attacks modulo `n`. -/
def modularSolutions (n : Nat) : Finset (Fin n → Int) := (boards n).filter Modular

theorem mem_boards {n : Nat} {q : Fin n → Int} : q ∈ boards n ↔ ∀ i, 0 ≤ q i ∧ q i < n := by
  unfold boards
  rw [Fintype.mem_piFinset]
  refine forall_congr' fun i => ?_
  rw [Finset.mem_image]
  constructor
  · rintro ⟨c, hc, h⟩
    rw [← h]
    exact ⟨Int.natCast_nonneg c, Int.ofNat_lt.mpr (Finset.mem_range.mp hc)⟩
  · rintro ⟨h0, h1⟩
    exact ⟨(q i).toNat, Finset.mem_range.mpr ((Int.toNat_lt h0).mpr h1), Int.toNat_of_nonneg h0⟩

theorem mem_solutions {n : Nat} {q : Fin n → Int} :
    q ∈ solutions n ↔ (∀ i, 0 ≤ q i ∧ q i < n) ∧ NonAttacking q := by
  unfold solutions
  rw [Finset.mem_filter, mem_boards]

theorem mem_modularSolutions {n : Nat} {q : Fin n → Int} :
    q ∈ modularSolutions n ↔ (∀ i, 0 ≤ q i ∧ q i < n) ∧ Modular q := by
  unfold modularSolutions
  rw [Finset.mem_filter, mem_boards]

theorem Modular.nonAttacking {n : Nat} {q : Fin n → Int} (h : Modular q) : NonAttacking q := by
  intro i j hij
  obtain ⟨hcol, hfall, hrise⟩ := h i j hij
  constructor
  · intro heq
    rw [heq, sub_self] at hcol
    exact hcol (dvd_zero _)
  · intro habs
    rcases abs_eq_abs.mp habs with heq | heq
    · rw [heq, sub_self] at hfall
      exact hfall (dvd_zero _)
    · rw [heq, neg_add_cancel] at hrise
      exact hrise (dvd_zero _)

theorem modularSolutions_subset (n : Nat) : modularSolutions n ⊆ solutions n := by
  intro q hq
  obtain ⟨hrange, hq⟩ := mem_modularSolutions.mp hq
  exact mem_solutions.mpr ⟨hrange, hq.nonAttacking⟩

/-! ## Lines -/

section Line

variable {p : Nat}

/-- The columns of the line with slope `a` and offset `b`. -/
def line (a b : ZMod p) (i : Fin p) : Int := (a * (i.val : ZMod p) + b).val

variable [Fact p.Prime] {a b : ZMod p}

theorem line_range (a b : ZMod p) (i : Fin p) : 0 ≤ line a b i ∧ line a b i < p :=
  ⟨Int.natCast_nonneg _, Int.ofNat_lt.mpr (ZMod.val_lt _)⟩

theorem line_cast (a b : ZMod p) (i : Fin p) :
    ((line a b i : Int) : ZMod p) = a * (i.val : ZMod p) + b := by
  unfold line
  rw [Int.cast_natCast, ZMod.natCast_zmod_val]

theorem row_cast_injective {i j : Fin p} (h : (i.val : ZMod p) = j.val) : i = j := by
  have := congrArg ZMod.val h
  rw [ZMod.val_cast_of_lt i.isLt, ZMod.val_cast_of_lt j.isLt] at this
  exact Fin.ext this

/-- The slope between two points. -/
theorem slope_eq {c : ZMod p} {i j : Fin p} (hij : i ≠ j)
    (h : ((line a b i - line a b j : Int) : ZMod p) = c * ((i.val : ZMod p) - j.val)) : a = c := by
  have hne : (i.val : ZMod p) - j.val ≠ 0 := fun h0 => hij (row_cast_injective (sub_eq_zero.mp h0))
  refine mul_right_cancel₀ hne ?_
  rw [← h, Int.cast_sub, line_cast, line_cast]
  ring

/-- Unless a line keeps its column, or moves by one from row to row, it is a modular placement. -/
theorem line_modular (h0 : a ≠ 0) (h1 : a ≠ 1) (h1' : a ≠ -1) : Modular (line a b) := by
  intro i j hij
  refine ⟨fun h => h0 (slope_eq (b := b) hij ?_), fun h => h1 (slope_eq (b := b) hij ?_),
    fun h => h1' (slope_eq (b := b) hij ?_)⟩
  · rw [(ZMod.intCast_zmod_eq_zero_iff_dvd _ p).mpr h, zero_mul]
  · have := (ZMod.intCast_zmod_eq_zero_iff_dvd _ p).mpr h
    push_cast at this ⊢
    rw [sub_eq_zero.mp this, one_mul]
  · have := (ZMod.intCast_zmod_eq_zero_iff_dvd _ p).mpr h
    push_cast at this ⊢
    rw [eq_neg_of_add_eq_zero_left this, neg_one_mul]

/-- Slope and offset are what the line shows in rows 0 and 1. -/
theorem line_injective : Function.Injective fun ab : ZMod p × ZMod p => line ab.1 ab.2 := by
  have hp : 1 < p := (Fact.out : p.Prime).one_lt
  rintro ⟨a, b⟩ ⟨a', b'⟩ h
  have hrow : ∀ i : Fin p, a * (i.val : ZMod p) + b = a' * (i.val : ZMod p) + b' := by
    intro i
    rw [← line_cast, ← line_cast]
    exact congrArg Int.cast (congrFun h i)
  have hzero := hrow ⟨0, by omega⟩
  have hone := hrow ⟨1, hp⟩
  simp only [Nat.cast_zero, mul_zero, zero_add] at hzero
  subst hzero
  simp only [Nat.cast_one, mul_one, add_left_inj] at hone
  rw [hone]

theorem card_lines (p : Nat) [Fact p.Prime] : (p - 3) * p ≤ (modularSolutions p).card := by
  have hslopes : p - 3 ≤ (Finset.univ \ {0, 1, -1} : Finset (ZMod p)).card := by
    have hthree : ({0, 1, -1} : Finset (ZMod p)).card ≤ 3 := Finset.card_le_three
    have := Finset.le_card_sdiff ({0, 1, -1} : Finset (ZMod p)) Finset.univ
    rw [Finset.card_univ, ZMod.card] at this
    omega
  calc (p - 3) * p
      ≤ (Finset.univ \ {0, 1, -1} : Finset (ZMod p)).card * p := Nat.mul_le_mul_right p hslopes
    _ = ((Finset.univ \ {0, 1, -1} : Finset (ZMod p)) ×ˢ (Finset.univ : Finset (ZMod p))).card := by
        rw [Finset.card_product, Finset.card_univ, ZMod.card]
    _ ≤ (modularSolutions p).card := by
        refine Finset.card_le_card_of_injOn _ ?_ line_injective.injOn
        rintro ⟨a, b⟩ hab
        simp only [Finset.coe_product, Set.mem_prod, Finset.mem_coe, Finset.mem_sdiff,
          Finset.mem_insert, Finset.mem_singleton, not_or] at hab
        obtain ⟨⟨-, h0, h1, h1'⟩, -⟩ := hab
        exact mem_modularSolutions.mpr ⟨line_range a b, line_modular h0 h1 h1'⟩

end Line

/-! ## Interleaving -/

section Interleave

variable {m n : Nat}

/-- Every `n`-th row, from row `i` on, shows the placement `B i`, spread out `n` columns apart and
moved to column `A i`. -/
def interleave (A : Fin n → Int) (B : Fin n → Fin m → Int) (row : Fin (m * n)) : Int :=
  n * B row.modNat row.divNat + A row.modNat

theorem interleave_mkDivMod (A : Fin n → Int) (B : Fin n → Fin m → Int) (r : Fin m) (i : Fin n) :
    interleave A B (r.mkDivMod i) = n * B i r + A i := by
  unfold interleave
  rw [Fin.modNat_mkDivMod, Fin.divNat_mkDivMod]

theorem row_eq (row : Fin (m * n)) :
    (row.val : Int) = n * (row.divNat.val : Int) + row.modNat.val := by
  have h := Nat.div_add_mod row.val n
  rw [Fin.coe_divNat, Fin.coe_modNat]
  exact_mod_cast h.symm

theorem interleave_nonAttacking {A : Fin n → Int} {B : Fin n → Fin m → Int} (hA : Modular A)
    (hB : ∀ i, NonAttacking (B i)) : NonAttacking (interleave A B) := by
  intro row row' hne
  unfold interleave
  rw [row_eq row, row_eq row']
  by_cases hmod : row.modNat = row'.modNat
  · -- both queens are of one of the placements `B i`
    have hdiv : row.divNat ≠ row'.divNat := by
      intro hdiv
      refine hne ?_
      rw [← Fin.divNat_mkDivMod_modNat row, ← Fin.divNat_mkDivMod_modNat row', hdiv, hmod]
    obtain ⟨hcol, hdiag⟩ := hB row'.modNat row.divNat row'.divNat hdiv
    have hn : (0 : Int) < n := Int.natCast_pos.mpr (Fin.pos row.modNat)
    rw [hmod]
    constructor
    · intro h
      exact hcol (mul_left_cancel₀ hn.ne' (add_right_cancel h))
    · rw [add_sub_add_right_eq_sub, add_sub_add_right_eq_sub, ← mul_sub, ← mul_sub, abs_mul, abs_mul]
      intro h
      exact hdiag (mul_left_cancel₀ (abs_pos.mpr hn.ne').ne' h)
  · obtain ⟨hcol, hfall, hrise⟩ := hA _ _ hmod
    constructor
    · intro h
      exact hcol ⟨B row'.modNat row'.divNat - B row.modNat row.divNat, by linarith⟩
    · intro h
      rcases abs_eq_abs.mp h with h | h
      · exact hfall ⟨B row'.modNat row'.divNat - B row.modNat row.divNat +
          ((row.divNat.val : Int) - row'.divNat.val), by linarith⟩
      · exact hrise ⟨B row'.modNat row'.divNat - B row.modNat row.divNat -
          ((row.divNat.val : Int) - row'.divNat.val), by linarith⟩

theorem interleave_range {A : Fin n → Int} {B : Fin n → Fin m → Int}
    (hA : ∀ i, 0 ≤ A i ∧ A i < n) (hB : ∀ i r, 0 ≤ B i r ∧ B i r < m) (row : Fin (m * n)) :
    0 ≤ interleave A B row ∧ interleave A B row < (m * n : Nat) := by
  obtain ⟨hA0, hA1⟩ := hA row.modNat
  obtain ⟨hB0, hB1⟩ := hB row.modNat row.divNat
  unfold interleave
  push_cast
  constructor
  · positivity
  · nlinarith

theorem interleave_injOn (hm : 0 < m) :
    Set.InjOn (fun AB : (Fin n → Int) × (Fin n → Fin m → Int) => interleave AB.1 AB.2)
      {AB | ∀ i, 0 ≤ AB.1 i ∧ AB.1 i < n} := by
  rintro ⟨A, B⟩ hA ⟨A', B'⟩ hA' h
  have hrow : ∀ i r, n * B i r + A i = n * B' i r + A' i := by
    intro i r
    rw [← interleave_mkDivMod, ← interleave_mkDivMod]
    exact congrFun h (r.mkDivMod i)
  obtain rfl : A = A' := by
    funext i
    have hmod := congrArg (· % (n : Int)) (hrow i ⟨0, hm⟩)
    simp only [Int.mul_add_emod_self_left] at hmod
    rwa [Int.emod_eq_of_lt (hA i).1 (hA i).2, Int.emod_eq_of_lt (hA' i).1 (hA' i).2] at hmod
  obtain rfl : B = B' := by
    funext i r
    have hn : (n : Int) ≠ 0 := Int.natCast_ne_zero.mpr (Fin.pos i).ne'
    exact mul_left_cancel₀ hn (add_right_cancel (hrow i r))
  rfl

theorem card_interleave (hm : 0 < m) (n : Nat) :
    (modularSolutions n).card * (solutions m).card ^ n ≤ (solutions (m * n)).card := by
  rw [← Fintype.card_piFinset_const, ← Finset.card_product]
  refine Finset.card_le_card_of_injOn _ ?_ ((interleave_injOn hm).mono ?_)
  · rintro ⟨A, B⟩ hAB
    obtain ⟨hA, hB⟩ := Finset.mem_product.mp hAB
    obtain ⟨hArange, hA⟩ := mem_modularSolutions.mp hA
    have hB := fun i => mem_solutions.mp (Fintype.mem_piFinset.mp hB i)
    exact mem_solutions.mpr ⟨interleave_range hArange fun i => (hB i).1,
      interleave_nonAttacking hA fun i => (hB i).2⟩
  · rintro ⟨A, B⟩ hAB
    exact (mem_modularSolutions.mp (Finset.mem_product.mp hAB).1).1

end Interleave

end AsioLearn.Lib.Queens
