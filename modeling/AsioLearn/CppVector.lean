import Mathlib.Tactic.Linarith

/-!
# Ints and vectors of ints

The machine level of the N-queens programs. An `int` that is sent is `Int32`; an `int` expression
that can leave the range is checked, overflow being undefined behaviour. `std::vector<int>` is the
list of its elements: `operator[]` outside the vector is undefined behaviour, a size above
`max_size()` throws `std::length_error`.
-/

namespace AsioLearn.CppVector

/-- How a statement of these programs can fail to complete. -/
inductive Fault where
  | lengthError
  | outOfBounds
  | signedOverflow
  | divisionByZero
  deriving DecidableEq, Repr

/-- `abs(a - b)` on ints: undefined when the difference or its absolute value is no `int`. -/
def absDiff (a b : Int) : Except Fault Int :=
  if -2 ^ 31 < a - b ∧ a - b < 2 ^ 31 then .ok |a - b| else .error .signedOverflow

/-- `v[i]`. -/
def vectorGet (v : List Int) (i : Nat) : Except Fault Int :=
  match v[i]? with
  | some x => .ok x
  | none => .error .outOfBounds

/-- `v[i] = x`. -/
def vectorSet (v : List Int) (i : Nat) (x : Int) : Except Fault (List Int) :=
  if i < v.length then .ok (v.set i x) else .error .outOfBounds

/-- `std::vector<int>::max_size()`. -/
def vectorMaxSize : Nat := 2 ^ 61 - 1

/-- `v.resize(n, x)`. -/
def vectorResize (v : List Int) (n : Nat) (x : Int) : Except Fault (List Int) :=
  if vectorMaxSize < n then .error .lengthError
  else .ok (v.take n ++ List.replicate (n - v.length) x)

/-! ## When they complete -/

theorem absDiff_ok {a b : Int} (h : -2 ^ 31 < a - b) (h' : a - b < 2 ^ 31) :
    absDiff a b = .ok |a - b| := if_pos ⟨h, h'⟩

theorem vectorGet_ok {v : List Int} {i : Nat} {x : Int} (h : v[i]? = some x) :
    vectorGet v i = .ok x := by
  unfold vectorGet
  rw [h]

@[simp]
theorem vectorGet_append {p v : List Int} {x : Int} :
    vectorGet (p ++ x :: v) p.length = .ok x := by
  simp [vectorGet]

@[simp]
theorem vectorSet_append {p v : List Int} {x y : Int} :
    vectorSet (p ++ x :: v) p.length y = .ok (p ++ y :: v) := by
  simp [vectorSet]

theorem vectorResize_ok {v : List Int} {n : Nat} {x : Int} (hv : v.length ≤ n)
    (hn : n < 2 ^ 61) : vectorResize v n x = .ok (v ++ List.replicate (n - v.length) x) := by
  unfold vectorResize vectorMaxSize
  rw [if_neg (by omega), List.take_of_length_le hv]

end AsioLearn.CppVector
