import AsioLearn.CppVector
import AsioLearn.Lib.Backtrack

/-!
# The board of the N-queens programs

What `nqueen_server.cc` and `nqueen_client.cc` write twice: the test of a column against the rows
above (`is_safe`, `isSafe`) and the loop that tries every column of a row and takes the queen back
(in `solve`, in `backtrack`). A board is a `std::vector<int>`, `board[row]` the column of that
row's queen or -1.

The count is an `Int` that is incremented by `inc`: `exactInc` for exact integers, `intInc` for the
`int` it is in the service.

Results:
* `noAttack_ok`, `noAttack_error`: the test decides `Safe`, unless it takes a difference that is no
  `int` (`Comparable`); on columns of the board it never does (`noAttack_eq`).
* `tryColumns_eq`, `tryColumns_error`: the loop over the columns adds up the leaves below the safe
  ones and leaves the board as it found it, unless a test or a search below fails.
-/

namespace AsioLearn.NQueen

open CppVector Lib.Backtrack

/-- `solutions++` on exact integers. -/
def exactInc (solutions : Int) : Except Fault Int := .ok (solutions + 1)

theorem bump_exactInc (k : Nat) (s : Int) : bump exactInc k s = .ok (s + k) := by
  induction k generalizing s with
  | zero => simp
  | succ k ih =>
    have h : bump exactInc (k + 1) s = bump exactInc k (s + 1) := rfl
    rw [h, ih]
    congr 1
    omega

/-- `solutions++` on an `int`. -/
def intInc (solutions : Int) : Except Fault Int :=
  if solutions + 1 < 2 ^ 31 then .ok (solutions + 1) else .error .signedOverflow

theorem intInc_error {s : Int} {e : Fault} (h : intInc s = .error e) : e = .signedOverflow := by
  unfold intInc at h
  split_ifs at h
  exact (Except.error.inj h).symm

theorem bump_intInc (k : Nat) {s : Int} (hs : s < 2 ^ 31) :
    bump intInc k s = if s + k < 2 ^ 31 then .ok (s + k) else .error .signedOverflow := by
  induction k generalizing s with
  | zero =>
    rw [Nat.cast_zero, Int.add_zero, if_pos hs]
    rfl
  | succ k ih =>
    have hstep : bump intInc (k + 1) s = intInc s >>= bump intInc k := rfl
    have hsum : s + ((k + 1 : Nat) : Int) = s + 1 + k := by omega
    rw [hstep, hsum]
    unfold intInc
    by_cases h : s + 1 < 2 ^ 31
    · rw [if_pos h]
      exact ih h
    · rw [if_neg h, if_neg (by omega)]
      rfl

/-! ## The source's functions -/

/-- The loop of `is_safe` and `isSafe`: no row `i < row` has its queen on column `col` or on a
diagonal through `(row, col)`. -/
def noAttack (board : List Int) (row : Nat) (col : Int) : Except Fault Bool :=
  (List.range row).allM fun i => do
    let q ← vectorGet board i
    if q = col then
      return false
    return (← absDiff q col) ≠ (← absDiff i row)

/-- `for (int col = 0; col < n; ++col)`: place the queen, descend, take the queen back. -/
def tryColumns (n : Nat) (isSafe : List Int → Nat → Int → Except Fault Bool)
    (descend : List Int → Int → Except Fault (List Int × Int)) (board : List Int) (row : Nat)
    (solutions : Int) : Except Fault (List Int × Int) :=
  (List.range n).foldlM (fun (board, solutions) (col : Nat) => do
    if ← isSafe board row col then
      let board ← vectorSet board row col
      let (board, solutions) ← descend board solutions
      let board ← vectorSet board row (-1)
      return (board, solutions)
    else
      return (board, solutions)) (board, solutions)

/-! ## What they compute -/

/-- `q` is a column of the board. -/
def Column (n : Nat) (q : Int) : Prop := 0 ≤ q ∧ q < n

/-- The columns in the order they are tried. -/
def columns (n : Nat) : List Int := (List.range n).map fun col : Nat => (col : Int)

/-- No queen of the rows `p` attacks column `c` of the next row. -/
def Safe (p : List Int) (c : Int) : Prop :=
  ∀ i (h : i < p.length), p[i] ≠ c ∧ |p[i] - c| ≠ p.length - i

instance (p : List Int) (c : Int) : Decidable (Safe p c) :=
  inferInstanceAs (Decidable (∀ i (h : i < p.length), p[i] ≠ c ∧ |p[i] - c| ≠ p.length - i))

/-- The choices of a search: of the candidates of the next row, those that are safe. -/
def choices (candidates : Nat → List Int) (p : List Int) : List Int :=
  (candidates p.length).filter fun c => decide (Safe p c)

theorem column_of_lt {n col : Nat} (h : col < n) : Column n col := ⟨by omega, by omega⟩

theorem mem_columns {n : Nat} {c : Int} : c ∈ columns n ↔ Column n c := by
  unfold columns Column
  rw [List.mem_map]
  constructor
  · rintro ⟨col, hcol, rfl⟩
    exact column_of_lt (List.mem_range.mp hcol)
  · rintro ⟨h0, h1⟩
    exact ⟨c.toNat, List.mem_range.mpr (by omega), by omega⟩

theorem forall_column_append {n : Nat} {p : List Int} {c : Int} (hp : ∀ q ∈ p, Column n q)
    (hc : Column n c) : ∀ q ∈ p ++ [c], Column n q := by
  intro q hq
  rcases List.mem_append.mp hq with hq | hq
  · exact hp q hq
  · obtain rfl := List.mem_singleton.mp hq
    exact hc

/-- The rows the test comes to are those above the first that attacks `c`, and that one. Their
queens are less than `2 ^ 31` columns away, or on `c` itself. -/
def Comparable (p : List Int) (c : Int) : Prop :=
  ∀ i (h : i < p.length), (∀ j (hj : j < i), p[j] ≠ c ∧ |p[j] - c| ≠ p.length - j) →
    p[i] ≠ c → |p[i] - c| < 2 ^ 31

instance (p : List Int) (c : Int) : Decidable (Comparable p c) :=
  inferInstanceAs (Decidable (∀ i (h : i < p.length),
    (∀ j (hj : j < i), p[j] ≠ c ∧ |p[j] - c| ≠ p.length - j) → p[i] ≠ c → |p[i] - c| < 2 ^ 31))

theorem comparable_of_column {n : Nat} (hn : n < 2 ^ 31) {p : List Int} {c : Int}
    (hp : ∀ q ∈ p, Column n q) (hc : Column n c) : Comparable p c := by
  intro i hi _ _
  obtain ⟨hq0, hq1⟩ := hp p[i] (List.getElem_mem hi)
  obtain ⟨hc0, hc1⟩ := hc
  rw [abs_lt]
  omega

/-- A loop of tests each of which gives `g`, as far as it is come to. -/
theorem allM_eq_all {f : Nat → Except Fault Bool} {g : Nat → Bool} :
    ∀ {l : List Nat}, (∀ l₁ i l₂, l = l₁ ++ i :: l₂ → (∀ j ∈ l₁, g j = true) → f i = .ok (g i)) →
      l.allM f = .ok (l.all g)
  | [], _ => rfl
  | i :: l, h => by
    rw [List.allM, h [] i l rfl (List.forall_mem_nil _), List.all_cons]
    cases hi : g i with
    | false => rfl
    | true =>
      exact allM_eq_all fun l₁ j l₂ hl hall =>
        h (i :: l₁) j l₂ (by rw [hl]; rfl) (List.forall_mem_cons.mpr ⟨hi, hall⟩)

/-- It fails where a test does that it comes to. -/
theorem allM_error {f : Nat → Except Fault Bool} {e : Fault} {i : Nat} {l₂ : List Nat}
    (hi : f i = .error e) :
    ∀ {l₁ : List Nat}, (∀ j ∈ l₁, f j = .ok true) → (l₁ ++ i :: l₂).allM f = .error e
  | [], _ => by
    rw [List.nil_append, List.allM, hi]
    rfl
  | j :: l₁, h => by
    rw [List.cons_append, List.allM, h j List.mem_cons_self]
    exact allM_error hi fun k hk => h k (List.mem_cons_of_mem j hk)

theorem range_split {k i : Nat} {l₁ l₂ : List Nat} (h : List.range k = l₁ ++ i :: l₂) :
    i < k ∧ l₁ = List.range i := by
  rw [List.range_eq_range', List.range'_eq_append_iff] at h
  obtain ⟨m, hm, rfl, hrest⟩ := h
  obtain ⟨rfl, hpos, -⟩ := List.range'_eq_cons_iff.mp hrest.symm
  rw [Nat.zero_add, Nat.mul_one, List.range_eq_range']
  exact ⟨by omega, rfl⟩

theorem range_eq_append {k i : Nat} (h : i < k) :
    List.range k = List.range i ++ i :: List.range' (i + 1) (k - i - 1) := by
  rw [List.range_eq_range', List.range_eq_range', List.range'_eq_append_iff]
  refine ⟨i, h.le, rfl, ?_⟩
  rw [eq_comm, List.range'_eq_cons_iff]
  exact ⟨by omega, by omega, rfl⟩

/-- Round `i` of `noAttack`. -/
def attackRound (board : List Int) (row : Nat) (col : Int) (i : Nat) : Except Fault Bool := do
  let q ← vectorGet board i
  if q = col then
    return false
  return (← absDiff q col) ≠ (← absDiff i row)

section Round

variable {p rest : List Int} {c : Int} {i : Nat}

theorem attackRound_ok (hlen : p.length < 2 ^ 31) (hi : i < p.length)
    (h : p[i] ≠ c → |p[i] - c| < 2 ^ 31) :
    attackRound (p ++ rest) p.length c i =
      .ok (decide (p[i] ≠ c ∧ |p[i] - c| ≠ p.length - i)) := by
  have hget : vectorGet (p ++ rest) i = .ok p[i] :=
    vectorGet_ok ((List.getElem?_append_left hi).trans (List.getElem?_eq_getElem hi))
  have hdiag : |((i : Int) - p.length)| = p.length - i := by
    rw [abs_sub_comm, abs_of_nonneg (by omega)]
  unfold attackRound
  rw [hget]
  by_cases hq : p[i] = c
  · simp [hq, bind, Except.bind, pure, Except.pure]
  · obtain ⟨hlow, hhigh⟩ := abs_lt.mp (h hq)
    simp [hq, hdiag, absDiff_ok hlow hhigh,
      absDiff_ok (show -2 ^ 31 < (i : Int) - p.length by omega) (by omega),
      bind, Except.bind, pure, Except.pure]

theorem attackRound_error (hi : i < p.length) (hne : p[i] ≠ c) (h : ¬ |p[i] - c| < 2 ^ 31) :
    attackRound (p ++ rest) p.length c i = .error .signedOverflow := by
  have hget : vectorGet (p ++ rest) i = .ok p[i] :=
    vectorGet_ok ((List.getElem?_append_left hi).trans (List.getElem?_eq_getElem hi))
  have hdiff : absDiff p[i] c = .error .signedOverflow := if_neg fun hok => h (abs_lt.mpr hok)
  unfold attackRound
  rw [hget]
  simp [hne, hdiff, bind, Except.bind]

end Round

theorem noAttack_ok {p rest : List Int} {c : Int} (hlen : p.length < 2 ^ 31)
    (h : Comparable p c) : noAttack (p ++ rest) p.length c = .ok (decide (Safe p c)) := by
  change (List.range p.length).allM (attackRound (p ++ rest) p.length c) = _
  rw [allM_eq_all (g := fun i => decide (∀ h : i < p.length, p[i] ≠ c ∧ |p[i] - c| ≠ p.length - i))]
  · congr 1
    rw [Bool.eq_iff_iff]
    simp only [List.all_eq_true, decide_eq_true_eq, List.mem_range]
    exact ⟨fun hall i hi => hall i hi hi, fun hall i hi _ => hall i hi⟩
  · intro l₁ i l₂ hl hall
    obtain ⟨hi, rfl⟩ := range_split hl
    have hclear : ∀ j (hj : j < i), p[j] ≠ c ∧ |p[j] - c| ≠ p.length - j := fun j hj =>
      of_decide_eq_true (hall j (List.mem_range.mpr hj)) (hj.trans hi)
    rw [attackRound_ok hlen hi (h i hi hclear)]
    congr 1
    rw [decide_eq_decide]
    exact ⟨fun hq _ => hq, fun hq => hq hi⟩

/-- A row too far away that the test comes to: it overflows there, or further up already. -/
theorem noAttack_far {p rest : List Int} {c : Int} (hlen : p.length < 2 ^ 31) {i : Nat}
    (hi : i < p.length) (hclear : ∀ j (hj : j < i), p[j] ≠ c ∧ |p[j] - c| ≠ p.length - j)
    (hne : p[i] ≠ c) (hfar : ¬ |p[i] - c| < 2 ^ 31) :
    noAttack (p ++ rest) p.length c = .error .signedOverflow := by
  induction i using Nat.strong_induction_on with
  | _ i ih =>
    by_cases hnear : ∀ j (hj : j < i), |p[j] - c| < 2 ^ 31
    · change (List.range p.length).allM (attackRound (p ++ rest) p.length c) = _
      rw [range_eq_append hi]
      refine allM_error (attackRound_error hi hne hfar) fun j hj => ?_
      have hj := List.mem_range.mp hj
      rw [attackRound_ok hlen (hj.trans hi) fun _ => hnear j hj, decide_eq_true (hclear j hj)]
    · obtain ⟨j, hj, hfar'⟩ : ∃ j, ∃ hj : j < i, ¬ |p[j] - c| < 2 ^ 31 := by
        by_contra hno
        exact hnear fun j hj => by_contra fun hfar' => hno ⟨j, hj, hfar'⟩
      exact ih j hj (hj.trans hi) (fun k hk => hclear k (hk.trans hj)) (hclear j hj).1 hfar'

theorem noAttack_error {p rest : List Int} {c : Int} (hlen : p.length < 2 ^ 31)
    (h : ¬ Comparable p c) : noAttack (p ++ rest) p.length c = .error .signedOverflow := by
  by_contra hok
  refine h fun i hi hclear hne => by_contra fun hfar => hok ?_
  exact noAttack_far hlen hi hclear hne hfar

/-- On columns of the board the test never fails. -/
theorem noAttack_eq {n : Nat} (hn : n < 2 ^ 31) {p rest : List Int} {c : Int}
    (hp : ∀ q ∈ p, Column n q) (hc : Column n c) (hlen : p.length ≤ n) :
    noAttack (p ++ rest) p.length c = .ok (decide (Safe p c)) :=
  noAttack_ok (by omega) (comparable_of_column hn hp hc)

/-- One round of `tryColumns`. -/
def tryColumn (isSafe : List Int → Nat → Int → Except Fault Bool)
    (descend : List Int → Int → Except Fault (List Int × Int)) (row : Nat) :
    List Int × Int → Int → Except Fault (List Int × Int) := fun (board, solutions) col => do
  if ← isSafe board row col then
    let board ← vectorSet board row col
    let (board, solutions) ← descend board solutions
    let board ← vectorSet board row (-1)
    return (board, solutions)
  else
    return (board, solutions)

/-- A round whose test and search below go through: it counts the leaves below a safe column. -/
theorem tryColumn_eq {inc : Int → Except Fault Int} {p rest : List Int}
    {isSafe : List Int → Nat → Int → Except Fault Bool}
    {descend : List Int → Int → Except Fault (List Int × Int)} {f : Int → Nat} {c : Int}
    (hsafe : isSafe (p ++ -1 :: rest) p.length c = .ok (decide (Safe p c)))
    (hdescend : Safe p c → ∀ s,
      descend (p ++ c :: rest) s = (bump inc (f c) s).map (p ++ c :: rest, ·)) (s : Int) :
    tryColumn isSafe descend p.length (p ++ -1 :: rest, s) c =
      (bump inc (if decide (Safe p c) then f c else 0) s).map (p ++ -1 :: rest, ·) := by
  unfold tryColumn
  simp only [hsafe]
  by_cases h : Safe p c
  · simp only [h, bind, Except.bind, vectorSet_append, hdescend h]
    cases hb : bump inc (f c) s with
    | error e => simp [hb, Except.map]
    | ok s' => simp [hb, Except.map, pure, Except.pure]
  · simp [h, bind, Except.bind, pure, Except.pure, Except.map]

/-- The loop over the columns of row `p.length`, whose entry is free. -/
theorem tryColumns_eq {inc : Int → Except Fault Int} {n : Nat} {p rest : List Int}
    {isSafe : List Int → Nat → Int → Except Fault Bool}
    {descend : List Int → Int → Except Fault (List Int × Int)} {f : Int → Nat}
    (hsafe : ∀ c, Column n c →
      isSafe (p ++ -1 :: rest) p.length c = .ok (decide (Safe p c)))
    (hdescend : ∀ c, Column n c → Safe p c → ∀ s,
      descend (p ++ c :: rest) s = (bump inc (f c) s).map (p ++ c :: rest, ·)) (s : Int) :
    tryColumns n isSafe descend (p ++ -1 :: rest) p.length s =
      (bump inc ((columns n).map fun c => if decide (Safe p c) then f c else 0).sum s).map
        (p ++ -1 :: rest, ·) := by
  unfold tryColumns columns
  rw [List.map_map]
  refine foldlM_bump (List.range n) (fun col hcol s => ?_) s
  exact tryColumn_eq (hsafe col (column_of_lt (List.mem_range.mp hcol)))
    (hdescend col (column_of_lt (List.mem_range.mp hcol))) s

/-- The loop fails if the test or the search below fails on some column, and no other way. -/
theorem tryColumns_error {inc : Int → Except Fault Int} {n : Nat} {p rest : List Int} {e : Fault}
    {isSafe : List Int → Nat → Int → Except Fault Bool}
    {descend : List Int → Int → Except Fault (List Int × Int)} {f : Int → Nat} (Bad : Int → Prop)
    (hinc : ∀ s e', inc s = .error e' → e' = e)
    (hgood : ∀ c, Column n c → ¬ Bad c →
      isSafe (p ++ -1 :: rest) p.length c = .ok (decide (Safe p c)) ∧
        (Safe p c → ∀ s, descend (p ++ c :: rest) s =
          (bump inc (f c) s).map (p ++ c :: rest, ·)))
    (hbad : ∀ c, Column n c → Bad c → isSafe (p ++ -1 :: rest) p.length c = .error e ∨
      isSafe (p ++ -1 :: rest) p.length c = .ok true ∧
        ∀ s, descend (p ++ c :: rest) s = .error e)
    (hsome : ∃ c, Column n c ∧ Bad c) (s : Int) :
    tryColumns n isSafe descend (p ++ -1 :: rest) p.length s = .error e := by
  have hround : ∀ c, Column n c → Bad c → ∀ s, tryColumn isSafe descend p.length
      (p ++ -1 :: rest, s) c = .error e := by
    intro c hc hb s
    unfold tryColumn
    rcases hbad c hc hb with h | ⟨h, hdesc⟩
    · simp only [h]
      rfl
    · simp [h, hdesc, bind, Except.bind]
  unfold tryColumns
  refine foldlM_error (f := fun col : Nat => if decide (Safe p col) then f col else 0) hinc
    (fun col hcol => ?_) ?_ s
  · have hc : Column n col := column_of_lt (List.mem_range.mp hcol)
    by_cases hb : Bad col
    · exact Or.inr (hround col hc hb)
    · exact Or.inl (tryColumn_eq (hgood col hc hb).1 (hgood col hc hb).2)
  · obtain ⟨c, hc, hb⟩ := hsome
    obtain ⟨col, hcol, rfl⟩ := List.mem_map.mp (mem_columns.mpr hc)
    exact ⟨col, hcol, hround col hc hb⟩

end AsioLearn.NQueen
