import AsioLearn.NQueen.Fillings

/-!
# What the N-queens service counts

`Completes` says that a placement of queens on all rows of the board agrees with the request's and
has no two queens on one column or diagonal. Where the entries of the request are free or columns,
the fillings of its board are its completions.

Results:
* `completes_iff`: the completions are the fillings whose queens are all on the board.
* `mem_leafPaths_iff`: a leaf of the search is a completion, row by row.
* `solve_counts`: on a board whose entries are free or columns `Solve` replies the number of its
  completions, and `solve` gives the board back as it was.
-/

namespace AsioLearn.NQueen

open CppVector Lib.Backtrack

/-! ## Completions -/

/-- The queens `q` agree with the board wherever it is not -1, and no two of them share a column or
a diagonal. -/
def TaskRequest.Completes (request : TaskRequest) {n : Nat} (q : Fin n → Fin n) : Prop :=
  (∀ row : Fin n, request.entry row = -1 ∨ request.entry row = (q row).val) ∧
    ∀ i j : Fin n, i ≠ j →
      q i ≠ q j ∧ |((q i).val : Int) - (q j).val| ≠ |(i.val : Int) - j.val|

instance (request : TaskRequest) (n : Nat) (q : Fin n → Fin n) : Decidable (request.Completes q) :=
  inferInstanceAs (Decidable (_ ∧ _))

/-- The number of completions on a board of `n` rows. -/
def TaskRequest.completions (request : TaskRequest) (n : Nat) : Nat :=
  (Finset.univ.filter fun q : Fin n → Fin n => request.Completes q).card

/-- The columns of the queens, from row 0. -/
def columnsOf {n : Nat} (q : Fin n → Fin n) : List Int := List.ofFn fun i => ((q i).val : Int)

theorem columnsOf_injective {n : Nat} : Function.Injective (@columnsOf n) := by
  intro q q' h
  funext i
  have := congrFun (List.ofFn_injective h) i
  exact Fin.ext (by simpa using this)

/-- Entries that are -1 or columns, as far as there are any. -/
def TaskRequest.WellFormed (request : TaskRequest) (n : Nat) : Prop :=
  ∀ row < n, request.entry row = -1 ∨ Column n (request.entry row)

theorem entries_of_wellFormed {request : TaskRequest}
    (h : request.WellFormed request.n.toInt.toNat) :
    Entries request.n.toInt.toNat request.padded :=
  fun row hrow => ⟨request.entry row, padded_getElem? hrow, h row hrow⟩

/-! ## The leaves of the search -/

/-- A filling all of whose queens are on the board is a completion. -/
theorem completes_iff {request : TaskRequest} {n : Nat} (q : Fin n → Fin n) :
    request.Completes q ↔ (fun i => ((q i).val : Int)) ∈ request.fillings n := by
  rw [mem_fillings]
  refine and_congr (forall_congr' fun row => ?_) (forall_congr' fun i => forall_congr' fun j =>
    imp_congr_right fun _ => and_congr_left fun _ => ?_)
  · rw [mem_columnsAt]
    split_ifs with hfree
    · exact iff_of_true (Or.inl hfree) (column_of_lt (q row).isLt)
    · rw [or_iff_right hfree, eq_comm]
  · rw [Ne, Ne, Int.natCast_inj, Fin.val_inj]

/-- **The leaves of the search are the completions.** -/
theorem mem_leafPaths_iff {request : TaskRequest} {n : Nat} (hn : request.n.toInt.toNat = n)
    (h : request.WellFormed n) {r : List Int} :
    r ∈ leafPaths (choices (rowCandidates n request.padded)) n [] ↔
      ∃ q : Fin n → Fin n, request.Completes q ∧ columnsOf q = r := by
  rw [mem_leafPaths_fillings hn]
  constructor
  · rintro ⟨q, hq, rfl⟩
    have hcol : ∀ row, Column n (q row) := by
      intro row
      have hrow := (mem_fillings.mp hq).1 row
      rw [mem_columnsAt] at hrow
      split_ifs at hrow with hfree
      · exact hrow
      · rw [hrow]
        exact (h row row.isLt).resolve_left hfree
    have hlt : ∀ row, (q row).toNat < n := fun row => (Int.toNat_lt (hcol row).1).mpr (hcol row).2
    have hval : (fun row => (((⟨(q row).toNat, hlt row⟩ : Fin n).val : Nat) : Int)) = q :=
      funext fun row => Int.toNat_of_nonneg (hcol row).1
    refine ⟨fun row => ⟨(q row).toNat, hlt row⟩, (completes_iff _).mpr ?_, ?_⟩
    · rw [hval]
      exact hq
    · exact congrArg List.ofFn hval
  · rintro ⟨q, hq, rfl⟩
    exact ⟨_, (completes_iff q).mp hq, rfl⟩

theorem leaves_eq_completions {request : TaskRequest} {n : Nat} (hn : request.n.toInt.toNat = n)
    (h : request.WellFormed n) :
    leaves (choices (rowCandidates n request.padded)) n [] = request.completions n := by
  have hnodup : ∀ p, (choices (rowCandidates n request.padded) p).Nodup :=
    fun p => (nodup_rowCandidates n request.padded p.length).filter _
  have himage : (leafPaths (choices (rowCandidates n request.padded)) n []).toFinset =
      (Finset.univ.filter fun q : Fin n → Fin n => request.Completes q).image columnsOf := by
    ext r
    rw [List.mem_toFinset, mem_leafPaths_iff hn h]
    simp
  rw [leaves_eq_card hnodup, himage, Finset.card_image_of_injective _ columnsOf_injective]
  rfl

theorem card_fillings {request : TaskRequest} {n : Nat} (hn : request.n.toInt.toNat = n)
    (h : request.WellFormed n) : (request.fillings n).card = request.completions n :=
  (leaves_eq_fillings hn).symm.trans (leaves_eq_completions hn h)

/-! ## The service -/

/-- **`Solve` counts the completions**, and `solve` leaves the board as it found it. -/
theorem solve_counts {request : TaskRequest} (hn : 0 ≤ request.n.toInt)
    (h : request.WellFormed request.n.toInt.toNat) :
    ∃ board, padBoard (request.board.map Int32.toInt) request.n.toInt = .ok board ∧
      NQueenServiceImpl.solve exactInc request.n.toInt.toNat request.n.toInt.toNat board 0 =
        .ok (board, request.completions request.n.toInt.toNat) ∧
      NQueenServiceImpl.solveRequest exactInc request =
        .ok ⟨request.completions request.n.toInt.toNat⟩ := by
  have hlt : request.n.toInt < 2 ^ 31 := request.n.toInt_lt
  have hleaves := leaves_eq_completions rfl h
  refine ⟨request.padded, padBoard_eq hn, ?_, ?_⟩
  · have hsolve := @solve_eq exactInc request.n.toInt.toNat (by omega) request.padded
      (entries_of_wellFormed h) request.n.toInt.toNat [] (Nat.zero_add _) (List.forall_mem_nil _) 0
    simp only [List.length_nil, List.drop_zero, List.nil_append, bump_exactInc, Int.zero_add,
      hleaves] at hsolve
    exact hsolve
  · rw [solveRequest_eq hn (entries_of_wellFormed h), hleaves, bump_exactInc, Int.zero_add]
    rfl

/-- Four rows, the second queen in the last column. -/
theorem solve_counts_four :
    NQueenServiceImpl.solveRequest exactInc ⟨4, [-1, 3]⟩ =
      .ok ⟨TaskRequest.completions ⟨4, [-1, 3]⟩ 4⟩ := by
  have hentry : TaskRequest.WellFormed ⟨4, [-1, 3]⟩ (4 : Int32).toInt.toNat := by
    unfold TaskRequest.WellFormed TaskRequest.entry Column
    decide
  obtain ⟨_, _, _, h⟩ := @solve_counts ⟨4, [-1, 3]⟩ (by decide) hentry
  exact h

example : TaskRequest.completions ⟨4, [-1, 3]⟩ 4 = 1 := by decide +kernel

end AsioLearn.NQueen
