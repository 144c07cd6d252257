import AsioLearn.NQueen.Server
import AsioLearn.Lib.Queens

/-!
# What the N-queens service counts, on any board

A board of a request places the queens of some rows, on whatever column it gives, and leaves the
other rows free (-1, or past its end). The search takes the placed queens as they are: a filling has
one queen in every row, in a placed row the one that is there, in a free row one on columns `0` to
`n - 1`, and no two of them on one column or diagonal. `is_safe` looks at the rows above only, and
at a placed row only when the search comes to it; the leaves of the search are the fillings all the
same.

Results:
* `mem_leafPaths_fillings`: a leaf of the search is a filling, row by row.
* `leaves_eq_fillings`: there are as many.
-/

namespace AsioLearn.NQueen

open CppVector Lib.Backtrack Lib.Queens

/-! ## Fillings -/

/-- Entry `row` of the request's board, the rows past its end being free. -/
def TaskRequest.entry (request : TaskRequest) (row : Nat) : Int :=
  ((request.board.map Int32.toInt)[row]?).getD (-1)

/-- The columns that may stand in a row. -/
def TaskRequest.columnsAt (request : TaskRequest) (n row : Nat) : Finset Int :=
  if request.entry row = -1 then (columns n).toFinset else {request.entry row}

/-- The placements of one queen a row that agree with the board and do not attack each other. -/
def TaskRequest.fillings (request : TaskRequest) (n : Nat) : Finset (Fin n → Int) :=
  (Fintype.piFinset fun row : Fin n => request.columnsAt n row).filter NonAttacking

theorem mem_columnsAt {request : TaskRequest} {n row : Nat} {c : Int} :
    c ∈ request.columnsAt n row ↔
      if request.entry row = -1 then Column n c else c = request.entry row := by
  unfold TaskRequest.columnsAt
  split_ifs
  · rw [List.mem_toFinset, mem_columns]
  · exact Finset.mem_singleton

theorem mem_fillings {request : TaskRequest} {n : Nat} {q : Fin n → Int} :
    q ∈ request.fillings n ↔
      (∀ row : Fin n, q row ∈ request.columnsAt n row) ∧ NonAttacking q := by
  unfold TaskRequest.fillings
  rw [Finset.mem_filter, Fintype.mem_piFinset]

/-! ## The leaves of the search -/

theorem padded_getElem? {request : TaskRequest} {row : Nat} (h : row < request.n.toInt.toNat) :
    request.padded[row]? = some (request.entry row) := by
  unfold TaskRequest.padded TaskRequest.entry
  by_cases hlt : row < request.board.length
  · rw [List.getElem?_append_left (by rw [List.length_map]; exact hlt), List.getElem?_map,
      List.getElem?_eq_getElem hlt]
    rfl
  · rw [List.getElem?_append_right (by rw [List.length_map]; omega), List.length_map,
      List.getElem?_replicate_of_lt (by omega), List.getElem?_map,
      List.getElem?_eq_none (by omega)]
    rfl

theorem nodup_columns (n : Nat) : (columns n).Nodup :=
  List.Nodup.map (fun _ _ h => Int.ofNat_inj.mp h) List.nodup_range

theorem nodup_rowCandidates (n : Nat) (board : List Int) (row : Nat) :
    (rowCandidates n board row).Nodup := by
  unfold rowCandidates
  split
  · exact nodup_columns n
  · cases board[row]? with
    | none => exact List.nodup_nil
    | some q => exact List.nodup_singleton q

theorem mem_rowCandidates {request : TaskRequest} {n row : Nat} {c : Int}
    (hn : request.n.toInt.toNat = n) (hrow : row < n) :
    c ∈ rowCandidates n request.padded row ↔ c ∈ request.columnsAt n row := by
  subst hn
  have hentry := padded_getElem? hrow
  rw [mem_columnsAt]
  split_ifs with hfree
  · rw [hfree] at hentry
    rw [rowCandidates_free hentry, mem_columns]
  · rw [rowCandidates_placed hentry hfree, List.mem_singleton]

/-- The queen of a row is safe from the rows above. -/
theorem safe_ofFn {n : Nat} (q : Fin n → Int) (j : Fin n) :
    Safe ((List.ofFn q).take j) (q j) ↔ ∀ i : Fin n, i < j →
      q i ≠ q j ∧ |q i - q j| ≠ |(i.val : Int) - j.val| := by
  have hlen : ((List.ofFn q).take j).length = j := by
    rw [List.length_take, List.length_ofFn]
    exact Nat.min_eq_left j.isLt.le
  have hdiag : ∀ i : Fin n, i < j → |(i.val : Int) - j.val| = j.val - i.val := by
    intro i hij
    rw [abs_sub_comm, abs_of_nonneg (by omega)]
  have hget : ∀ i (hi : i < j.val) (hlt : i < ((List.ofFn q).take j).length),
      ((List.ofFn q).take j)[i] = q ⟨i, hi.trans j.isLt⟩ := by
    intro i hi hlt
    rw [List.getElem_take, List.getElem_ofFn]
  unfold Safe
  constructor
  · intro h i hij
    have := h i (by rw [hlen]; exact hij)
    rw [hget i hij, hlen] at this
    rw [hdiag i hij]
    exact this
  · intro h i hi
    have hij : i < j.val := by rw [← hlen]; exact hi
    have := h ⟨i, hij.trans j.isLt⟩ hij
    rw [hdiag _ hij] at this
    rw [hget i hij, hlen]
    exact this

/-- Pairs of rows in order are enough. -/
theorem nonAttacking_iff {n : Nat} (q : Fin n → Int) :
    NonAttacking q ↔ ∀ j : Fin n, Safe ((List.ofFn q).take j) (q j) := by
  constructor
  · intro h j
    exact (safe_ofFn q j).mpr fun i hij => h i j hij.ne
  · intro h i j hne
    rcases lt_or_gt_of_ne hne with hij | hji
    · exact (safe_ofFn q j).mp (h j) i hij
    · obtain ⟨hcol, hdiag⟩ := (safe_ofFn q i).mp (h i) j hji
      exact ⟨hcol.symm, by rw [abs_sub_comm, abs_sub_comm (i.val : Int)]; exact hdiag⟩

/-- **The leaves of the search are the fillings.** -/
theorem mem_leafPaths_fillings {request : TaskRequest} {n : Nat} (hn : request.n.toInt.toNat = n)
    {r : List Int} :
    r ∈ leafPaths (choices (rowCandidates n request.padded)) n [] ↔
      ∃ q ∈ request.fillings n, List.ofFn q = r := by
  have hrows : ∀ q : Fin n → Int, q ∈ request.fillings n ↔ ∀ j : Fin n,
      q j ∈ choices (rowCandidates n request.padded) ((List.ofFn q).take j) := by
    intro q
    rw [mem_fillings, nonAttacking_iff, ← forall_and]
    refine forall_congr' fun j => ?_
    have htake : ((List.ofFn q).take j).length = j := by
      rw [List.length_take, List.length_ofFn]
      exact Nat.min_eq_left j.isLt.le
    rw [mem_choices, htake, mem_rowCandidates hn j.isLt]
  rw [mem_leafPaths]
  constructor
  · rintro ⟨hlen, -, hchoice⟩
    obtain rfl : r.length = n := by rw [hlen, List.length_nil, Nat.zero_add]
    refine ⟨r.get, (hrows r.get).mpr fun j => ?_, List.ofFn_get r⟩
    rw [List.ofFn_get]
    exact hchoice j j.isLt (Nat.zero_le _)
  · rintro ⟨q, hq, rfl⟩
    refine ⟨by rw [List.length_ofFn, List.length_nil, Nat.zero_add], List.nil_prefix, ?_⟩
    intro row hr _
    rw [List.getElem_ofFn]
    rw [List.length_ofFn] at hr
    exact (hrows q).mp hq ⟨row, hr⟩

theorem leaves_eq_fillings {request : TaskRequest} {n : Nat} (hn : request.n.toInt.toNat = n) :
    leaves (choices (rowCandidates n request.padded)) n [] = (request.fillings n).card := by
  have hnodup : ∀ p, (choices (rowCandidates n request.padded) p).Nodup :=
    fun p => (nodup_rowCandidates n request.padded p.length).filter _
  have himage : (leafPaths (choices (rowCandidates n request.padded)) n []).toFinset =
      (request.fillings n).image List.ofFn := by
    ext r
    rw [List.mem_toFinset, mem_leafPaths_fillings hn, Finset.mem_image]
  rw [leaves_eq_card hnodup, himage, Finset.card_image_of_injective _ List.ofFn_injective]

end AsioLearn.NQueen
