import AsioLearn.Cpp
import AsioLearn.NQueen.Board

/-!
# The N-queens service

`nqueen_server.cc`: `NQueenServiceImpl::Solve` pads the board of the request with -1 and counts
its completions; `solve` takes a row whose queen is already there as it is, and tries every column
of a free row. `left` is `n - row`, the number of rows still to fill: it is 0 exactly when
`row == n`.

Results:
* `solve_ok`, `solve_error`: when no comparison fails (`Fits`), `solve` completes, restores the
  board and counts the leaves of the tree whose choices in a row are the safe ones of
  `rowCandidates`; otherwise it overflows.
* `solveRequest_ok`, `solveRequest_error`: what comes of a request.
* `solve_eq`, `solveRequest_eq`: no comparison fails on entries that are free or columns.
-/

namespace AsioLearn.NQueen

open Cpp (sizeT sizeT_of_nonneg)
open CppVector Lib.Backtrack

/-- `TaskRequest` of `nqueen.proto`; `board` is its field `partial`. -/
structure TaskRequest where
  n : Int32
  board : List Int32

/-- `TaskResult` of `nqueen.proto`. -/
structure TaskResult where
  solutions : Int
  deriving DecidableEq

/-! ## The source's functions -/

/-- `NQueenServiceImpl::is_safe`. -/
def NQueenServiceImpl.isSafe (board : List Int) (row : Nat) (col : Int) : Except Fault Bool :=
  noAttack board row col

/-- `NQueenServiceImpl::solve`. -/
def NQueenServiceImpl.solve (inc : Int → Except Fault Int) (n : Nat) :
    Nat → List Int → Int → Except Fault (List Int × Int)
  | 0, board, solutions => do
    let solutions ← inc solutions
    return (board, solutions)
  | left + 1, board, solutions => do
    let row := n - (left + 1)
    let q ← vectorGet board row
    if q ≠ -1 then
      if ← isSafe board row q then
        solve inc n left board solutions
      else
        return (board, solutions)
    else
      tryColumns n isSafe (solve inc n left) board row solutions

/-- `if (partial.size() < n) partial.resize(n, -1);`, the comparison being one of `size_t`s. -/
def padBoard (board : List Int) (n : Int) : Except Fault (List Int) :=
  if board.length < sizeT n then vectorResize board (sizeT n) (-1) else .ok board

/-- `NQueenServiceImpl::Solve`. -/
def NQueenServiceImpl.solveRequest (inc : Int → Except Fault Int) (request : TaskRequest) :
    Except Fault TaskResult := do
  let n := request.n.toInt
  let board ← padBoard (request.board.map Int32.toInt) n
  let (_, solutions) ← solve inc n.toNat n.toNat board 0
  return ⟨solutions⟩

/-! ## What they compute -/

/-- The first `n` entries of the board are free or columns. -/
def Entries (n : Nat) (board : List Int) : Prop :=
  ∀ row < n, ∃ q, board[row]? = some q ∧ (q = -1 ∨ Column n q)

/-- The columns that may stand in a row: every one in a free row, only its own in a placed one. -/
def rowCandidates (n : Nat) (board : List Int) (row : Nat) : List Int :=
  if board[row]? = some (-1) then columns n else board[row]?.toList

theorem rowCandidates_free {n row : Nat} {board : List Int} (h : board[row]? = some (-1)) :
    rowCandidates n board row = columns n := by
  unfold rowCandidates
  rw [if_pos h]

theorem rowCandidates_placed {n row : Nat} {board : List Int} {q : Int} (h : board[row]? = some q)
    (hq : q ≠ -1) : rowCandidates n board row = [q] := by
  unfold rowCandidates
  rw [h, if_neg (by simpa using hq)]
  rfl

/-- The candidates of the row below `p` can be compared with the rows `p`. -/
def Fits (candidates : Nat → List Int) (p : List Int) : Prop :=
  ∀ c ∈ candidates p.length, Comparable p c

theorem mem_choices {candidates : Nat → List Int} {p : List Int} {c : Int} :
    c ∈ choices candidates p ↔ c ∈ candidates p.length ∧ Safe p c := by
  unfold choices
  rw [List.mem_filter, decide_eq_true_eq]

/-- On column `c` of the row below `p` a comparison fails, or one does further down. -/
def Fails (candidates : Nat → List Int) (left : Nat) (p : List Int) (c : Int) : Prop :=
  ¬ Comparable p c ∨
    Safe p c ∧ ¬ Throughout (choices candidates) (Fits candidates) left (p ++ [c])

theorem exists_fails {candidates : Nat → List Int} {left : Nat} {p : List Int}
    (h : ¬ Throughout (choices candidates) (Fits candidates) (left + 1) p) :
    ∃ c ∈ candidates p.length, Fails candidates left p c := by
  by_contra hno
  refine h ⟨fun c hc => ?_, fun c hc => ?_⟩
  · by_contra hcomp
    exact hno ⟨c, hc, Or.inl hcomp⟩
  · obtain ⟨hc, hs⟩ := mem_choices.mp hc
    by_contra hbelow
    exact hno ⟨c, hc, Or.inr ⟨hs, hbelow⟩⟩

section Search

variable {inc : Int → Except Fault Int} {n left : Nat} {board p : List Int}

/-- The next row on `board`. -/
theorem drop_eq_cons {q : Int} (hq : board[p.length]? = some q) :
    board.drop p.length = q :: board.drop (p.length + 1) := by
  obtain ⟨hlt, rfl⟩ := List.getElem?_eq_some_iff.mp hq
  exact List.drop_eq_getElem_cons hlt

/-- The board with column `c` in the next row. -/
theorem next_row (c : Int) :
    p ++ c :: board.drop (p.length + 1) = (p ++ [c]) ++ board.drop (p ++ [c]).length := by
  simp

/-- A free row: the loop over the columns. -/
theorem solve_free (hlen : p.length + (left + 1) = n) (hq : board[p.length]? = some (-1))
    (s : Int) : NQueenServiceImpl.solve inc n (left + 1) (p ++ board.drop p.length) s =
      tryColumns n NQueenServiceImpl.isSafe (NQueenServiceImpl.solve inc n left)
        (p ++ -1 :: board.drop (p.length + 1)) p.length s := by
  have hrow : n - (left + 1) = p.length := by omega
  rw [drop_eq_cons hq]
  simp only [NQueenServiceImpl.solve, hrow, vectorGet_append, bind, Except.bind]
  rw [if_neg (by simp)]

/-- A placed row: its own column, if it is safe. -/
theorem solve_placed (hlen : p.length + (left + 1) = n) {q : Int} (hq : board[p.length]? = some q)
    (hplaced : q ≠ -1) (s : Int) :
    NQueenServiceImpl.solve inc n (left + 1) (p ++ board.drop p.length) s = (do
      if ← NQueenServiceImpl.isSafe (p ++ q :: board.drop (p.length + 1)) p.length q then
        NQueenServiceImpl.solve inc n left (p ++ q :: board.drop (p.length + 1)) s
      else
        return (p ++ q :: board.drop (p.length + 1), s)) := by
  have hrow : n - (left + 1) = p.length := by omega
  rw [drop_eq_cons hq]
  simp only [NQueenServiceImpl.solve, hrow, vectorGet_append, bind, Except.bind]
  rw [if_pos hplaced]

/-- The search below the rows `p`, which are placed on `board`, if no comparison fails. -/
theorem solve_ok (hn : n < 2 ^ 31) (hb : n ≤ board.length) (hlen : p.length + left = n)
    (hfit : Throughout (choices (rowCandidates n board)) (Fits (rowCandidates n board)) left p)
    (s : Int) :
    NQueenServiceImpl.solve inc n left (p ++ board.drop p.length) s =
      (bump inc (leaves (choices (rowCandidates n board)) left p) s).map
        (p ++ board.drop p.length, ·) := by
  induction left generalizing p s with
  | zero =>
    simp only [NQueenServiceImpl.solve, leaves, bump_one]
    cases inc s <;> rfl
  | succ left ih =>
    obtain ⟨hfits, hbelow⟩ := hfit
    obtain ⟨q, hq⟩ : ∃ q, board[p.length]? = some q :=
      ⟨_, List.getElem?_eq_getElem (by omega)⟩
    -- the search one row further down, with column `c` in this row
    have hnext : ∀ c ∈ choices (rowCandidates n board) p, ∀ s,
        NQueenServiceImpl.solve inc n left (p ++ c :: board.drop (p.length + 1)) s =
          (bump inc (leaves (choices (rowCandidates n board)) left (p ++ [c])) s).map
            (p ++ c :: board.drop (p.length + 1), ·) := by
      intro c hc s
      rw [next_row]
      exact ih (by simp only [List.length_append, List.length_singleton]; omega) (hbelow c hc) s
    have hsafe : ∀ c ∈ rowCandidates n board p.length, NQueenServiceImpl.isSafe
        (p ++ q :: board.drop (p.length + 1)) p.length c = .ok (decide (Safe p c)) :=
      fun c hc => noAttack_ok (by omega) (hfits c hc)
    by_cases hfree : q = -1
    · subst hfree
      have hcand := rowCandidates_free (n := n) hq
      have hchoices : choices (rowCandidates n board) p =
          (columns n).filter fun c => decide (Safe p c) := by
        unfold choices
        rw [hcand]
      rw [hcand] at hsafe
      rw [solve_free hlen hq, drop_eq_cons hq, leaves_filter hchoices]
      refine tryColumns_eq (fun c hc => hsafe c (mem_columns.mpr hc)) (fun c hc hs => ?_) s
      exact hnext c (mem_choices.mpr ⟨by rw [hcand]; exact mem_columns.mpr hc, hs⟩)
    · have hcand := rowCandidates_placed (n := n) hq hfree
      have hchoices : choices (rowCandidates n board) p =
          [q].filter fun c => decide (Safe p c) := by
        unfold choices
        rw [hcand]
      rw [hcand] at hsafe
      rw [solve_placed hlen hq hfree, drop_eq_cons hq, hsafe q List.mem_cons_self,
        leaves_filter hchoices]
      by_cases h : Safe p q
      · have hq' : q ∈ choices (rowCandidates n board) p :=
          mem_choices.mpr ⟨by rw [hcand]; exact List.mem_cons_self, h⟩
        simpa [h, bind, Except.bind] using hnext q hq' s
      · simp [h, bind, Except.bind, pure, Except.pure, Except.map]

/-- The search fails if some comparison does, and the count no other way. -/
theorem solve_error (hinc : ∀ s e, inc s = .error e → e = .signedOverflow) (hn : n < 2 ^ 31)
    (hb : n ≤ board.length) (hlen : p.length + left = n)
    (hfit : ¬ Throughout (choices (rowCandidates n board)) (Fits (rowCandidates n board)) left p)
    (s : Int) :
    NQueenServiceImpl.solve inc n left (p ++ board.drop p.length) s = .error .signedOverflow := by
  induction left generalizing p s with
  | zero => exact absurd trivial hfit
  | succ left ih =>
    obtain ⟨q, hq⟩ : ∃ q, board[p.length]? = some q :=
      ⟨_, List.getElem?_eq_getElem (by omega)⟩
    have hlen' : ∀ c, (p ++ [c]).length + left = n := by
      intro c
      simp only [List.length_append, List.length_singleton]
      omega
    have hsafe : ∀ c, Comparable p c → NQueenServiceImpl.isSafe
        (p ++ q :: board.drop (p.length + 1)) p.length c = .ok (decide (Safe p c)) :=
      fun c hc => noAttack_ok (by omega) hc
    -- on column `c` the test fails, or the search one row further down
    have hfail : ∀ c, Fails (rowCandidates n board) left p c →
        NQueenServiceImpl.isSafe (p ++ q :: board.drop (p.length + 1)) p.length c =
            .error .signedOverflow ∨
          NQueenServiceImpl.isSafe (p ++ q :: board.drop (p.length + 1)) p.length c = .ok true ∧
            ∀ s, NQueenServiceImpl.solve inc n left (p ++ c :: board.drop (p.length + 1)) s =
              .error .signedOverflow := by
      intro c hc
      by_cases hcomp : Comparable p c
      · obtain ⟨hs, hbelow⟩ := hc.resolve_left (not_not.mpr hcomp)
        refine Or.inr ⟨by rw [hsafe c hcomp, decide_eq_true hs], fun s => ?_⟩
        rw [next_row]
        exact ih (hlen' c) hbelow s
      · exact Or.inl (noAttack_error (by omega) hcomp)
    obtain ⟨c, hc, hfails⟩ := exists_fails hfit
    by_cases hfree : q = -1
    · subst hfree
      rw [rowCandidates_free hq] at hc
      rw [solve_free hlen hq]
      refine tryColumns_error (f := fun c => leaves (choices (rowCandidates n board)) left (p ++ [c]))
        (Fails (rowCandidates n board) left p) hinc ?_ (fun c _ => hfail c)
        ⟨c, mem_columns.mp hc, hfails⟩ s
      intro c _ hgood
      obtain ⟨hcomp, hbelow⟩ := not_or.mp hgood
      refine ⟨hsafe c (not_not.mp hcomp), fun hs s => ?_⟩
      rw [next_row]
      exact solve_ok hn hb (hlen' c) (not_not.mp fun h => hbelow ⟨hs, h⟩) s
    · rw [rowCandidates_placed hq hfree] at hc
      obtain rfl := List.mem_singleton.mp hc
      rw [solve_placed hlen hq hfree]
      rcases hfail c hfails with h | ⟨h, hbelow⟩
      · rw [h]
        rfl
      · simp only [h, hbelow, bind, Except.bind, if_true]

end Search

/-- On free entries and columns no comparison fails. -/
theorem fits_of_entries {n : Nat} (hn : n < 2 ^ 31) {board : List Int} (hb : Entries n board)
    {left : Nat} {p : List Int} (hlen : p.length + left = n) (hp : ∀ q ∈ p, Column n q) :
    Throughout (choices (rowCandidates n board)) (Fits (rowCandidates n board)) left p := by
  refine throughout_of (I := fun r => ∀ q ∈ r, Column n q) (fun r hr hlt => ?_) hp
  obtain ⟨q, hq, hrange⟩ := hb r.length (by omega)
  have hcand : ∀ c ∈ rowCandidates n board r.length, Column n c := by
    intro c hc
    by_cases hfree : q = -1
    · subst hfree
      rw [rowCandidates_free hq] at hc
      exact mem_columns.mp hc
    · rw [rowCandidates_placed hq hfree] at hc
      rw [List.mem_singleton.mp hc]
      exact hrange.resolve_left hfree
  refine ⟨fun c hc => comparable_of_column hn hr (hcand c hc), fun c hc => ?_⟩
  exact forall_column_append hr (hcand c (mem_choices.mp hc).1)

/-- The search below the rows `p`, which are placed on `board`. -/
theorem solve_eq {inc : Int → Except Fault Int} {n : Nat} (hn : n < 2 ^ 31) {board : List Int}
    (hb : Entries n board) {left : Nat} {p : List Int} (hlen : p.length + left = n)
    (hp : ∀ q ∈ p, Column n q) (s : Int) :
    NQueenServiceImpl.solve inc n left (p ++ board.drop p.length) s =
      (bump inc (leaves (choices (rowCandidates n board)) left p) s).map
        (p ++ board.drop p.length, ·) := by
  refine solve_ok hn ?_ hlen (fits_of_entries hn hb hlen hp) s
  by_contra hshort
  obtain ⟨q, hq, -⟩ := hb board.length (not_le.mp hshort)
  rw [List.getElem?_eq_none le_rfl] at hq
  cases hq

/-- The board `Solve` searches: the request's, padded with -1 to `n` rows. -/
def TaskRequest.padded (request : TaskRequest) : List Int :=
  request.board.map Int32.toInt ++
    List.replicate (request.n.toInt.toNat - request.board.length) (-1)

theorem padBoard_eq {request : TaskRequest} (hn : 0 ≤ request.n.toInt) :
    padBoard (request.board.map Int32.toInt) request.n.toInt = .ok request.padded := by
  have hlt : request.n.toInt < 2 ^ 31 := request.n.toInt_lt
  unfold padBoard TaskRequest.padded
  rw [sizeT_of_nonneg hn (by omega), List.length_map]
  by_cases h : request.board.length < request.n.toInt.toNat
  · rw [if_pos h, vectorResize_ok (by rw [List.length_map]; omega) (by omega), List.length_map]
  · rw [if_neg h, Nat.sub_eq_zero_of_le (by omega), List.replicate_zero, List.append_nil]

theorem le_length_padded (request : TaskRequest) :
    request.n.toInt.toNat ≤ request.padded.length := by
  unfold TaskRequest.padded
  rw [List.length_append, List.length_map, List.length_replicate]
  omega

/-- The tree of the search for the request. -/
def TaskRequest.search (request : TaskRequest) : List Int → List Int :=
  choices (rowCandidates request.n.toInt.toNat request.padded)

/-- No comparison that `Solve` makes fails. -/
def TaskRequest.TestsFit (request : TaskRequest) : Prop :=
  Throughout request.search (Fits (rowCandidates request.n.toInt.toNat request.padded))
    request.n.toInt.toNat []

theorem solveRequest_ok {inc : Int → Except Fault Int} {request : TaskRequest}
    (hn : 0 ≤ request.n.toInt) (hfit : request.TestsFit) :
    NQueenServiceImpl.solveRequest inc request =
      (bump inc (leaves request.search request.n.toInt.toNat []) 0).map TaskResult.mk := by
  have hlt : request.n.toInt < 2 ^ 31 := request.n.toInt_lt
  have hsolve := @solve_ok inc request.n.toInt.toNat request.n.toInt.toNat request.padded []
    (by omega) (le_length_padded request) (Nat.zero_add _) hfit 0
  simp only [List.length_nil, List.drop_zero, List.nil_append] at hsolve
  simp only [NQueenServiceImpl.solveRequest, padBoard_eq hn, bind, Except.bind, hsolve]
  unfold TaskRequest.search
  cases bump inc (leaves (choices (rowCandidates request.n.toInt.toNat request.padded))
    request.n.toInt.toNat []) 0 <;> rfl

theorem solveRequest_error {inc : Int → Except Fault Int} {request : TaskRequest}
    (hinc : ∀ s e, inc s = .error e → e = .signedOverflow) (hn : 0 ≤ request.n.toInt)
    (hfit : ¬ request.TestsFit) :
    NQueenServiceImpl.solveRequest inc request = .error .signedOverflow := by
  have hlt : request.n.toInt < 2 ^ 31 := request.n.toInt_lt
  have hsolve := @solve_error inc request.n.toInt.toNat request.n.toInt.toNat request.padded []
    hinc (by omega) (le_length_padded request) (Nat.zero_add _) hfit 0
  simp only [List.length_nil, List.drop_zero, List.nil_append] at hsolve
  simp only [NQueenServiceImpl.solveRequest, padBoard_eq hn, bind, Except.bind, hsolve]

theorem testsFit_of_entries {request : TaskRequest}
    (hb : Entries request.n.toInt.toNat request.padded) : request.TestsFit := by
  have hlt : request.n.toInt < 2 ^ 31 := request.n.toInt_lt
  exact fits_of_entries (by omega) hb (Nat.zero_add _) (List.forall_mem_nil _)

theorem solveRequest_eq {inc : Int → Except Fault Int} {request : TaskRequest}
    (hn : 0 ≤ request.n.toInt) (hb : Entries request.n.toInt.toNat request.padded) :
    NQueenServiceImpl.solveRequest inc request =
      (bump inc (leaves (choices (rowCandidates request.n.toInt.toNat request.padded))
        request.n.toInt.toNat []) 0).map TaskResult.mk :=
  solveRequest_ok hn (testsFit_of_entries hb)

end AsioLearn.NQueen
