import AsioLearn.NQueen.Count

/-!
# What the N-queens service replies

`int solutions` counts the fillings of the board, whatever the request: `Solve` looks at no entry of
`partial` before it searches, and the count is not looked at either. A queen that is out of range is
one of a filling all the same, and the count overflows after `2 ^ 31 - 1` fillings.

Results:
* `solveRequest_int_iff`, `solveRequest_int_wellFormed`: what a reply says.
* `reply_exact_iff`: when the count does not overflow.
* `card_fillings_empty`: on an empty board the fillings are all solutions of the problem, and on one
  of `p * p` rows, `p` a prime, there are at least `((p - 3) * p) ^ (p + 1)`.
* `reports_none_iff`: when a request with a queen out of range is told that there is no solution.
-/

namespace AsioLearn.NQueen

open CppVector Lib.Backtrack Lib.Queens

theorem solveRequest_exact {request : TaskRequest} (hn : 0 ≤ request.n.toInt)
    (hfit : request.TestsFit) : NQueenServiceImpl.solveRequest exactInc request =
      .ok ⟨(request.fillings request.n.toInt.toNat).card⟩ := by
  rw [solveRequest_ok hn hfit, bump_exactInc, Int.zero_add]
  unfold TaskRequest.search
  rw [leaves_eq_fillings rfl]
  rfl

/-- **What a reply says**: the number of fillings, if every comparison and the count go through. -/
theorem solveRequest_int_iff {request : TaskRequest} (hn : 0 ≤ request.n.toInt) {k : Int} :
    NQueenServiceImpl.solveRequest intInc request = .ok ⟨k⟩ ↔ request.TestsFit ∧
      k = (request.fillings request.n.toInt.toNat).card ∧
      (request.fillings request.n.toInt.toNat).card < 2 ^ 31 := by
  by_cases hfit : request.TestsFit
  · rw [solveRequest_ok hn hfit, and_iff_right hfit]
    unfold TaskRequest.search
    rw [leaves_eq_fillings rfl, bump_intInc _ (by decide), Int.zero_add]
    by_cases hlt : (request.fillings request.n.toInt.toNat).card < 2 ^ 31
    · rw [if_pos (by omega), and_iff_left hlt]
      constructor
      · intro h
        exact (congrArg TaskResult.solutions (Except.ok.inj h)).symm
      · rintro rfl
        rfl
    · rw [if_neg (by omega)]
      exact iff_of_false (fun h => by cases h) fun h => hlt h.2
  · rw [solveRequest_error (fun _ _ => intInc_error) hn hfit]
    exact iff_of_false (fun h => by cases h) fun h => hfit h.1

/-- On entries that are free or columns every comparison goes through, and the fillings are the
completions. -/
theorem solveRequest_int_wellFormed {request : TaskRequest} (hn : 0 ≤ request.n.toInt)
    (h : request.WellFormed request.n.toInt.toNat) {k : Int} :
    NQueenServiceImpl.solveRequest intInc request = .ok ⟨k⟩ ↔
      k = request.completions request.n.toInt.toNat ∧
        request.completions request.n.toInt.toNat < 2 ^ 31 := by
  have hfit : request.TestsFit := testsFit_of_entries (entries_of_wellFormed h)
  rw [solveRequest_int_iff hn, and_iff_right hfit, card_fillings rfl h]

/-! ## The count -/

/-- **When the count is exact**: at most `2 ^ 31 - 1` fillings, and no comparison that overflows. -/
theorem reply_exact_iff {request : TaskRequest} (hn : 0 ≤ request.n.toInt) :
    (∃ reply, NQueenServiceImpl.solveRequest intInc request = .ok reply ∧
      NQueenServiceImpl.solveRequest exactInc request = .ok reply ∧
      reply.solutions ≤ 2 ^ 31 - 1) ↔
    request.TestsFit ∧ (request.fillings request.n.toInt.toNat).card ≤ 2 ^ 31 - 1 := by
  constructor
  · rintro ⟨⟨k⟩, hint, -, -⟩
    obtain ⟨hfit, -, hlt⟩ := (solveRequest_int_iff hn).mp hint
    exact ⟨hfit, Nat.le_sub_one_of_lt hlt⟩
  · rintro ⟨hfit, hle⟩
    exact ⟨_, (solveRequest_int_iff hn).mpr ⟨hfit, rfl, by omega⟩, solveRequest_exact hn hfit, by
      simp only
      omega⟩

/-- Four rows, the second queen in the last column. -/
theorem reply_exact_four :
    (∃ reply, NQueenServiceImpl.solveRequest intInc ⟨4, [-1, 3]⟩ = .ok reply ∧
      NQueenServiceImpl.solveRequest exactInc ⟨4, [-1, 3]⟩ = .ok reply ∧
      reply.solutions ≤ 2 ^ 31 - 1) ↔
    TaskRequest.TestsFit ⟨4, [-1, 3]⟩ ∧ (TaskRequest.fillings ⟨4, [-1, 3]⟩ 4).card ≤ 2 ^ 31 - 1 :=
  @reply_exact_iff ⟨4, [-1, 3]⟩ (by decide)

/-- The request for an empty board. -/
def emptyBoard (n : Int32) : TaskRequest := ⟨n, []⟩

theorem fillings_emptyBoard (n : Int32) (k : Nat) : (emptyBoard n).fillings k = solutions k := by
  ext q
  rw [mem_fillings, mem_solutions]
  refine and_congr_left fun _ => forall_congr' fun row => ?_
  have hfree : (emptyBoard n).entry row = -1 := rfl
  rw [mem_columnsAt, if_pos hfree]
  rfl

/-- The solutions made of lines only. -/
theorem card_fillings_empty (n : Int32) (p : Nat) [Fact p.Prime] :
    ((p - 3) * p) ^ (p + 1) ≤ ((emptyBoard n).fillings (p * p)).card := by
  have hp : 0 < p := (Fact.out : p.Prime).pos
  have hmodular := card_lines p
  have hlines := hmodular.trans (Finset.card_le_card (modularSolutions_subset p))
  rw [fillings_emptyBoard]
  calc ((p - 3) * p) ^ (p + 1)
      = (p - 3) * p * ((p - 3) * p) ^ p := by rw [pow_succ, mul_comm]
    _ ≤ (modularSolutions p).card * (solutions p).card ^ p :=
        Nat.mul_le_mul hmodular (Nat.pow_le_pow_left hlines p)
    _ ≤ (solutions (p * p)).card := card_interleave hp p

/-- An empty board of 49 rows. -/
theorem reply_overflows :
    ¬ ∀ request : TaskRequest, 0 ≤ request.n.toInt →
      ∃ reply, NQueenServiceImpl.solveRequest intInc request = .ok reply ∧
        NQueenServiceImpl.solveRequest exactInc request = .ok reply ∧
        reply.solutions ≤ 2 ^ 31 - 1 := by
  intro h
  have hprime : Fact (Nat.Prime 7) := ⟨Nat.prime_seven⟩
  obtain ⟨⟨k⟩, hint, -, -⟩ := h (emptyBoard 49) (by decide)
  obtain ⟨-, -, hlt⟩ := (solveRequest_int_iff (by decide)).mp hint
  have hmany : ((7 - 3) * 7) ^ (7 + 1) ≤ ((emptyBoard 49).fillings 49).card :=
    card_fillings_empty 49 7
  have hn : (emptyBoard 49).n.toInt.toNat = 49 := rfl
  rw [hn] at hlt
  omega

/-! ## Queens out of range -/

/-- The reply is 0, or the status is not OK because an exception has left `Solve`. -/
def ReportsNone (reply : Except Fault TaskResult) : Prop :=
  reply = .ok ⟨0⟩ ∨ reply = .error .lengthError

/-- A queen out of range is on no board of `n` columns. -/
theorem completions_of_out_of_range {request : TaskRequest} {n row : Nat} (hrow : row < n)
    (hplaced : request.entry row ≠ -1) (hout : ¬ Column n (request.entry row)) :
    request.completions n = 0 := by
  unfold TaskRequest.completions
  rw [Finset.card_eq_zero, Finset.filter_eq_empty_iff]
  rintro q - ⟨hagree, -⟩
  have hq := (hagree ⟨row, hrow⟩).resolve_left hplaced
  rw [hq] at hout
  exact hout (column_of_lt (q ⟨row, hrow⟩).isLt)

/-- **When a queen out of range is noticed**: the request has no completion, and is told so if its
board has no filling either and no comparison overflows. -/
theorem reports_none_iff {request : TaskRequest} (hn : 1 ≤ request.n.toInt)
    (hbad : ∃ row < request.n.toInt.toNat, request.entry row ≠ -1 ∧
      ¬ Column request.n.toInt.toNat (request.entry row)) :
    request.completions request.n.toInt.toNat = 0 ∧
    (ReportsNone (NQueenServiceImpl.solveRequest intInc request) ↔
      request.TestsFit ∧ request.fillings request.n.toInt.toNat = ∅) := by
  have hn0 : 0 ≤ request.n.toInt := Int.le_trans (by decide) hn
  obtain ⟨row, hrow, hplaced, hout⟩ := hbad
  refine ⟨completions_of_out_of_range hrow hplaced hout, ?_⟩
  have hthrows : NQueenServiceImpl.solveRequest intInc request ≠ .error .lengthError := by
    intro h
    by_cases hfit : request.TestsFit
    · rw [solveRequest_ok hn0 hfit, bump_intInc _ (by decide)] at h
      split_ifs at h <;> cases h
    · rw [solveRequest_error (fun _ _ => intInc_error) hn0 hfit] at h
      cases h
  unfold ReportsNone
  rw [or_iff_left hthrows, solveRequest_int_iff hn0, ← Finset.card_eq_zero]
  refine and_congr_right fun _ => ?_
  omega

/-- One row, its queen in column 5. -/
theorem reports_none_five :
    TaskRequest.completions ⟨1, [5]⟩ 1 = 0 ∧
    (ReportsNone (NQueenServiceImpl.solveRequest intInc ⟨1, [5]⟩) ↔
      TaskRequest.TestsFit ⟨1, [5]⟩ ∧ TaskRequest.fillings ⟨1, [5]⟩ 1 = ∅) :=
  @reports_none_iff ⟨1, [5]⟩ (by decide) ⟨0, by decide, by decide, by
    unfold Column
    decide⟩

/-- It is a solution to the service. -/
theorem queen_out_of_range :
    ¬ ∀ request : TaskRequest, 1 ≤ request.n.toInt →
      (∃ row < request.n.toInt.toNat, request.entry row ≠ -1 ∧
        ¬ Column request.n.toInt.toNat (request.entry row)) →
      ReportsNone (NQueenServiceImpl.solveRequest intInc request) := by
  intro h
  have hreply : NQueenServiceImpl.solveRequest intInc ⟨1, [5]⟩ = .ok ⟨1⟩ := rfl
  have hnone := h ⟨1, [5]⟩ (by decide) ⟨0, by decide, by decide, by
    unfold Column
    decide⟩
  rw [hreply] at hnone
  rcases hnone with hnone | hnone
  · cases hnone
  · cases hnone

end AsioLearn.NQueen
