import AsioLearn.NQueen.Client
import Mathlib.Algebra.Order.BigOperators.Group.Finset

/-!
# The comparison at the end of `nqueen_client.cc`

`NQueenClient::Solve` returns 0 when its call fails, so `distribute_tasks` gives a total whatever
fails, and `main` compares it with the local one.

* The assumption on the transport is `Transport`: a call that comes back OK brings the service's
  reply. Any of the calls can fail.
* Times are left out, and counts are exact integers: that is what the `int`s count where the local
  total is an `int`.

Results:
* `distributeTasks_eq`: the total is the counts of the tasks whose calls came back.
* **`verification_iff`**: the distributed total is the sum of the replies that came back and never
  more than the local one, and `main` reports success exactly if every task whose call failed has
  no solution.
-/

namespace AsioLearn.NQueen

open CppVector

/-- `main` up to the comparison. -/
def verification (rpc : Nat → Address → TaskRequest → Option TaskResult) (n serverCount : Int32) :
    Except Fault Bool := do
  let distributedSolutions ← distributeTasks rpc n serverCount
  let localSolutions ← LocalNQueenSolver.solve exactInc n
  return distributedSolutions == localSolutions

/-- The number of every port is an `int`. -/
def PortsFit (n serverCount : Int32) : Prop :=
  ∀ i : Nat, i < n.toInt → 50051 + (i : Int).tmod serverCount.toInt < 2 ^ 31

variable {rpc : Nat → Address → TaskRequest → Option TaskResult} {n serverCount : Int32}

/-- What the future of task `i` holds. -/
def futureValue (rpc : Nat → Address → TaskRequest → Option TaskResult) (n serverCount : Int32)
    (i : Nat) : Nat :=
  if (taskCall rpc n serverCount i).isSome then taskCount n.toInt.toNat i else 0

/-- A call that fails counts as 0. -/
theorem dispatchTask_value (hrpc : Transport rpc) (hn : 1 ≤ n.toInt)
    (hservers : 1 ≤ serverCount.toInt) (hports : PortsFit n serverCount) {i : Nat}
    (hi : i < n.toInt) :
    dispatchTask rpc n serverCount (taskBoard n.toInt.toNat i) i =
      .ok (futureValue rpc n serverCount i : Int) := by
  unfold futureValue
  split_ifs with hok
  · exact dispatchTask_eq hrpc hn hservers hi hok
  · have hmod : intMod i serverCount.toInt = .ok ((i : Int).tmod serverCount.toInt) :=
      if_neg (by omega)
    have haddress : serverAddress ((i : Int).tmod serverCount.toInt) =
        .ok ⟨"localhost", 50051 + (i : Int).tmod serverCount.toInt⟩ := if_pos (hports i hi)
    have hnone : rpc i ⟨"localhost", 50051 + (i : Int).tmod serverCount.toInt⟩
        ⟨n, (taskBoard n.toInt.toNat i).map Int32.ofInt⟩ = none :=
      Option.not_isSome_iff_eq_none.mp hok
    simp only [dispatchTask, hmod, haddress, bind, Except.bind, NQueenClient.solve, hnone]
    rfl

/-- The loops of `distribute_tasks`, when no round of them overflows. -/
theorem distributeTasks_of_rounds {value : Nat → Int} (hn : 1 ≤ n.toInt)
    (h : ∀ i : Nat, i < n.toInt →
      dispatchTask rpc n serverCount (taskBoard n.toInt.toNat i) i = .ok (value i)) :
    distributeTasks rpc n serverCount = .ok ((List.range n.toInt.toNat).map value).sum := by
  have htasks : (List.range n.toInt.toNat).mapM (initialTask n) =
      .ok ((List.range n.toInt.toNat).map (taskBoard n.toInt.toNat)) :=
    mapM_eq_map fun col _ => initialTask_eq hn col
  have hround : ∀ x ∈ ((List.range n.toInt.toNat).map (taskBoard n.toInt.toNat)).zipIdx,
      dispatchTask rpc n serverCount x.1 x.2 = .ok ((value ∘ Prod.snd) x) := by
    rintro ⟨board, i⟩ hx
    rw [List.mk_mem_zipIdx_iff_getElem?, List.getElem?_map] at hx
    obtain ⟨j, hj, rfl⟩ := Option.map_eq_some_iff.mp hx
    obtain ⟨hlt, rfl⟩ := List.getElem?_eq_some_iff.mp hj
    rw [List.length_range] at hlt
    rw [List.getElem_range]
    exact h i (by omega)
  simp only [distributeTasks, htasks, bind, Except.bind, mapM_eq_map hround]
  rw [← List.map_map, List.zipIdx_map_snd, List.length_map, List.length_range,
    ← List.range_eq_range']
  rfl

theorem sum_range_map (n : Nat) (f : Nat → Nat) :
    ((List.range n).map fun i => (f i : Int)).sum = ((∑ i ∈ Finset.range n, f i : Nat) : Int) := by
  rw [Nat.cast_sum]
  rfl

/-- **The distributed total**, whatever fails. -/
theorem distributeTasks_eq (hrpc : Transport rpc) (hn : 1 ≤ n.toInt)
    (hservers : 1 ≤ serverCount.toInt) (hports : PortsFit n serverCount) :
    distributeTasks rpc n serverCount =
      .ok (∑ i ∈ Finset.range n.toInt.toNat, futureValue rpc n serverCount i : Nat) := by
  rw [distributeTasks_of_rounds hn fun i hi => dispatchTask_value hrpc hn hservers hports hi,
    sum_range_map]

/-- The local total is that of all tasks. -/
theorem local_solve_tasks (hn : 1 ≤ n.toInt) : LocalNQueenSolver.solve exactInc n =
    .ok (∑ i ∈ Finset.range n.toInt.toNat, taskCount n.toInt.toNat i : Nat) := by
  rw [local_solve_eq (by omega), leaves_first_row (by omega)]
  rfl

theorem futureValue_le (i : Nat) :
    futureValue rpc n serverCount i ≤ taskCount n.toInt.toNat i := by
  unfold futureValue
  split_ifs
  · exact le_rfl
  · exact Nat.zero_le _

/-- Nothing is missing exactly where the call came back or there was nothing to count. -/
theorem futureValue_eq_iff (i : Nat) :
    futureValue rpc n serverCount i = taskCount n.toInt.toNat i ↔
      (taskCall rpc n serverCount i = none → taskCount n.toInt.toNat i = 0) := by
  unfold futureValue
  cases taskCall rpc n serverCount i with
  | none => simp [eq_comm]
  | some reply => simp

/-- What a future holds is the reply, if there is one. -/
theorem futureValue_reply (hrpc : Transport rpc) (hn : 1 ≤ n.toInt) {i : Nat} (hi : i < n.toInt) :
    (futureValue rpc n serverCount i : Int) =
      ((taskCall rpc n serverCount i).map TaskResult.solutions).getD 0 := by
  unfold futureValue
  cases hcall : taskCall rpc n serverCount i with
  | none => rfl
  | some reply =>
    have hserved := hrpc.reply _ _ _ _ hcall
    rw [solveRequest_task hn hi] at hserved
    obtain rfl := Except.ok.inj hserved
    rfl

theorem sum_filterMap {A B : Type} (f : A → Option B) (g : B → Int) (xs : List A) :
    ((xs.filterMap f).map g).sum = (xs.map fun x => ((f x).map g).getD 0).sum := by
  induction xs with
  | nil => rfl
  | cons x xs ih =>
    rw [List.map_cons, List.sum_cons, ← ih]
    cases hx : f x with
    | none => simp [List.filterMap_cons_none hx]
    | some y => simp [List.filterMap_cons_some hx]

/-- **The distributed total is the replies that came back.** -/
theorem sum_futureValue (hrpc : Transport rpc) (hn : 1 ≤ n.toInt) :
    ((∑ i ∈ Finset.range n.toInt.toNat, futureValue rpc n serverCount i : Nat) : Int) =
      (((List.range n.toInt.toNat).filterMap (taskCall rpc n serverCount)).map
        TaskResult.solutions).sum := by
  rw [sum_filterMap, ← sum_range_map]
  congr 1
  refine List.map_congr_left fun i hi => ?_
  rw [List.mem_range] at hi
  exact futureValue_reply hrpc hn (by omega)

/-- Where the local total is an `int`, no counter overflows. -/
theorem int_counts (hn : 1 ≤ n.toInt)
    (hfit : ((∑ i ∈ Finset.range n.toInt.toNat, taskCount n.toInt.toNat i : Nat) : Int) < 2 ^ 31) :
    LocalNQueenSolver.solve intInc n = LocalNQueenSolver.solve exactInc n ∧
    ∀ i : Nat, i < n.toInt → NQueenServiceImpl.solveRequest intInc (taskRequest n i) =
      NQueenServiceImpl.solveRequest exactInc (taskRequest n i) := by
  constructor
  · rw [local_solve_tasks hn, local_solve_bump (by omega), leaves_first_row (by omega),
      bump_intInc _ (by decide), Int.zero_add]
    exact if_pos hfit
  · intro i hi
    have hle : taskCount n.toInt.toNat i ≤
        ∑ j ∈ Finset.range n.toInt.toNat, taskCount n.toInt.toNat j :=
      Finset.single_le_sum (fun j _ => Nat.zero_le _) (Finset.mem_range.mpr (by omega))
    have hcount : ((taskCount n.toInt.toNat i : Nat) : Int) < 2 ^ 31 := by omega
    rw [solveRequest_task hn hi, solveRequest_task_bump hn hi, bump_intInc _ (by decide),
      Int.zero_add, if_pos hcount]
    rfl

/-- **What the comparison tells**: whatever calls fail, the distributed total is the sum of the
replies that came back and not above the local one, and `main` reports success exactly if every task
whose call failed has no solution. These are the numbers of the `int`s where the local total is
one. -/
theorem verification_iff (hrpc : Transport rpc) (hn : 1 ≤ n.toInt)
    (hservers : 1 ≤ serverCount.toInt) (hports : PortsFit n serverCount) :
    ∃ distributed total : Int,
      distributeTasks rpc n serverCount = .ok distributed ∧
      LocalNQueenSolver.solve exactInc n = .ok total ∧
      distributed = (((List.range n.toInt.toNat).filterMap (taskCall rpc n serverCount)).map
        TaskResult.solutions).sum ∧
      distributed ≤ total ∧
      verification rpc n serverCount = .ok (distributed == total) ∧
      (distributed = total ↔ ∀ i : Nat, i < n.toInt → taskCall rpc n serverCount i = none →
        NQueenServiceImpl.solveRequest exactInc (taskRequest n i) = .ok ⟨0⟩) ∧
      (total < 2 ^ 31 → LocalNQueenSolver.solve intInc n = .ok total ∧
        ∀ i : Nat, i < n.toInt → NQueenServiceImpl.solveRequest intInc (taskRequest n i) =
          NQueenServiceImpl.solveRequest exactInc (taskRequest n i)) := by
  refine ⟨_, _, distributeTasks_eq hrpc hn hservers hports, local_solve_tasks hn,
    sum_futureValue hrpc hn, ?_, ?_, ?_, fun hfit => ?_⟩
  · exact_mod_cast Finset.sum_le_sum fun i _ => futureValue_le i
  · simp only [verification, distributeTasks_eq hrpc hn hservers hports, local_solve_tasks hn, bind,
      Except.bind]
    rfl
  · rw [Nat.cast_inj, Finset.sum_eq_sum_iff_of_le fun i _ => futureValue_le i]
    refine forall_congr' fun i => ?_
    rw [Finset.mem_range, futureValue_eq_iff]
    constructor
    · intro h hi hnone
      rw [solveRequest_task hn hi, h (by omega) hnone]
      rfl
    · intro h hi hnone
      have hzero := h (by omega) hnone
      rw [solveRequest_task hn (by omega)] at hzero
      have hcount : (taskCount n.toInt.toNat i : Int) = 0 :=
        congrArg TaskResult.solutions (Except.ok.inj hzero)
      exact_mod_cast hcount
  · obtain ⟨hlocal, hreplies⟩ := int_counts hn hfit
    exact ⟨hlocal.trans (local_solve_tasks hn), hreplies⟩

/-- Servers that do not answer the calls for the two corners. -/
def cornersFail (i : Nat) (address : Address) (request : TaskRequest) : Option TaskResult :=
  if i = 0 ∨ i = 3 then none else answering i address request

theorem transport_cornersFail : Transport cornersFail where
  port i address request reply h := by
    unfold cornersFail at h
    split_ifs at h
    exact transport_answering.port i address request reply h
  reply i address request reply h := by
    unfold cornersFail at h
    split_ifs at h
    exact transport_answering.reply i address request reply h

/-- With four queens nothing is missed when both corners fail: what came back is 1 and 1. -/
theorem verification_iff_four :
    verification cornersFail 4 2 = .ok true ∧ distributeTasks cornersFail 4 2 = .ok (1 + 1) ∧
      LocalNQueenSolver.solve intInc 4 = .ok 2 := by
  have hports : PortsFit 4 2 := fun i _ => by
    have htwo : (2 : Int32).toInt = 2 := rfl
    have hlt := Int.tmod_lt_of_pos (i : Int) (by omega : (0 : Int) < (2 : Int32).toInt)
    omega
  obtain ⟨distributed, total, hdistributed, hlocal, hsum, -, hresult, hiff, hint⟩ :=
    verification_iff transport_cornersFail (by decide : 1 ≤ (4 : Int32).toInt)
      (by decide : 1 ≤ (2 : Int32).toInt) hports
  have hreplies : ((List.range (4 : Int32).toInt.toNat).filterMap (taskCall cornersFail 4 2)) =
      [⟨1⟩, ⟨1⟩] := by decide
  rw [hreplies] at hsum
  have heq : distributed = total := by
    refine hiff.mpr fun i hi hnone => ?_
    have h4 : (4 : Int32).toInt = 4 := rfl
    obtain rfl | rfl | rfl | rfl : i = 0 ∨ i = 1 ∨ i = 2 ∨ i = 3 := by omega
    · rfl
    · exact absurd hnone (by decide)
    · exact absurd hnone (by decide)
    · rfl
  subst hsum heq
  exact ⟨hresult, hdistributed, (hint (by decide)).1⟩

end AsioLearn.NQueen
