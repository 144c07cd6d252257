import AsioLearn.NQueen.Server

/-!
# The N-queens client

`nqueen_client.cc`: `LocalNQueenSolver` counts the solutions itself, `distribute_tasks` places the
queen of row 0 on every column, asks a server for each of these boards and adds up the replies.

* An RPC is a parameter: what the `i`-th call, to an address, with a request, comes back with
  (`none`: a status that is not OK, for which `NQueenClient::Solve` returns 0).
* The calls run in futures, each of which writes nothing but its own result; the results are added
  in the order of the tasks.

Results:
* `backtrack_eq`: the local search counts the leaves of the tree in which every row is free.
* `leaves_first_row`: that tree is the sum of the trees of the tasks.
* **`distribute_eq_local`**: when every RPC succeeds, the distributed total is the local one.
-/

namespace AsioLearn.NQueen

open Cpp (sizeT sizeT_of_nonneg)
open CppVector Lib.Backtrack

/-! ## The local search -/

/-- `LocalNQueenSolver::isSafe`. -/
def LocalNQueenSolver.isSafe (board : List Int) (row : Nat) (col : Int) : Except Fault Bool :=
  noAttack board row col

/-- `LocalNQueenSolver::backtrack`, `left` being `n_ - row`. -/
def LocalNQueenSolver.backtrack (inc : Int → Except Fault Int) (n : Nat) :
    Nat → List Int → Int → Except Fault (List Int × Int)
  | 0, board, totalSolutions => do
    let totalSolutions ← inc totalSolutions
    return (board, totalSolutions)
  | left + 1, board, totalSolutions =>
    tryColumns n isSafe (backtrack inc n left) board (n - (left + 1)) totalSolutions

/-- `LocalNQueenSolver(n).Solve()`. -/
def LocalNQueenSolver.solve (inc : Int → Except Fault Int) (n : Int32) : Except Fault Int := do
  let board ← vectorResize [] (sizeT n.toInt) (-1)
  let (_, totalSolutions) ← backtrack inc n.toInt.toNat n.toInt.toNat board 0
  return totalSolutions

/-! ## The distributed search -/

/-- A server's address: host and port. -/
structure Address where
  host : String
  port : Int
  deriving DecidableEq

/-- `a % b` on ints. -/
def intMod (a b : Int) : Except Fault Int :=
  if b = 0 then .error .divisionByZero else .ok (a.tmod b)

/-- `"localhost:" + std::to_string(50051 + server_id)`. -/
def serverAddress (serverId : Int) : Except Fault Address :=
  if 50051 + serverId < 2 ^ 31 then .ok ⟨"localhost", 50051 + serverId⟩
  else .error .signedOverflow

/-- `NQueenClient::Solve`. -/
def NQueenClient.solve (rpc : TaskRequest → Option TaskResult) (n : Int32) (board : List Int) :
    Int :=
  match rpc ⟨n, board.map Int32.ofInt⟩ with
  | some reply => reply.solutions
  | none => 0

/-- `std::vector<int> partial(n, -1); partial[0] = col;`. -/
def initialTask (n : Int32) (col : Nat) : Except Fault (List Int) := do
  let board ← vectorResize [] (sizeT n.toInt) (-1)
  vectorSet board 0 col

/-- Round `i` of the loop that dispatches the tasks; the value is what its future will hold. -/
def dispatchTask (rpc : Nat → Address → TaskRequest → Option TaskResult) (n serverCount : Int32)
    (task : List Int) (i : Nat) : Except Fault Int := do
  let serverId ← intMod i serverCount.toInt
  let address ← serverAddress serverId
  return NQueenClient.solve (rpc i address) n task

/-- `distribute_tasks`; the value is `distributed_solutions`. -/
def distributeTasks (rpc : Nat → Address → TaskRequest → Option TaskResult)
    (n serverCount : Int32) : Except Fault Int := do
  let initialTasks ← (List.range n.toInt.toNat).mapM (initialTask n)
  let futures ← initialTasks.zipIdx.mapM fun x => dispatchTask rpc n serverCount x.1 x.2
  return futures.sum

/-! ## What the local search counts -/

theorem backtrack_eq {inc : Int → Except Fault Int} {n : Nat} (hn : n < 2 ^ 31) {left : Nat}
    {p : List Int} (hlen : p.length + left = n) (hp : ∀ q ∈ p, Column n q) (s : Int) :
    LocalNQueenSolver.backtrack inc n left (p ++ List.replicate left (-1)) s =
      (bump inc (leaves (choices fun _ => columns n) left p) s).map
        (p ++ List.replicate left (-1), ·) := by
  induction left generalizing p s with
  | zero =>
    simp only [LocalNQueenSolver.backtrack, leaves, bump_one]
    cases inc s <;> rfl
  | succ left ih =>
    have hrow : n - (left + 1) = p.length := by omega
    have hnext : ∀ c, Column n c → ∀ s,
        LocalNQueenSolver.backtrack inc n left (p ++ c :: List.replicate left (-1)) s =
          (bump inc (leaves (choices fun _ => columns n) left (p ++ [c])) s).map
            (p ++ c :: List.replicate left (-1), ·) := by
      intro c hc s
      rw [List.append_cons]
      exact ih (by simp only [List.length_append, List.length_singleton]; omega)
        (forall_column_append hp hc) s
    simp only [LocalNQueenSolver.backtrack, hrow, List.replicate_succ]
    rw [@leaves_filter _ (choices fun _ => columns n) p _ _ rfl]
    exact tryColumns_eq (fun c hc => noAttack_eq hn hp hc (by omega)) (fun c hc _ => hnext c hc) s

/-- What the local search returns, whatever its counter is. -/
theorem local_solve_bump {inc : Int → Except Fault Int} {n : Int32} (hn : 0 ≤ n.toInt) :
    LocalNQueenSolver.solve inc n =
      bump inc (leaves (choices fun _ => columns n.toInt.toNat) n.toInt.toNat []) 0 := by
  have hlt : n.toInt < 2 ^ 31 := n.toInt_lt
  have hsearch := @backtrack_eq inc n.toInt.toNat (by omega) n.toInt.toNat []
    (Nat.zero_add _) (List.forall_mem_nil _) 0
  simp only [List.nil_append] at hsearch
  have hboard : vectorResize [] (sizeT n.toInt) (-1) =
      .ok (List.replicate n.toInt.toNat (-1)) := by
    rw [sizeT_of_nonneg hn (by omega), vectorResize_ok (Nat.zero_le _) (by omega)]
    rfl
  simp only [LocalNQueenSolver.solve, hboard, bind, Except.bind, hsearch]
  cases bump inc (leaves (choices fun _ => columns n.toInt.toNat) n.toInt.toNat []) 0 <;> rfl

theorem local_solve_eq {n : Int32} (hn : 0 ≤ n.toInt) :
    LocalNQueenSolver.solve exactInc n =
      .ok (leaves (choices fun _ => columns n.toInt.toNat) n.toInt.toNat []) := by
  rw [local_solve_bump hn, bump_exactInc, Int.zero_add]

/-! ## What the tasks count -/

/-- The board of task `col`: column `col` in row 0, the other rows free. -/
def taskBoard (n : Nat) (col : Nat) : List Int := (col : Int) :: List.replicate (n - 1) (-1)

/-- The request made for it. -/
def taskRequest (n : Int32) (col : Nat) : TaskRequest :=
  ⟨n, (taskBoard n.toInt.toNat col).map Int32.ofInt⟩

/-- The number of completions of that board the service's search reaches. -/
def taskCount (n : Nat) (col : Nat) : Nat :=
  leaves (choices (rowCandidates n (taskBoard n col))) n []

theorem initialTask_eq {n : Int32} (hn : 1 ≤ n.toInt) (col : Nat) :
    initialTask n col = .ok (taskBoard n.toInt.toNat col) := by
  have hlt : n.toInt < 2 ^ 31 := n.toInt_lt
  obtain ⟨m, hm⟩ : ∃ m, n.toInt.toNat = m + 1 := ⟨n.toInt.toNat - 1, by omega⟩
  have hsize : sizeT n.toInt = m + 1 := by
    rw [sizeT_of_nonneg (by omega) (by omega), hm]
  simp only [initialTask, hsize, hm]
  rw [vectorResize_ok (Nat.zero_le _) (by omega)]
  rfl

/-- The columns are ints, so the request carries the task's board unchanged. -/
theorem taskRequest_padded {n : Int32} (hn : 1 ≤ n.toInt) {col : Nat} (hcol : col < n.toInt) :
    (taskRequest n col).padded = taskBoard n.toInt.toNat col := by
  have hlt : n.toInt < 2 ^ 31 := n.toInt_lt
  have hc : (Int32.ofInt col).toInt = col := Int32.toInt_ofInt_of_le (by omega) (by omega)
  have hneg : (Int32.ofInt (-1)).toInt = -1 := rfl
  simp only [TaskRequest.padded, taskRequest, taskBoard, List.map_cons, List.map_replicate, hc,
    hneg, List.length_cons, List.length_replicate]
  rw [show n.toInt.toNat - (n.toInt.toNat - 1 + 1) = 0 by omega, List.replicate_zero,
    List.append_nil]

/-- The candidates of a row of a task's board. -/
theorem rowCandidates_task {n row col : Nat} (hrow : row < n) :
    rowCandidates n (taskBoard n col) row = if row = 0 then [(col : Int)] else columns n := by
  cases row with
  | zero => simp [rowCandidates, taskBoard]
  | succ row => simp [rowCandidates, taskBoard, show row < n - 1 by omega]

/-- What `Solve` replies to task `col`, whatever its counter is. -/
theorem solveRequest_task_bump {inc : Int → Except Fault Int} {n : Int32} (hn : 1 ≤ n.toInt)
    {col : Nat} (hcol : col < n.toInt) :
    NQueenServiceImpl.solveRequest inc (taskRequest n col) =
      (bump inc (taskCount n.toInt.toNat col) 0).map TaskResult.mk := by
  have hc : Column n.toInt.toNat col := column_of_lt (by omega)
  have hentries : Entries n.toInt.toNat (taskRequest n col).padded := by
    rw [taskRequest_padded hn hcol]
    intro row hrow
    cases row with
    | zero => exact ⟨col, rfl, Or.inr hc⟩
    | succ row =>
      refine ⟨-1, ?_, Or.inl rfl⟩
      rw [taskBoard, List.getElem?_cons_succ, List.getElem?_replicate_of_lt (by omega)]
  have h := @solveRequest_eq inc (taskRequest n col) (Int.le_trans (by decide) hn) hentries
  rw [taskRequest_padded hn hcol] at h
  exact h

/-- What `Solve` replies to task `col`, its count an exact integer. -/
theorem solveRequest_task {n : Int32} (hn : 1 ≤ n.toInt) {col : Nat} (hcol : col < n.toInt) :
    NQueenServiceImpl.solveRequest exactInc (taskRequest n col) =
      .ok ⟨taskCount n.toInt.toNat col⟩ := by
  rw [solveRequest_task_bump hn hcol, bump_exactInc, Int.zero_add]
  rfl

/-- **The first row splits the search**: the search with every row free is the sum of those with
the queen of row 0 placed. -/
theorem leaves_first_row {n : Nat} (hn : 0 < n) :
    leaves (choices fun _ => columns n) n [] = ((List.range n).map (taskCount n)).sum := by
  obtain ⟨m, rfl⟩ : ∃ m, n = m + 1 := ⟨n - 1, by omega⟩
  have hsafe : ∀ c, Safe [] c := fun c i hi => absurd hi (Nat.not_lt_zero i)
  have hfree : choices (fun _ => columns (m + 1)) [] = columns (m + 1) := by
    simp [choices, hsafe]
  have hsplit : leaves (choices fun _ => columns (m + 1)) (m + 1) [] =
      ((List.range (m + 1)).map fun col : Nat =>
        leaves (choices fun _ => columns (m + 1)) m [(col : Int)]).sum := by
    rw [leaves, hfree]
    simp only [columns, List.map_map, List.nil_append]
    rfl
  rw [hsplit]
  congr 1
  refine List.map_congr_left fun col _ => ?_
  have hplaced : choices (rowCandidates (m + 1) (taskBoard (m + 1) col)) [] = [(col : Int)] := by
    have hcand := @rowCandidates_task (m + 1) 0 col (Nat.succ_pos m)
    simp only [if_true] at hcand
    simp [choices, hcand, hsafe]
  rw [taskCount, leaves, hplaced, List.map_singleton, List.sum_singleton]
  -- below row 0 every row of the task's board is free
  refine leaves_congr fun r hr => ?_
  have hcand := @rowCandidates_task (m + 1) (r.length + 1) col (by omega)
  simp only [Nat.succ_ne_zero, if_false] at hcand
  simp [choices, hcand]

/-! ## Distributed and local -/

/-- A loop of calls each of which goes through. -/
theorem mapM_eq_map {α β : Type} {f : α → Except Fault β} {g : α → β} :
    ∀ {l : List α}, (∀ a ∈ l, f a = .ok (g a)) → l.mapM f = .ok (l.map g)
  | [], _ => rfl
  | a :: l, h => by
    rw [List.mapM_cons, h a List.mem_cons_self,
      mapM_eq_map fun b hb => h b (List.mem_cons_of_mem a hb)]
    rfl

/-- What a successful call stands for: it went to a port that exists and brings back what the
service replied. -/
structure Transport (rpc : Nat → Address → TaskRequest → Option TaskResult) : Prop where
  port : ∀ i address request reply, rpc i address request = some reply → address.port < 2 ^ 16
  reply : ∀ i address request reply, rpc i address request = some reply →
    NQueenServiceImpl.solveRequest exactInc request = .ok reply

/-- The call made for task `i`. -/
def taskCall (rpc : Nat → Address → TaskRequest → Option TaskResult) (n serverCount : Int32)
    (i : Nat) : Option TaskResult :=
  rpc i ⟨"localhost", 50051 + (i : Int).tmod serverCount.toInt⟩ (taskRequest n i)

theorem dispatchTask_eq {rpc : Nat → Address → TaskRequest → Option TaskResult}
    (hrpc : Transport rpc) {n serverCount : Int32} (hn : 1 ≤ n.toInt)
    (hservers : 1 ≤ serverCount.toInt) {i : Nat} (hi : i < n.toInt)
    (hok : (taskCall rpc n serverCount i).isSome) :
    dispatchTask rpc n serverCount (taskBoard n.toInt.toNat i) i =
      .ok (taskCount n.toInt.toNat i) := by
  obtain ⟨reply, hreply⟩ := Option.isSome_iff_exists.mp hok
  have hport := hrpc.port _ _ _ _ hreply
  have hserved := hrpc.reply _ _ _ _ hreply
  rw [solveRequest_task hn hi] at hserved
  obtain rfl := Except.ok.inj hserved
  have hmod : intMod i serverCount.toInt = .ok ((i : Int).tmod serverCount.toInt) :=
    if_neg (by omega)
  have haddress : serverAddress ((i : Int).tmod serverCount.toInt) =
      .ok ⟨"localhost", 50051 + (i : Int).tmod serverCount.toInt⟩ :=
    if_pos (by simp only at hport; omega)
  simp only [dispatchTask, hmod, haddress, bind, Except.bind]
  have hsolve : NQueenClient.solve (rpc i ⟨"localhost", 50051 + (i : Int).tmod serverCount.toInt⟩)
      n (taskBoard n.toInt.toNat i) = taskCount n.toInt.toNat i := by
    unfold taskCall taskRequest at hreply
    simp only [NQueenClient.solve, hreply]
  rw [hsolve]
  rfl

/-- **Distributed equals local.** When every RPC succeeds, `distribute_tasks` accumulates the sum
over the `n` tasks of the counts of `NQueenServiceImpl::Solve`, and that is what
`LocalNQueenSolver(n).Solve()` returns. -/
theorem distribute_eq_local {rpc : Nat → Address → TaskRequest → Option TaskResult}
    (hrpc : Transport rpc) {n serverCount : Int32} (hn : 1 ≤ n.toInt)
    (hservers : 1 ≤ serverCount.toInt)
    (hok : ∀ i : Nat, i < n.toInt → (taskCall rpc n serverCount i).isSome) :
    ∃ counts : Nat → Int,
      (∀ i : Nat, i < n.toInt →
        NQueenServiceImpl.solveRequest exactInc (taskRequest n i) = .ok ⟨counts i⟩) ∧
      distributeTasks rpc n serverCount = .ok ((List.range n.toInt.toNat).map counts).sum ∧
      LocalNQueenSolver.solve exactInc n = .ok ((List.range n.toInt.toNat).map counts).sum := by
  refine ⟨fun i => taskCount n.toInt.toNat i, fun i hi => solveRequest_task hn hi, ?_, ?_⟩
  · have htasks : (List.range n.toInt.toNat).mapM (initialTask n) =
        .ok ((List.range n.toInt.toNat).map (taskBoard n.toInt.toNat)) :=
      mapM_eq_map fun col _ => initialTask_eq hn col
    have hround : ∀ x ∈ ((List.range n.toInt.toNat).map (taskBoard n.toInt.toNat)).zipIdx,
        dispatchTask rpc n serverCount x.1 x.2 = .ok (taskCount n.toInt.toNat x.2 : Int) := by
      rintro ⟨board, i⟩ hx
      obtain ⟨hi, rfl⟩ : i < n.toInt.toNat ∧ taskBoard n.toInt.toNat i = board := by
        rw [List.mk_mem_zipIdx_iff_getElem?, List.getElem?_map] at hx
        obtain ⟨j, hj, rfl⟩ := Option.map_eq_some_iff.mp hx
        obtain ⟨hlt, rfl⟩ := List.getElem?_eq_some_iff.mp hj
        rw [List.length_range] at hlt
        exact ⟨hlt, by rw [List.getElem_range]⟩
      exact dispatchTask_eq hrpc hn hservers (by omega) (hok i (by omega))
    have hresults : ((List.range n.toInt.toNat).map (taskBoard n.toInt.toNat)).zipIdx.map
        (fun x => (taskCount n.toInt.toNat x.2 : Int)) =
        (List.range n.toInt.toNat).map fun i => (taskCount n.toInt.toNat i : Int) := by
      have hcomp : (fun x : List Int × Nat => (taskCount n.toInt.toNat x.2 : Int)) =
          (fun i => (taskCount n.toInt.toNat i : Int)) ∘ Prod.snd := rfl
      rw [hcomp, ← List.map_map, List.zipIdx_map_snd, List.length_map, List.length_range,
        ← List.range_eq_range']
    simp only [distributeTasks, htasks, bind, Except.bind, mapM_eq_map hround, hresults]
    rfl
  · rw [local_solve_eq (by omega), leaves_first_row (by omega), Nat.cast_list_sum, List.map_map]
    rfl

/-- Servers that answer on every port. -/
def answering (_ : Nat) (address : Address) (request : TaskRequest) : Option TaskResult :=
  if address.port < 2 ^ 16 then (NQueenServiceImpl.solveRequest exactInc request).toOption else none

theorem transport_answering : Transport answering where
  port i address request reply h := by
    unfold answering at h
    split at h
    · assumption
    · cases h
  reply i address request reply h := by
    unfold answering at h
    split at h
    · cases hs : NQueenServiceImpl.solveRequest exactInc request with
      | error e => rw [hs] at h; cases h
      | ok r => rw [hs] at h; rw [Option.some.inj h]
    · cases h

/-- Four queens, two servers. -/
theorem distribute_eq_local_four : distributeTasks answering 4 2 = .ok 2 ∧
    LocalNQueenSolver.solve exactInc 4 = .ok 2 := by
  have hok : ∀ i : Nat, i < (4 : Int32).toInt → (taskCall answering 4 2 i).isSome
    | 0, _ => by decide
    | 1, _ => by decide
    | 2, _ => by decide
    | 3, _ => by decide
    | i + 4, hi => absurd hi (by
      have h4 : (4 : Int32).toInt = 4 := rfl
      omega)
  obtain ⟨counts, -, hdist, hlocal⟩ :=
    distribute_eq_local transport_answering (by decide) (by decide) hok
  have htotal : LocalNQueenSolver.solve exactInc 4 = .ok 2 := by rfl
  rw [htotal] at hlocal
  rw [← Except.ok.inj hlocal] at hdist
  exact ⟨hdist, htotal⟩

end AsioLearn.NQueen
