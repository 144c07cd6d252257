import AsioLearn.Lib.Lts
import AsioLearn.Lib.RoundRobin

/-!
# The pool of contexts of both servers (`AsioServicePool.cc`)

`GetIOService` hands out the contexts by an index. `logicServer` counts the index up with each call
and sets it back to 0 at the end of the vector; `BoostCoServer` has the test for the end and does
not count. `StartAccept` of `CServer` makes the session of the next connection on the context it is
given, and `HandleAccept` calls it again after each completion.

* A context is its number in the vector. The work objects and the threads of the pool play no part
  in handing them out.
* The index is at most the size of the vector, so counting it up does not wrap.
* `operator[]` outside the vector is undefined behaviour: there is no next state.
* `sessions` and `connected` record the run of `CServer`: the contexts of the sessions made, the
  last of which waits for its connection, and of those whose accept has succeeded.

Results:
* `calls_eq`, `accepts_eq`: what any number of calls and of completions lead to, for a pool whose
  `k`-th call hands out `f k` (`Hands`).
* `round_robin_iff`: `logicServer` serves the contexts in turn and spreads its sessions evenly;
  `BoostCoServer` does in a pool of one context, or up to its first call.
-/

namespace AsioLearn

open Lib.Lts Lib.RoundRobin

/-- `AsioServicePool`: its contexts, and the index of the one handed out next. -/
structure AsioServicePool where
  ioServices : List Nat
  nextIOService : Nat
  deriving DecidableEq, Repr

/-- `AsioServicePool::AsioServicePool(size)`. -/
def AsioServicePool.new (size : Nat) : AsioServicePool := ⟨List.range size, 0⟩

/-- `AsioServicePool::GetIOService` of `logicServer`. -/
def LogicServer.getIOService (pool : AsioServicePool) : Option (Nat × AsioServicePool) :=
  match pool.ioServices[pool.nextIOService]? with
  | none => none
  | some service =>
    let nextIOService := pool.nextIOService + 1
    if nextIOService = pool.ioServices.length then some (service, { pool with nextIOService := 0 })
    else some (service, { pool with nextIOService })

/-- `AsioServicePool::GetIOService` of `BoostCoServer`. -/
def BoostCoServer.getIOService (pool : AsioServicePool) : Option (Nat × AsioServicePool) :=
  match pool.ioServices[pool.nextIOService]? with
  | none => none
  | some service =>
    if pool.nextIOService = pool.ioServices.length then
      some (service, { pool with nextIOService := 0 })
    else some (service, pool)

/-- `k` calls of `GetIOService`, in the order of their results. -/
def AsioServicePool.calls (getIOService : AsioServicePool → Option (Nat × AsioServicePool)) :
    Nat → AsioServicePool → Option (List Nat × AsioServicePool)
  | 0, pool => some ([], pool)
  | k + 1, pool => do
    let (services, pool) ← calls getIOService k pool
    let (service, pool) ← getIOService pool
    return (services ++ [service], pool)

/-- The accepting side of `CServer`. -/
structure Acceptor where
  pool : AsioServicePool
  sessions : List Nat
  connected : List Nat
  deriving DecidableEq, Repr

/-- `CServer::StartAccept`. -/
def Acceptor.startAccept (getIOService : AsioServicePool → Option (Nat × AsioServicePool))
    (s : Acceptor) : Option Acceptor := do
  let (ioContext, pool) ← getIOService s.pool
  return { s with pool, sessions := s.sessions ++ [ioContext] }

/-- `CServer::HandleAccept`. -/
def Acceptor.handleAccept (getIOService : AsioServicePool → Option (Nat × AsioServicePool))
    (s : Acceptor) (error : Bool) : Option Acceptor :=
  let s := if error then s
    else { s with connected := s.connected ++ s.sessions.getLast?.toList }
  s.startAccept getIOService

/-- The constructor of `CServer`, and the completions of its accepts. -/
def Acceptor.accepts (getIOService : AsioServicePool → Option (Nat × AsioServicePool))
    (size : Nat) (completions : List Bool) : Option Acceptor := do
  let s ← Acceptor.startAccept getIOService ⟨.new size, [], []⟩
  run (Acceptor.handleAccept getIOService) s completions

/-! ## What is asked of the pool -/

variable {getIOService : AsioServicePool → Option (Nat × AsioServicePool)} {n : Nat}

/-- `k` calls hand out the contexts in turn and evenly, and leave an index in range. -/
def ServesInTurn (getIOService : AsioServicePool → Option (Nat × AsioServicePool)) (n k : Nat) :
    Prop :=
  ∃ services pool, AsioServicePool.calls getIOService k (.new n) = some (services, pool) ∧
    services = turns n k ∧ pool.nextIOService < n ∧ Balanced n services

/-- The sessions made are spread evenly, and so are those connected if no accept has failed. -/
def SpreadsSessions (getIOService : AsioServicePool → Option (Nat × AsioServicePool)) (n : Nat)
    (completions : List Bool) : Prop :=
  ∃ s, Acceptor.accepts getIOService n completions = some s ∧ Balanced n s.sessions ∧
    ((∀ error ∈ completions, error = false) → Balanced n s.connected)

/-! ## Any number of calls -/

/-- In a pool of `n` contexts the `k`-th call hands out context `f k`, by that index. -/
structure Hands (getIOService : AsioServicePool → Option (Nat × AsioServicePool)) (n : Nat)
    (f : Nat → Nat) : Prop where
  start : f 0 = 0
  call : ∀ k, getIOService ⟨List.range n, f k⟩ = some (f k, ⟨List.range n, f (k + 1)⟩)

theorem map_range_succ (f : Nat → Nat) (k : Nat) :
    (List.range (k + 1)).map f = (List.range k).map f ++ [f k] := by
  rw [List.range_succ, List.map_append]
  rfl

theorem calls_eq {f : Nat → Nat} (hf : Hands getIOService n f) (k : Nat) :
    AsioServicePool.calls getIOService k (.new n) =
      some ((List.range k).map f, ⟨List.range n, f k⟩) := by
  induction k with
  | zero =>
    unfold AsioServicePool.calls AsioServicePool.new
    rw [hf.start]
    rfl
  | succ k ih =>
    unfold AsioServicePool.calls
    rw [ih]
    simp only [Option.bind_eq_bind, Option.bind_some, hf.call k, map_range_succ]
    rfl

/-- One more completion: the session that was waiting is connected, if the accept has succeeded,
and another is made. -/
theorem handleAccept_eq {f : Nat → Nat} (hf : Hands getIOService n f) (k : Nat)
    (connected : List Nat) (error : Bool) :
    Acceptor.handleAccept getIOService
        ⟨⟨List.range n, f (k + 1)⟩, (List.range (k + 1)).map f, connected⟩ error =
      some ⟨⟨List.range n, f (k + 2)⟩, (List.range (k + 2)).map f,
        if error then connected else connected ++ [f k]⟩ := by
  have hlast : ((List.range (k + 1)).map f).getLast? = some (f k) := by
    rw [map_range_succ, List.getLast?_concat]
  cases error with
  | true =>
    simp only [Acceptor.handleAccept, Acceptor.startAccept, if_true, Option.bind_eq_bind, hf.call,
      Option.bind_some, map_range_succ f (k + 1)]
    rfl
  | false =>
    simp only [Acceptor.handleAccept, Acceptor.startAccept, Bool.false_eq_true, if_false,
      Option.bind_eq_bind, hf.call, Option.bind_some, hlast, Option.toList_some,
      map_range_succ f (k + 1)]
    rfl

theorem accepts_snoc (completions : List Bool) (error : Bool) :
    Acceptor.accepts getIOService n (completions ++ [error]) =
      (Acceptor.accepts getIOService n completions).bind
        (Acceptor.handleAccept getIOService · error) := by
  unfold Acceptor.accepts
  simp only [Option.bind_eq_bind, Option.bind_assoc, run_append, run_cons, run_nil,
    Option.bind_fun_some]

theorem accepts_eq {f : Nat → Nat} (hf : Hands getIOService n f) (completions : List Bool) :
    ∃ connected, Acceptor.accepts getIOService n completions =
        some ⟨⟨List.range n, f (completions.length + 1)⟩,
          (List.range (completions.length + 1)).map f, connected⟩ ∧
      ((∀ error ∈ completions, error = false) →
        connected = (List.range completions.length).map f) := by
  induction completions using List.reverseRecOn with
  | nil =>
    refine ⟨[], ?_, fun _ => rfl⟩
    have hcall := hf.call 0
    rw [hf.start] at hcall
    simp only [Acceptor.accepts, Acceptor.startAccept, AsioServicePool.new, Option.bind_eq_bind,
      hcall, Option.bind_some, run_nil]
    simp [hf.start]
  | append_singleton completions error ih =>
    obtain ⟨connected, haccepts, hconnected⟩ := ih
    rw [accepts_snoc, haccepts, Option.bind_some, handleAccept_eq hf, List.length_append,
      List.length_singleton]
    refine ⟨_, rfl, ?_⟩
    intro hall
    obtain rfl : error = false := hall error (by simp)
    rw [hconnected fun e he => hall e (List.mem_append_left _ he), map_range_succ]
    rfl

/-- `logicServer` counts the index up and sets it back. -/
theorem LogicServer.hands (hn : 1 ≤ n) : Hands LogicServer.getIOService n (· % n) where
  start := Nat.zero_mod n
  call k := by
    have hlt : k % n < n := Nat.mod_lt k hn
    have hget : (List.range n)[k % n]? = some (k % n) := List.getElem?_range hlt
    unfold LogicServer.getIOService
    simp only [hget, List.length_range, ← next_turn hn k]
    split_ifs <;> rfl

/-- `BoostCoServer` leaves it where it is. -/
theorem BoostCoServer.hands (hn : 1 ≤ n) : Hands BoostCoServer.getIOService n fun _ => 0 where
  start := rfl
  call _ := by
    have hget : (List.range n)[0]? = some 0 := List.getElem?_range hn
    unfold BoostCoServer.getIOService
    simp only [hget, List.length_range]
    rw [if_neg (by omega)]

/-! ## Both servers -/

/-- The pool serves in turn what it hands out in turn. -/
theorem servesInTurn_iff {f : Nat → Nat} (hf : Hands getIOService n f) (hn : 1 ≤ n) (k : Nat)
    (hlt : f k < n) : ServesInTurn getIOService n k ↔ (List.range k).map f = turns n k := by
  unfold ServesInTurn
  rw [calls_eq hf k]
  constructor
  · rintro ⟨services, pool, h, rfl, -⟩
    exact congrArg Prod.fst (Option.some.inj h)
  · intro h
    refine ⟨_, _, rfl, h, hlt, ?_⟩
    rw [h]
    exact balanced_turns hn k

theorem spreadsSessions_iff {f : Nat → Nat} (hf : Hands getIOService n f)
    (completions : List Bool) :
    SpreadsSessions getIOService n completions ↔
      Balanced n ((List.range (completions.length + 1)).map f) ∧
        ((∀ error ∈ completions, error = false) →
          Balanced n ((List.range completions.length).map f)) := by
  obtain ⟨connected, haccepts, hconnected⟩ := accepts_eq hf completions
  unfold SpreadsSessions
  rw [haccepts]
  constructor
  · rintro ⟨s, hs, hsessions, hconn⟩
    obtain rfl := Option.some.inj hs
    exact ⟨hsessions, fun hall => hconnected hall ▸ hconn hall⟩
  · rintro ⟨hsessions, hconn⟩
    exact ⟨_, rfl, hsessions, fun hall => (hconnected hall).symm ▸ hconn hall⟩

/-- **When the pools rotate**: that of `logicServer` for every size, any number of calls and any
connections; that of `BoostCoServer` if it has one context, or up to its first call. -/
theorem round_robin_iff (hn : 1 ≤ n) (k : Nat) (completions : List Bool) :
    (ServesInTurn LogicServer.getIOService n k ∧
      SpreadsSessions LogicServer.getIOService n completions) ∧
    (ServesInTurn BoostCoServer.getIOService n k ↔ n = 1 ∨ k ≤ 1) ∧
    (SpreadsSessions BoostCoServer.getIOService n completions ↔ n = 1 ∨ completions = []) := by
  have hzero : ∀ m, (List.range m).map (fun _ => 0) = List.replicate m 0 := by simp
  refine ⟨⟨?_, ?_⟩, ?_, ?_⟩
  · exact (servesInTurn_iff (LogicServer.hands hn) hn k (Nat.mod_lt k hn)).mpr rfl
  · refine (spreadsSessions_iff (LogicServer.hands hn) completions).mpr ⟨?_, fun _ => ?_⟩
    · exact balanced_turns hn _
    · exact balanced_turns hn _
  · rw [servesInTurn_iff (BoostCoServer.hands hn) hn k hn, hzero, eq_comm]
    exact turns_eq_replicate_iff
  · rw [spreadsSessions_iff (BoostCoServer.hands hn), hzero, hzero, balanced_replicate_iff hn,
      balanced_replicate_iff hn, ← List.length_eq_zero_iff]
    constructor
    · rintro ⟨h | h, -⟩
      · exact Or.inl h
      · exact Or.inr (by omega)
    · rintro (h | h)
      · exact ⟨Or.inl h, fun _ => Or.inl h⟩
      · exact ⟨Or.inr (by omega), fun _ => Or.inr (by omega)⟩

/-- Two contexts, three calls, and two connections. -/
theorem round_robin_two :
    (ServesInTurn LogicServer.getIOService 2 3 ∧
      SpreadsSessions LogicServer.getIOService 2 [false, false]) ∧
    (ServesInTurn BoostCoServer.getIOService 2 3 ↔ 2 = 1 ∨ 3 ≤ 1) ∧
    (SpreadsSessions BoostCoServer.getIOService 2 [false, false] ↔
      2 = 1 ∨ [false, false] = []) :=
  round_robin_iff (by decide) 3 [false, false]

/-- In a pool of two contexts `BoostCoServer` hands out the first one twice, and puts both sessions
on it. -/
theorem stuck_at_first :
    (¬ ∀ n k, 1 ≤ n → ServesInTurn BoostCoServer.getIOService n k) ∧
    ¬ ∀ n completions, 1 ≤ n → SpreadsSessions BoostCoServer.getIOService n completions := by
  constructor
  · intro h
    obtain ⟨services, pool, hcalls, hturns, -⟩ := h 2 2 (by decide)
    obtain rfl := congrArg Prod.fst (Option.some.inj hcalls)
    exact absurd hturns (by decide)
  · intro h
    obtain ⟨s, hs, hbalanced, -⟩ := h 2 [false] (by decide)
    obtain rfl := Option.some.inj hs
    exact absurd (hbalanced 0 (by decide) 1 (by decide)) (by decide)

end AsioLearn
