import AsioLearn.Lib.Ranking
import Mathlib.Data.Fintype.Basic

/-!
# Stopping the pools (`AsioServicePool.cc` of both servers, `AsioThreadPool.cc`)

The handler of the signals in `main` calls `Stop` of the pool. `logicServer` stops each context and
resets its work, `BoostCoServer` only resets the work; then the threads are joined. A thread of the
pool does nothing but `run` its context.

* A context is what asio documents of it: `run` returns when the context has been stopped, and the
  context stops by itself when it runs out of work, which is its work object, the operations under
  way on it, the handlers that can be called and those that are being called.
* What the operations are plays no part: a read whose client is silent is one that does not
  complete. Other threads may start operations and post handlers at any time, and a handler may have
  started any number of operations when it returns.
* `AsioThreadPool` is a pool of one context that all threads run.

Results:
* `rank_step`, `rank_others`: each step of `Stop` and of the pool's threads takes something off a
  rank, and any other step adds two at most.
* **`LogicServer.stop_returns`**: `Stop` returns within so many steps of its own and of the threads,
  in both pools of `logicServer`.
* **`BoostCoServer.stop_returns_iff`**: the `Stop` of `BoostCoServer` returns exactly if each of its
  contexts runs out of operations at some time.
-/

namespace AsioLearn.PoolShutdown

open AsioLearn.Lib.Lts

/-! ## The pools -/

/-- The threads of a pool, the context each of them runs, and whether `Stop` stops the contexts. -/
structure Kind where
  threads : Nat
  contexts : Nat
  home : Nat → Nat
  stops : Bool
  home_lt : ∀ k < threads, home k < contexts

/-- `AsioServicePool` of `logicServer`. -/
def LogicServer.servicePool (size : Nat) : Kind := ⟨size, size, id, true, fun _ h => h⟩

/-- `AsioThreadPool`. -/
def LogicServer.threadPool (threadNum : Nat) : Kind :=
  ⟨threadNum, 1, fun _ => 0, true, fun _ _ => Nat.one_pos⟩

/-- `AsioServicePool` of `BoostCoServer`. -/
def BoostCoServer.servicePool (threadNum : Nat) : Kind :=
  ⟨threadNum, threadNum, id, false, fun _ h => h⟩

/-- An `io_context`. -/
structure IOContext where
  /-- Its work object. -/
  work : Bool
  stopped : Bool
  /-- The operations under way. -/
  pending : Nat
  /-- The handlers that can be called. -/
  ready : Nat
  deriving DecidableEq, Repr

/-- Where a thread of the pool is. -/
inductive ThreadPc where
  /-- In `run`, between two handlers. -/
  | run
  | handler
  | returned
  deriving DecidableEq, Repr

/-- The next statement of `Stop`. -/
inductive StopPc where
  | idle
  | stop (i : Nat)
  | reset (i : Nat)
  | join (k : Nat)
  | returned
  deriving DecidableEq, Repr

/-- A pool with its threads, and the thread that calls `Stop`. -/
structure Pool where
  contexts : Nat → IOContext
  threads : Nat → ThreadPc
  pc : StopPc

/-- The pool its constructor makes. -/
def Pool.init : Pool := ⟨fun _ => ⟨true, false, 0, 0⟩, fun _ => .run, .idle⟩

inductive Event where
  /-- Another thread starts an operation on a context. -/
  | start (c : Nat)
  /-- Another thread posts a handler to it. -/
  | post (c : Nat)
  /-- An operation completes. -/
  | complete (c : Nat)
  /-- A thread of the pool calls the next handler, or returns from `run`. -/
  | thread (k : Nat)
  /-- The handler it calls returns. -/
  | returns (k started : Nat)
  /-- The next statement of `Stop`. -/
  | stop
  deriving DecidableEq, Repr

/-- Steps of `Stop` and of the pool's threads. -/
def Event.internal : Event → Bool
  | .thread _ | .returns _ _ | .stop => true
  | .start _ | .post _ | .complete _ => false

variable (kind : Kind)

/-- The context has no work object, no operation, and no handler to call or being called. -/
def OutOfWork (s : Pool) (c : Nat) : Prop :=
  (s.contexts c).work = false ∧ (s.contexts c).pending = 0 ∧ (s.contexts c).ready = 0 ∧
    ∀ k < kind.threads, kind.home k = c → s.threads k ≠ .handler

instance (s : Pool) (c : Nat) : Decidable (OutOfWork kind s c) :=
  inferInstanceAs (Decidable (_ ∧ _ ∧ _ ∧ _))

/-- One context changes. -/
def Pool.set (s : Pool) (c : Nat) (x : IOContext) : Pool :=
  { s with contexts := Function.update s.contexts c x }

/-- A context that has run out of work stops. -/
def Pool.settle (s : Pool) (c : Nat) : Pool :=
  if OutOfWork kind s c then s.set c { s.contexts c with stopped := true } else s

/-- The loop of `Stop` over the works, from `i` on. -/
def StopPc.close (i : Nat) : StopPc :=
  if i < kind.contexts then if kind.stops then .stop i else .reset i else .join 0

/-- A thread in `run`. -/
def Pool.runStep (s : Pool) (k : Nat) : Option Pool :=
  let c := kind.home k
  if (s.contexts c).stopped then
    some { s with threads := Function.update s.threads k .returned }
  else if 0 < (s.contexts c).ready then
    some { s.set c { s.contexts c with ready := (s.contexts c).ready - 1 } with
      threads := Function.update s.threads k .handler }
  else none

/-- `Stop`. -/
def Pool.stopStep (s : Pool) : Option Pool :=
  match s.pc with
  | .idle => some { s with pc := .close kind 0 }
  | .stop i => some { s.set i { s.contexts i with stopped := true } with pc := .reset i }
  | .reset i =>
    some { (s.set i { s.contexts i with work := false }).settle kind i with
      pc := .close kind (i + 1) }
  | .join k =>
    if k < kind.threads then
      if s.threads k = .returned then some { s with pc := .join (k + 1) } else none
    else some { s with pc := .returned }
  | .returned => none

def Pool.step (s : Pool) : Event → Option Pool
  | .start c => some (s.set c { s.contexts c with pending := (s.contexts c).pending + 1 })
  | .post c => some (s.set c { s.contexts c with ready := (s.contexts c).ready + 1 })
  | .complete c =>
    if 0 < (s.contexts c).pending then
      some (s.set c { s.contexts c with
        pending := (s.contexts c).pending - 1, ready := (s.contexts c).ready + 1 })
    else none
  | .thread k => if k < kind.threads ∧ s.threads k = .run then s.runStep kind k else none
  | .returns k started =>
    if k < kind.threads ∧ s.threads k = .handler then
      let c := kind.home k
      let s := s.set c { s.contexts c with pending := (s.contexts c).pending + started }
      some ({ s with threads := Function.update s.threads k .run }.settle kind c)
    else none
  | .stop => s.stopStep kind

/-! ## What a step does -/

variable {kind}

/-- What each event does, where it can happen. -/
inductive Moves (kind : Kind) (s : Pool) : Event → Pool → Prop
  | start (c : Nat) : Moves kind s (.start c)
      (s.set c { s.contexts c with pending := (s.contexts c).pending + 1 })
  | post (c : Nat) : Moves kind s (.post c)
      (s.set c { s.contexts c with ready := (s.contexts c).ready + 1 })
  | complete (c : Nat) (h : 0 < (s.contexts c).pending) : Moves kind s (.complete c)
      (s.set c { s.contexts c with
        pending := (s.contexts c).pending - 1, ready := (s.contexts c).ready + 1 })
  | leave (k : Nat) (hk : k < kind.threads) (hpc : s.threads k = .run)
      (hstopped : (s.contexts (kind.home k)).stopped = true) : Moves kind s (.thread k)
      { s with threads := Function.update s.threads k .returned }
  | call (k : Nat) (hk : k < kind.threads) (hpc : s.threads k = .run)
      (hready : 0 < (s.contexts (kind.home k)).ready) : Moves kind s (.thread k)
      { s.set (kind.home k) { s.contexts (kind.home k) with
          ready := (s.contexts (kind.home k)).ready - 1 } with
        threads := Function.update s.threads k .handler }
  | returns (k started : Nat) (hk : k < kind.threads) (hpc : s.threads k = .handler) :
      Moves kind s (.returns k started)
      ({ s.set (kind.home k) { s.contexts (kind.home k) with
            pending := (s.contexts (kind.home k)).pending + started } with
          threads := Function.update s.threads k .run }.settle kind (kind.home k))
  | begin (hpc : s.pc = .idle) : Moves kind s .stop { s with pc := .close kind 0 }
  | stop (i : Nat) (hpc : s.pc = .stop i) : Moves kind s .stop
      { s.set i { s.contexts i with stopped := true } with pc := .reset i }
  | reset (i : Nat) (hpc : s.pc = .reset i) : Moves kind s .stop
      { (s.set i { s.contexts i with work := false }).settle kind i with
        pc := .close kind (i + 1) }
  | join (k : Nat) (hpc : s.pc = .join k) (hk : k < kind.threads)
      (hreturned : s.threads k = .returned) : Moves kind s .stop { s with pc := .join (k + 1) }
  | done (k : Nat) (hpc : s.pc = .join k) (hk : ¬ k < kind.threads) : Moves kind s .stop
      { s with pc := .returned }

theorem step_moves {s t : Pool} {e : Event} (h : s.step kind e = some t) : Moves kind s e t := by
  cases e with
  | start c =>
    obtain rfl := Option.some.inj h
    exact .start c
  | post c =>
    obtain rfl := Option.some.inj h
    exact .post c
  | complete c =>
    simp only [Pool.step] at h
    split_ifs at h with hpending
    obtain rfl := Option.some.inj h
    exact .complete c hpending
  | thread k =>
    simp only [Pool.step, Pool.runStep] at h
    split_ifs at h with hk hstopped hready
    · obtain rfl := Option.some.inj h
      exact .leave k hk.1 hk.2 hstopped
    · obtain rfl := Option.some.inj h
      exact .call k hk.1 hk.2 hready
  | returns k started =>
    simp only [Pool.step] at h
    split_ifs at h with hk
    obtain rfl := Option.some.inj h
    exact .returns k started hk.1 hk.2
  | stop =>
    simp only [Pool.step, Pool.stopStep] at h
    split at h
    · rename_i hpc
      obtain rfl := Option.some.inj h
      exact .begin hpc
    · rename_i i hpc
      obtain rfl := Option.some.inj h
      exact .stop i hpc
    · rename_i i hpc
      obtain rfl := Option.some.inj h
      exact .reset i hpc
    · rename_i k hpc
      split_ifs at h with hk hreturned
      · obtain rfl := Option.some.inj h
        exact .join k hpc hk hreturned
      · obtain rfl := Option.some.inj h
        exact .done k hpc hk
    · cases h

@[simp]
theorem set_self (s : Pool) (c : Nat) (x : IOContext) : (s.set c x).contexts c = x :=
  Function.update_self ..

theorem set_of_ne {s : Pool} {c d : Nat} {x : IOContext} (h : d ≠ c) :
    (s.set c x).contexts d = s.contexts d :=
  Function.update_of_ne h ..

theorem settle_eq (s : Pool) (c : Nat) : s.settle kind c = s.set c { s.contexts c with
    stopped := (s.contexts c).stopped || decide (OutOfWork kind s c) } := by
  unfold Pool.settle
  split
  · rename_i h
    simp [h]
  · rename_i h
    simp [h, Pool.set]

theorem set_set (s : Pool) (c : Nat) (x y : IOContext) (threads : Nat → ThreadPc) :
    ({ s.set c x with threads } : Pool).set c y = { s.set c y with threads } := by
  simp [Pool.set]

@[simp]
theorem settle_threads (s : Pool) (c : Nat) : (s.settle kind c).threads = s.threads := by
  rw [settle_eq]
  rfl

@[simp]
theorem settle_pc (s : Pool) (c : Nat) : (s.settle kind c).pc = s.pc := by
  rw [settle_eq]
  rfl

@[simp]
theorem settle_ready (s : Pool) (c d : Nat) :
    ((s.settle kind c).contexts d).ready = (s.contexts d).ready := by
  rw [settle_eq]
  by_cases h : d = c
  · rw [h, set_self]
  · rw [set_of_ne h]

/-! ## Steps come to an end -/

/-- The steps of a thread without new handlers. -/
def ThreadPc.work : ThreadPc → Nat
  | .returned => 0
  | .run => 1
  | .handler => 2

/-- The steps of `Stop`. -/
def StopPc.work (kind : Kind) : StopPc → Nat
  | .idle => 2 * kind.contexts + kind.threads + 3
  | .stop i => 2 * (kind.contexts - i) + kind.threads + 2
  | .reset i => 2 * (kind.contexts - i) + kind.threads + 1
  | .join k => kind.threads - k + 1
  | .returned => 0

/-- The steps that are left, if no other thread does anything. -/
def Pool.rank (kind : Kind) (s : Pool) : Nat :=
  2 * ∑ c ∈ Finset.range kind.contexts, (s.contexts c).ready +
    ∑ k ∈ Finset.range kind.threads, (s.threads k).work + s.pc.work kind

theorem sum_set (s : Pool) {c : Nat} (x : IOContext) (hc : c < kind.contexts) :
    (∑ d ∈ Finset.range kind.contexts, ((s.set c x).contexts d).ready) + (s.contexts c).ready =
      (∑ d ∈ Finset.range kind.contexts, (s.contexts d).ready) + x.ready :=
  sum_range_update IOContext.ready s.contexts x hc

theorem sum_update (s : Pool) {k : Nat} (pc : ThreadPc) (hk : k < kind.threads) :
    (∑ j ∈ Finset.range kind.threads, (Function.update s.threads k pc j).work)
        + (s.threads k).work =
      (∑ j ∈ Finset.range kind.threads, (s.threads j).work) + pc.work :=
  sum_range_update ThreadPc.work s.threads pc hk

theorem close_work {i : Nat} (hi : i ≤ kind.contexts) :
    (StopPc.close kind i).work kind ≤ 2 * (kind.contexts - i) + kind.threads + 2 := by
  unfold StopPc.close
  split_ifs
  · exact le_rfl
  · exact Nat.le_succ _
  · simp only [StopPc.work]
    omega

/-- The loop of `Stop` is in the vector, and has come where its pool takes it. -/
def StopPc.InRange (kind : Kind) : StopPc → Prop
  | .stop i => i < kind.contexts ∧ kind.stops = true
  | .reset i => i < kind.contexts
  | .idle | .join _ | .returned => True

theorem close_inRange (i : Nat) : (StopPc.close kind i).InRange kind := by
  unfold StopPc.close
  split_ifs with hi hs
  · exact ⟨hi, hs⟩
  · exact hi
  · trivial

/-- **Every step of `Stop` and of the threads takes something off the rank.** -/
theorem rank_step {s t : Pool} {e : Event} (hpc : s.pc.InRange kind) (he : e.internal = true)
    (h : s.step kind e = some t) : t.rank kind < s.rank kind := by
  unfold Pool.rank
  cases step_moves h with
  | start c => cases he
  | post c => cases he
  | complete c hc => cases he
  | leave k hk hrun hstopped =>
    have hsum := sum_update s .returned hk
    rw [hrun] at hsum
    simp only [ThreadPc.work] at hsum ⊢
    omega
  | call k hk hrun hready =>
    have hthreads := sum_update s .handler hk
    have hctx := sum_set s { s.contexts (kind.home k) with
      ready := (s.contexts (kind.home k)).ready - 1 } (kind.home_lt k hk)
    rw [hrun] at hthreads
    simp only [ThreadPc.work, Pool.set] at hthreads hctx ⊢
    omega
  | returns k started hk hhandler =>
    have hthreads := sum_update s .run hk
    have hctx := sum_set s { s.contexts (kind.home k) with
      pending := (s.contexts (kind.home k)).pending + started } (kind.home_lt k hk)
    rw [hhandler] at hthreads
    simp only [ThreadPc.work, settle_threads, settle_ready, settle_pc] at hthreads hctx ⊢
    change _ + _ + s.pc.work kind < _
    omega
  | begin hidle =>
    have hclose := @close_work kind 0 (Nat.zero_le _)
    have hwork : s.pc.work kind = 2 * kind.contexts + kind.threads + 3 := by
      rw [hidle]
      rfl
    dsimp only
    omega
  | stop i hi =>
    rw [hi] at hpc
    have hctx := sum_set s { s.contexts i with stopped := true } hpc.1
    simp only [hi, StopPc.work, Pool.set] at hctx ⊢
    omega
  | reset i hi =>
    rw [hi] at hpc
    have hlt : i < kind.contexts := hpc
    have hctx := sum_set s { s.contexts i with work := false } hlt
    have hclose := @close_work kind (i + 1) hlt
    have hwork : s.pc.work kind = 2 * (kind.contexts - i) + kind.threads + 1 := by
      rw [hi]
      rfl
    simp only [settle_threads, settle_ready, Pool.set] at hctx ⊢
    omega
  | join k hk hlt _ =>
    simp only [hk, StopPc.work]
    omega
  | done k hk _ =>
    simp only [hk, StopPc.work]
    omega

/-- What another thread does, and a completion, make one handler more to call. -/
theorem sum_set_le (s : Pool) (c : Nat) (x : IOContext)
    (hx : x.ready ≤ (s.contexts c).ready + 1) :
    ∑ d ∈ Finset.range kind.contexts, ((s.set c x).contexts d).ready ≤
      (∑ d ∈ Finset.range kind.contexts, (s.contexts d).ready) + 1 := by
  by_cases hc : c < kind.contexts
  · have hsum := sum_set s x hc
    omega
  · refine Nat.le_succ_of_le (Finset.sum_le_sum fun d hd => ?_)
    have hdc : d ≠ c := by
      rintro rfl
      exact hc (Finset.mem_range.mp hd)
    rw [set_of_ne hdc]

/-- Any other step adds a handler and its return at most. -/
theorem rank_others {s t : Pool} {e : Event} (he : e.internal = false)
    (h : s.step kind e = some t) : t.rank kind ≤ s.rank kind + 2 := by
  obtain ⟨c, x, hx, rfl⟩ : ∃ c x, x.ready ≤ (s.contexts c).ready + 1 ∧ t = s.set c x := by
    cases step_moves h with
    | start c =>
      refine ⟨c, _, ?_, rfl⟩
      exact Nat.le_succ _
    | post c => exact ⟨c, _, Nat.le_refl _, rfl⟩
    | complete c _ => exact ⟨c, _, Nat.le_refl _, rfl⟩
    | leave _ _ _ _ | call _ _ _ _ | returns _ _ _ _ => cases he
    | begin _ | stop _ _ | reset _ _ | join _ _ _ _ | done _ _ _ => cases he
  have hsum := @sum_set_le kind s c x hx
  have hsame : (s.set c x).rank kind =
      2 * ∑ d ∈ Finset.range kind.contexts, ((s.set c x).contexts d).ready +
        ∑ k ∈ Finset.range kind.threads, (s.threads k).work + s.pc.work kind := rfl
  rw [hsame, Pool.rank]
  omega

/-! ## What holds of every pool -/

/-- The contexts whose work has been reset. -/
def StopPc.resets (kind : Kind) : StopPc → Nat
  | .idle => 0
  | .stop i | .reset i => i
  | .join _ | .returned => kind.contexts

/-- The contexts that `Stop` has stopped, if it stops any. -/
def StopPc.stops (kind : Kind) : StopPc → Nat
  | .idle => 0
  | .stop i => i
  | .reset i => i + 1
  | .join _ | .returned => kind.contexts

/-- The threads that have been joined. -/
def StopPc.joins (kind : Kind) : StopPc → Nat
  | .idle | .stop _ | .reset _ => 0
  | .join k => k
  | .returned => kind.threads

/-- What holds in every run. -/
structure Inv (kind : Kind) (s : Pool) : Prop where
  inRange : s.pc.InRange kind
  /-- A context that has run out of work has stopped. -/
  latched : ∀ c, OutOfWork kind s c → (s.contexts c).stopped = true
  reset : ∀ c < s.pc.resets kind, (s.contexts c).work = false
  stopped : kind.stops = true → ∀ c < s.pc.stops kind, (s.contexts c).stopped = true
  joined : ∀ k < s.pc.joins kind, s.threads k = .returned

theorem inv_init : Inv kind .init where
  inRange := trivial
  latched c h := by cases h.1
  reset c hc := absurd hc (Nat.not_lt_zero c)
  stopped _ c hc := absurd hc (Nat.not_lt_zero c)
  joined k hk := absurd hk (Nat.not_lt_zero k)

/-- One context changes, with the threads that run it. -/
theorem Inv.set {s : Pool} (h : Inv kind s) {c : Nat} {x : IOContext} {threads : Nat → ThreadPc}
    (hlatch : x.work = false → x.pending = 0 → x.ready = 0 →
      (∀ k < kind.threads, kind.home k = c → threads k ≠ .handler) → x.stopped = true)
    (hwork : (s.contexts c).work = false → x.work = false)
    (hstopped : (s.contexts c).stopped = true → x.stopped = true)
    (hreturned : ∀ k, s.threads k = .returned → threads k = .returned)
    (hothers : ∀ k, kind.home k ≠ c → threads k = s.threads k) :
    Inv kind { s.set c x with threads } where
  inRange := h.inRange
  latched d hd := by
    by_cases hdc : d = c
    · subst hdc
      unfold OutOfWork at hd
      dsimp only at hd ⊢
      rw [set_self] at hd ⊢
      exact hlatch hd.1 hd.2.1 hd.2.2.1 hd.2.2.2
    · unfold OutOfWork at hd
      dsimp only at hd ⊢
      rw [set_of_ne hdc] at hd ⊢
      refine h.latched d ⟨hd.1, hd.2.1, hd.2.2.1, fun k hk hhome => ?_⟩
      have hk' := hd.2.2.2 k hk hhome
      rwa [hothers k (by rwa [hhome])] at hk'
  reset d hd := by
    have hold := h.reset d hd
    by_cases hdc : d = c
    · subst hdc
      dsimp only
      rw [set_self]
      exact hwork hold
    · dsimp only
      rw [set_of_ne hdc]
      exact hold
  stopped hs d hd := by
    have hold := h.stopped hs d hd
    by_cases hdc : d = c
    · subst hdc
      dsimp only
      rw [set_self]
      exact hstopped hold
    · dsimp only
      rw [set_of_ne hdc]
      exact hold
  joined k hk := hreturned k (h.joined k hk)

/-- The same, and the context is settled. -/
theorem Inv.setSettle {s : Pool} (h : Inv kind s) {c : Nat} {x : IOContext}
    {threads : Nat → ThreadPc}
    (hwork : (s.contexts c).work = false → x.work = false)
    (hstopped : (s.contexts c).stopped = true → x.stopped = true)
    (hreturned : ∀ k, s.threads k = .returned → threads k = .returned)
    (hothers : ∀ k, kind.home k ≠ c → threads k = s.threads k) :
    Inv kind (({ s.set c x with threads } : Pool).settle kind c) := by
  unfold Pool.settle
  split
  · rw [set_set]
    dsimp only
    rw [set_self]
    exact h.set (fun _ _ _ _ => rfl) hwork (fun _ => rfl) hreturned hothers
  · rename_i hnot
    refine h.set (fun hw hp hr hall => absurd ?_ hnot) hwork hstopped hreturned hothers
    refine ⟨?_, ?_, ?_, hall⟩
    · dsimp only
      rwa [set_self]
    · dsimp only
      rwa [set_self]
    · dsimp only
      rwa [set_self]

/-- `Stop` goes on. -/
theorem Inv.advance {s : Pool} (h : Inv kind s) {pc : StopPc} (hrange : pc.InRange kind)
    (hreset : ∀ c < pc.resets kind, (s.contexts c).work = false)
    (hstopped : kind.stops = true → ∀ c < pc.stops kind, (s.contexts c).stopped = true)
    (hjoined : ∀ k < pc.joins kind, s.threads k = .returned) : Inv kind { s with pc } where
  inRange := hrange
  latched := h.latched
  reset := hreset
  stopped := hstopped
  joined := hjoined

theorem lt_of_close_resets {i c : Nat} (h : c < (StopPc.close kind i).resets kind) : c < i := by
  unfold StopPc.close at h
  split_ifs at h with hi
  · exact h
  · exact h
  · exact Nat.lt_of_lt_of_le h (Nat.le_of_not_lt hi)

theorem lt_of_close_stops {i c : Nat} (hs : kind.stops = true)
    (h : c < (StopPc.close kind i).stops kind) : c < i := by
  unfold StopPc.close at h
  rw [if_pos hs] at h
  split_ifs at h with hi
  · exact h
  · exact Nat.lt_of_lt_of_le h (Nat.le_of_not_lt hi)

theorem close_joins (i : Nat) : (StopPc.close kind i).joins kind = 0 := by
  unfold StopPc.close
  split_ifs <;> rfl

/-- `Stop` goes on with the next context. -/
theorem Inv.close {s : Pool} (h : Inv kind s) {i : Nat}
    (hreset : ∀ c < i, (s.contexts c).work = false)
    (hstopped : kind.stops = true → ∀ c < i, (s.contexts c).stopped = true) :
    Inv kind { s with pc := .close kind i } :=
  h.advance (close_inRange i) (fun c hc => hreset c (lt_of_close_resets hc))
    (fun hs c hc => hstopped hs c (lt_of_close_stops hs hc))
    fun k hk => absurd (close_joins i ▸ hk) (Nat.not_lt_zero k)

theorem update_returned {s : Pool} {k : Nat} {pc : ThreadPc} (hk : s.threads k ≠ .returned)
    (j : Nat) (hj : s.threads j = .returned) : Function.update s.threads k pc j = .returned := by
  rw [Function.update_of_ne]
  · exact hj
  · rintro rfl
    exact hk hj

theorem update_others {s : Pool} {k : Nat} {pc : ThreadPc} (j : Nat)
    (hj : kind.home j ≠ kind.home k) : Function.update s.threads k pc j = s.threads j := by
  rw [Function.update_of_ne]
  rintro rfl
  exact hj rfl

theorem step_inv {s t : Pool} {e : Event} (h : Inv kind s) (hstep : s.step kind e = some t) :
    Inv kind t := by
  cases step_moves hstep with
  | start c =>
    exact h.set (fun _ hp => absurd hp (Nat.succ_ne_zero _)) id id (fun _ hk => hk) fun _ _ => rfl
  | post c =>
    exact h.set (fun _ _ hr => absurd hr (Nat.succ_ne_zero _)) id id (fun _ hk => hk)
      fun _ _ => rfl
  | complete c hc =>
    exact h.set (fun _ _ hr => absurd hr (Nat.succ_ne_zero _)) id id (fun _ hk => hk)
      fun _ _ => rfl
  | leave k hk hrun hstopped =>
    have hset : s.set (kind.home k) (s.contexts (kind.home k)) = s := by
      simp [Pool.set]
    have hinv := @Inv.set kind s h (kind.home k) (s.contexts (kind.home k))
      (Function.update s.threads k .returned) (fun _ _ _ _ => hstopped) id id
      (update_returned (by rw [hrun]; decide)) update_others
    rwa [hset] at hinv
  | call k hk hrun hready =>
    refine h.set (fun _ _ _ hall => ?_) id id (update_returned (by rw [hrun]; decide)) update_others
    exact absurd (Function.update_self ..) (hall k hk rfl)
  | returns k started hk hhandler =>
    exact h.setSettle id id (update_returned (by rw [hhandler]; decide)) update_others
  | begin hidle =>
    exact h.close (fun c hc => absurd hc (Nat.not_lt_zero c))
      fun _ c hc => absurd hc (Nat.not_lt_zero c)
  | stop i hi =>
    have hset := @Inv.set kind s h i { s.contexts i with stopped := true } s.threads
      (fun _ _ _ _ => rfl) id (fun _ => rfl) (fun _ hk => hk) fun _ _ => rfl
    have hlt := h.inRange
    have hreset := hset.reset
    have hstopped := hset.stopped
    have hjoined := hset.joined
    change ∀ c < s.pc.resets kind, _ at hreset
    change _ → ∀ c < s.pc.stops kind, _ at hstopped
    rw [hi] at hlt hreset hstopped
    refine hset.advance hlt.1 hreset (fun hs c hc => ?_) fun k hk => absurd hk (Nat.not_lt_zero k)
    rcases Nat.lt_succ_iff_lt_or_eq.mp hc with hc | rfl
    · exact hstopped hs c hc
    · exact congrArg IOContext.stopped (set_self s c _)
  | reset i hi =>
    have hset := @Inv.setSettle kind s h i { s.contexts i with work := false } s.threads
      (fun _ => rfl) id (fun _ hk => hk) fun _ _ => rfl
    have hreset := hset.reset
    have hstopped := hset.stopped
    rw [settle_pc] at hreset hstopped
    change ∀ c < s.pc.resets kind, _ at hreset
    change _ → ∀ c < s.pc.stops kind, _ at hstopped
    rw [hi] at hreset hstopped
    refine hset.close (fun c hc => ?_) fun hs c hc => hstopped hs c hc
    rcases Nat.lt_succ_iff_lt_or_eq.mp hc with hc | rfl
    · exact hreset c hc
    · rw [settle_eq]
      dsimp only
      rw [set_self]
      dsimp only
      rw [set_self]
  | join k hk hlt hreturned =>
    have hreset := h.reset
    have hstopped := h.stopped
    have hjoined := h.joined
    rw [hk] at hreset hstopped hjoined
    refine h.advance trivial hreset hstopped fun j hj => ?_
    rcases Nat.lt_succ_iff_lt_or_eq.mp hj with hj | rfl
    · exact hjoined j hj
    · exact hreturned
  | done k hk hge =>
    have hreset := h.reset
    have hstopped := h.stopped
    have hjoined := h.joined
    rw [hk] at hreset hstopped hjoined
    exact h.advance trivial hreset hstopped fun j hj => hjoined j (by
      have hlt : j < kind.threads := hj
      change j < k
      omega)

/-! ## Where nothing goes on -/

/-- Neither `Stop` nor a thread of the pool can take a step. -/
def Rested (kind : Kind) (s : Pool) : Prop := ∀ e, e.internal = true → s.step kind e = none

/-- Where nothing goes on, `Stop` has returned, or a thread it waits for runs a context that has
neither been stopped nor run out of work. -/
theorem Rested.stop {s : Pool} (hs : Rested kind s) (h : Inv kind s) (hbegun : s.pc ≠ .idle) :
    s.pc = .returned ∨ ∃ k < kind.threads, s.pc = .join k ∧ s.threads k = .run ∧
      (s.contexts (kind.home k)).stopped = false ∧ 0 < (s.contexts (kind.home k)).pending := by
  have hstop := hs .stop rfl
  cases hpc : s.pc with
  | idle => exact absurd hpc hbegun
  | stop i => simp [Pool.step, Pool.stopStep, hpc] at hstop
  | reset i => simp [Pool.step, Pool.stopStep, hpc] at hstop
  | returned => exact Or.inl rfl
  | join k =>
    simp only [Pool.step, Pool.stopStep, hpc] at hstop
    split_ifs at hstop with hk hreturned
    have hnot : ∀ j < kind.threads, s.threads j ≠ .handler := by
      intro j hj hhandler
      have hret := hs (.returns j 0) rfl
      simp [Pool.step, hj, hhandler] at hret
    have hrun : s.threads k = .run := by
      cases hpck : s.threads k with
      | run => rfl
      | handler => exact absurd hpck (hnot k hk)
      | returned => exact absurd hpck hreturned
    have hthread := hs (.thread k) rfl
    simp only [Pool.step, hk, hrun, and_self, if_true, Pool.runStep] at hthread
    split_ifs at hthread with hstopped hready
    have hwork := h.reset (kind.home k)
    rw [hpc] at hwork
    have hstopped' : (s.contexts (kind.home k)).stopped = false := by simpa using hstopped
    refine Or.inr ⟨k, hk, rfl, hrun, hstopped', Nat.pos_of_ne_zero fun hzero => hstopped ?_⟩
    exact h.latched _ ⟨hwork (kind.home_lt k hk), hzero, by omega, fun j hj _ => hnot j hj⟩

/-! ## What stops a context -/

theorem set_stopped {s : Pool} {c : Nat} {x : IOContext}
    (hx : x.stopped = (s.contexts c).stopped) (d : Nat) :
    ((s.set c x).contexts d).stopped = (s.contexts d).stopped := by
  by_cases h : d = c
  · rw [h, set_self, hx]
  · rw [set_of_ne h]

theorem settle_outOfWork {s : Pool} {c d : Nat} :
    OutOfWork kind (s.settle kind c) d ↔ OutOfWork kind s d := by
  unfold OutOfWork
  rw [settle_threads, settle_eq]
  by_cases h : d = c
  · rw [h, set_self]
  · rw [set_of_ne h]

theorem settle_stopped {s : Pool} {c d : Nat} (h : ((s.settle kind c).contexts d).stopped = true) :
    (s.contexts d).stopped = true ∨ OutOfWork kind (s.settle kind c) d := by
  rw [settle_outOfWork]
  rw [settle_eq] at h
  by_cases hd : d = c
  · rw [hd, set_self, Bool.or_eq_true, decide_eq_true_eq] at h
    rw [hd]
    exact h
  · rw [set_of_ne hd] at h
    exact Or.inl h

theorem stopped_settle {s : Pool} {c d : Nat} (h : (s.contexts d).stopped = true) :
    ((s.settle kind c).contexts d).stopped = true := by
  rw [settle_eq]
  by_cases hd : d = c
  · rw [hd, set_self, ← hd, h, Bool.true_or]
  · rw [set_of_ne hd, h]

/-- A context that has been stopped stays so. -/
theorem stopped_stays {s t : Pool} {e : Event} {c : Nat} (hstep : s.step kind e = some t)
    (h : (s.contexts c).stopped = true) : (t.contexts c).stopped = true := by
  cases step_moves hstep with
  | start _ | post _ | complete _ _ | call _ _ _ _ => exact (set_stopped (by rfl) c).trans h
  | leave _ _ _ _ | begin _ | join _ _ _ _ | done _ _ _ => exact h
  | returns k _ _ _ => exact stopped_settle ((set_stopped (by rfl) c).trans h)
  | reset i _ => exact stopped_settle ((set_stopped (by rfl) c).trans h)
  | stop i _ =>
    by_cases hc : c = i
    · rw [hc]
      exact congrArg IOContext.stopped (set_self s i _)
    · exact (congrArg IOContext.stopped (set_of_ne hc)).trans h

/-- In a pool whose `Stop` does not stop them, only running out of work stops a context. -/
theorem stopped_of_step {s t : Pool} {e : Event} {c : Nat} (hs : kind.stops = false)
    (hinv : Inv kind s) (hstep : s.step kind e = some t) (h : (t.contexts c).stopped = true) :
    (s.contexts c).stopped = true ∨ OutOfWork kind t c := by
  cases step_moves hstep with
  | start _ | post _ | complete _ _ | call _ _ _ _ =>
    exact Or.inl ((set_stopped (by rfl) c).symm.trans h)
  | leave _ _ _ _ | begin _ | join _ _ _ _ | done _ _ _ => exact Or.inl h
  | returns k _ _ _ =>
    rcases settle_stopped h with h | h
    · exact Or.inl ((set_stopped (by rfl) c).symm.trans h)
    · exact Or.inr h
  | reset i _ =>
    rcases settle_stopped h with h | h
    · exact Or.inl ((set_stopped (by rfl) c).symm.trans h)
    · exact Or.inr h
  | stop i hi =>
    have hrange := hinv.inRange
    rw [hi] at hrange
    exact absurd (hs.symm.trans hrange.2) (by decide)

/-- At some time of the run the context has been out of work. -/
def RanOut (kind : Kind) (es : List Event) (c : Nat) : Prop :=
  ∃ es₁ es₂ s, es = es₁ ++ es₂ ∧ run (Pool.step kind) .init es₁ = some s ∧ OutOfWork kind s c

theorem run_inv {t : Pool} {es : List Event} (h : run (Pool.step kind) .init es = some t) :
    Inv kind t :=
  run_invariant (fun _ _ _ hI hstep => step_inv hI hstep) inv_init h

/-- **What stops a context** where `Stop` does not. -/
theorem stopped_iff_ranOut (hs : kind.stops = false) {es : List Event} {t : Pool}
    (h : run (Pool.step kind) .init es = some t) (c : Nat) :
    (t.contexts c).stopped = true ↔ RanOut kind es c := by
  constructor
  · intro hstopped
    induction es using List.reverseRecOn generalizing t with
    | nil =>
      obtain rfl := Option.some.inj h
      cases hstopped
    | append_singleton es e ih =>
      rw [run_append, Option.bind_eq_some_iff] at h
      obtain ⟨s, hrun, hlast⟩ := h
      obtain ⟨u, hstep, hu⟩ := run_cons_eq_some.mp hlast
      obtain rfl := Option.some.inj hu
      rcases stopped_of_step hs (run_inv hrun) hstep hstopped with hbefore | hout
      · obtain ⟨es₁, es₂, v, rfl, hv, hout⟩ := ih hrun hbefore
        exact ⟨es₁, es₂ ++ [e], v, List.append_assoc .., hv, hout⟩
      · exact ⟨es ++ [e], [], _, (List.append_nil _).symm, run_snoc hrun hstep, hout⟩
  · rintro ⟨es₁, es₂, s, rfl, hrun, hout⟩
    rw [run_append, hrun, Option.bind_some] at h
    exact run_invariant (I := fun s : Pool => (s.contexts c).stopped = true)
      (fun _ _ _ hstopped hstep => stopped_stays hstep hstopped) ((run_inv hrun).latched c hout) h

/-! ## Both servers -/

theorem begun_stays {s t : Pool} {e : Event} (hstep : s.step kind e = some t)
    (h : s.pc ≠ .idle) : t.pc ≠ .idle := by
  have hclose : ∀ i, StopPc.close kind i ≠ .idle := by
    intro i
    unfold StopPc.close
    split_ifs <;> exact nofun
  cases step_moves hstep with
  | begin _ | reset _ _ => exact hclose _
  | stop _ _ | join _ _ _ _ | done _ _ _ => exact nofun
  | returns _ _ _ _ =>
    rw [settle_pc]
    exact h
  | start _ | post _ | complete _ _ | leave _ _ _ _ | call _ _ _ _ => exact h

/-- A thread returns from `run` when its context has stopped. -/
theorem returned_of_step {s t : Pool} {e : Event} {k : Nat} (hstep : s.step kind e = some t)
    (h : t.threads k = .returned) :
    s.threads k = .returned ∨ (s.contexts (kind.home k)).stopped = true := by
  cases step_moves hstep with
  | leave j _ _ hstopped =>
    by_cases hkj : k = j
    · rw [hkj]
      exact Or.inr hstopped
    · exact Or.inl ((Function.update_of_ne hkj ..).symm.trans h)
  | call j _ _ _ =>
    by_cases hkj : k = j
    · rw [hkj] at h
      dsimp only at h
      rw [Function.update_self] at h
      cases h
    · exact Or.inl ((Function.update_of_ne hkj ..).symm.trans h)
  | returns j _ _ _ =>
    rw [settle_threads] at h
    by_cases hkj : k = j
    · rw [hkj] at h
      dsimp only at h
      rw [Function.update_self] at h
      cases h
    · exact Or.inl ((Function.update_of_ne hkj ..).symm.trans h)
  | reset _ _ =>
    dsimp only at h
    rw [settle_threads] at h
    exact Or.inl h
  | start _ | post _ | complete _ _ | begin _ | stop _ _ | join _ _ _ _ | done _ _ _ =>
    exact Or.inl h

theorem run_returned {t : Pool} {es : List Event} (h : run (Pool.step kind) .init es = some t)
    (k : Nat) (hk : t.threads k = .returned) : (t.contexts (kind.home k)).stopped = true :=
  run_invariant (I := fun s : Pool => ∀ k, s.threads k = .returned →
      (s.contexts (kind.home k)).stopped = true)
    (fun _ _ _ hI hstep k hk =>
      stopped_stays hstep ((returned_of_step hstep hk).elim (hI k) id))
    (fun _ hk => by cases hk) h k hk

/-- Once it has begun, `Stop` goes on, and its steps and those of the threads are bounded by the
rank and what the other steps add to it. -/
theorem run_rank {s t : Pool} {fs : List Event} (h : Inv kind s) (hbegun : s.pc ≠ .idle)
    (ht : run (Pool.step kind) s fs = some t) :
    t.pc ≠ .idle ∧ fs.countP Event.internal + t.rank kind ≤
      s.rank kind + 2 * fs.countP fun e => !e.internal := by
  refine ⟨run_invariant (I := fun r : Pool => r.pc ≠ .idle)
    (fun _ _ _ hI hstep => begun_stays hstep hI) hbegun ht, ?_⟩
  refine run_budget (I := Inv kind) (D := fun _ => True) Event.internal ?_ h (fun _ _ => trivial) ht
  intro r e r' hI _ hstep
  refine ⟨step_inv hI hstep, fun he => rank_step hI.inRange he hstep, ?_⟩
  cases he : e.internal with
  | true => exact Nat.le_add_right_of_le (rank_step hI.inRange he hstep).le
  | false => exact rank_others he hstep

/-- **`Stop` of `logicServer`'s pools returns**, whatever operations are under way: the steps left
to it and to the threads are bounded, by a rank and two for each step of another thread or of a
completion, and where none is left it has joined them all. -/
theorem LogicServer.stop_returns
    (hkind : (∃ size, kind = servicePool size) ∨ ∃ threadNum, kind = threadPool threadNum)
    {es fs : List Event} {s t : Pool} (hs : run (Pool.step kind) .init es = some s)
    (hbegun : s.pc ≠ .idle) (ht : run (Pool.step kind) s fs = some t) :
    fs.countP Event.internal + t.rank kind ≤
      s.rank kind + 2 * (fs.countP fun e => !e.internal) ∧
    (Rested kind t → t.pc = .returned ∧ ∀ k < kind.threads, t.threads k = .returned) := by
  have hstops : kind.stops = true := by
    rcases hkind with ⟨n, rfl⟩ | ⟨n, rfl⟩ <;> rfl
  obtain ⟨hpc, hle⟩ := run_rank (run_inv hs) hbegun ht
  have hinv : Inv kind t := run_inv (by rw [run_append, hs]; exact ht)
  refine ⟨hle, fun hrested => ?_⟩
  have hjoined := hinv.joined
  rcases hrested.stop hinv hpc with hreturned | ⟨k, hk, hjoin, -, hstopped, -⟩
  · rw [hreturned] at hjoined
    exact ⟨hreturned, hjoined⟩
  · have hall := hinv.stopped hstops
    rw [hjoin] at hall
    exact absurd (hstopped.symm.trans (hall _ (kind.home_lt k hk))) (by decide)

/-- **When `Stop` of `BoostCoServer`'s pool returns**: the steps left are bounded in the same way,
but where none is left it has returned exactly if every context has been out of operations at some
time, and it does not return before. -/
theorem BoostCoServer.stop_returns_iff {threadNum : Nat} {es fs : List Event} {s t : Pool}
    (hs : run (Pool.step (servicePool threadNum)) .init es = some s) (hbegun : s.pc ≠ .idle)
    (ht : run (Pool.step (servicePool threadNum)) s fs = some t) :
    fs.countP Event.internal + t.rank (servicePool threadNum) ≤
      s.rank (servicePool threadNum) + 2 * (fs.countP fun e => !e.internal) ∧
    (t.pc = .returned → ∀ c < threadNum, RanOut (servicePool threadNum) (es ++ fs) c) ∧
    (Rested (servicePool threadNum) t → (∀ c < threadNum,
      RanOut (servicePool threadNum) (es ++ fs) c) → t.pc = .returned) := by
  obtain ⟨hpc, hle⟩ := run_rank (run_inv hs) hbegun ht
  have hrun : run (Pool.step (servicePool threadNum)) .init (es ++ fs) = some t := by
    rw [run_append, hs]
    exact ht
  refine ⟨hle, fun hreturned c hc => ?_, fun hrested hall => ?_⟩
  · have hjoined := (run_inv hrun).joined
    rw [hreturned] at hjoined
    exact (stopped_iff_ranOut rfl hrun c).mp (run_returned hrun c (hjoined c hc))
  · rcases hrested.stop (run_inv hrun) hpc with hreturned | ⟨k, hk, -, -, hstopped, -⟩
    · exact hreturned
    · have hout := (stopped_iff_ranOut rfl hrun k).mpr (hall k hk)
      exact absurd (hstopped.symm.trans hout) (by decide)

/-- Two contexts with a read under way on each: one of them completes after its context has been
stopped, the other never does. -/
theorem LogicServer.stop_returns_two :
    ∃ s t, run (Pool.step (servicePool 2)) .init [.start 0, .start 1, .stop] = some s ∧
      run (Pool.step (servicePool 2)) s
        [.stop, .stop, .complete 0, .stop, .thread 0, .stop, .thread 1, .stop, .stop, .stop] =
          some t ∧
      t.pc = .returned ∧ (9 + t.rank (servicePool 2) ≤ s.rank (servicePool 2) + 2 * 1 ∧
        (Rested (servicePool 2) t → t.pc = .returned ∧ ∀ k < 2, t.threads k = .returned)) :=
  ⟨_, _, rfl, rfl, rfl, LogicServer.stop_returns (Or.inl ⟨2, rfl⟩)
    (rfl : run (Pool.step (servicePool 2)) .init [.start 0, .start 1, .stop] = _) nofun
    (rfl : run (Pool.step (servicePool 2)) _ [.stop, .stop, .complete 0, .stop, .thread 0, .stop,
      .thread 1, .stop, .stop, .stop] = _)⟩

/-- One context; the read that is under way completes after `Stop` has begun to wait, and its
handler does not start another. -/
theorem BoostCoServer.stop_returns_iff_one :
    ∃ s t, run (Pool.step (servicePool 1)) .init [.start 0, .stop, .stop] = some s ∧
      run (Pool.step (servicePool 1)) s
        [.complete 0, .thread 0, .returns 0 0, .thread 0, .stop, .stop] = some t ∧
      t.pc = .returned ∧ (5 + t.rank (servicePool 1) ≤ s.rank (servicePool 1) + 2 * 1 ∧
        (t.pc = .returned → ∀ c < 1, RanOut (servicePool 1)
          ([.start 0, .stop, .stop] ++
            [.complete 0, .thread 0, .returns 0 0, .thread 0, .stop, .stop]) c) ∧
        (Rested (servicePool 1) t → (∀ c < 1, RanOut (servicePool 1)
          ([.start 0, .stop, .stop] ++
            [.complete 0, .thread 0, .returns 0 0, .thread 0, .stop, .stop]) c) →
          t.pc = .returned)) :=
  ⟨_, _, rfl, rfl, rfl, BoostCoServer.stop_returns_iff
    (rfl : run (Pool.step (servicePool 1)) .init [.start 0, .stop, .stop] = _) nofun
    (rfl : run (Pool.step (servicePool 1)) _
      [.complete 0, .thread 0, .returns 0 0, .thread 0, .stop, .stop] = _)⟩

end AsioLearn.PoolShutdown
