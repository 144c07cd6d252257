import AsioLearn.Wire
import AsioLearn.Lib.Lts
import Mathlib.Logic.Function.Basic

/-!
# The logic worker of both servers (`LogicSystem.cc`)

`DealMsg`, `PostMsgToQue` and the destructor as one transition system: the worker thread, any
number of threads that post, and the thread that destroys the singleton, over the queue, the mutex,
the condition variable and the flag `_b_stop`. The two copies of the file agree but for one
statement: after draining the queue `BoostCoServer` leaves the loop (`break`), `logicServer` goes
on to the code of the normal case. The parameter `leaves` says which.

* A step is one access to shared state. `_b_stop` is written without the mutex, so the wait
  predicate and the `if (_b_stop)` behind it read it in different steps; evaluating the predicate
  and blocking are different steps as well, both under the mutex.
* `_consume.wait` gives the mutex up and blocks in one step (`WorkerPc.blocked`); `notify_one` moves
  a blocked worker to `signalled`, from where it takes the mutex again and evaluates the predicate.
  It may also wake up by itself (`Event.spurious`).
* A registered callback runs with the mutex held. It returns or throws (`Event.callback`); an
  exception leaves `DealMsg` and ends the process.
* `front` or `pop` on an empty queue is undefined behaviour, `WorkerPc.fault`.
* Messages are of any type `μ`; `registered` is `_func_callbacks.find(id) != end`.

`pushed`, `dispatched`, `popped` and `stopSeen` record the run: the messages pushed, the callbacks
invoked, the messages popped, and whether the worker has found `_b_stop` set.

Results:
* `step_moves`: what a step can do, with its guard and the state it leads to (`Moves`). Whatever
  every step preserves is read off its cases.
* `step_others`: what the other threads do to the worker and to the queue.
-/

namespace AsioLearn.LogicSystem

open AsioLearn.Wire

/-- Where the worker is in `DealMsg`. `draining` tells the drain loop from the normal case. -/
inductive WorkerPc (μ : Type) where
  /-- Before `std::unique_lock lock(_mutex)`. -/
  | lock
  /-- Before an evaluation of the wait predicate. -/
  | test
  /-- The predicate was false. -/
  | wait
  /-- Blocked on `_consume`. -/
  | blocked
  /-- Woken, without the mutex. -/
  | signalled
  /-- Before `if (_b_stop)`. -/
  | check
  /-- Before `while (!_msg_que.empty())`. -/
  | drain
  /-- Before `_msg_que.front()`. -/
  | front (draining : Bool)
  /-- Before `find` for the front message. -/
  | find (draining : Bool) (m : μ)
  /-- In the callback for the front message. -/
  | deal (draining : Bool) (m : μ)
  /-- Before `_msg_que.pop()`. -/
  | pop (draining : Bool)
  /-- At the end of the scope of `lock`. -/
  | unlock (exit : Bool)
  | exited
  | fault
  /-- An exception has left `DealMsg`. -/
  | terminated
  deriving DecidableEq, Repr

/-- Where a thread is in `PostMsgToQue`. -/
inductive PosterPc (μ : Type) where
  | idle
  | lock (m : μ)
  | push (m : μ)
  /-- Before `if (_msg_que.size() == 1)`. -/
  | test
  | unlock (notify : Bool)
  | notify
  deriving DecidableEq, Repr

/-- Where the destructor is. -/
inductive DtorPc where
  | idle
  | notify
  | join
  | joined
  deriving DecidableEq, Repr

/-- Who holds `_mutex`. -/
inductive Owner where
  | worker
  | poster (i : Nat)
  deriving DecidableEq, Repr

/-- The state of the system. -/
structure Sys (μ : Type) where
  que : List μ
  bStop : Bool
  owner : Option Owner
  worker : WorkerPc μ
  posters : Nat → PosterPc μ
  dtor : DtorPc
  pushed : List μ
  dispatched : List μ
  popped : List μ
  stopSeen : Bool

variable {μ : Type}

/-- The constructor has run. -/
def Sys.init : Sys μ := ⟨[], false, none, .lock, fun _ => .idle, .idle, [], [], [], false⟩

/-- A step of the worker outside the callbacks. -/
def Sys.workerStep (leaves : Bool) (registered : μ → Bool) (s : Sys μ) : Option (Sys μ) :=
  match s.worker with
  | .lock | .signalled =>
    if s.owner = none then some { s with owner := some .worker, worker := .test } else none
  | .test =>
    if s.que.isEmpty && !s.bStop then some { s with worker := .wait }
    else some { s with worker := .check }
  | .wait => some { s with owner := none, worker := .blocked }
  | .check =>
    if s.bStop then some { s with worker := .drain, stopSeen := true }
    else some { s with worker := .front false }
  | .drain =>
    if s.que.isEmpty then some { s with worker := if leaves then .unlock true else .front false }
    else some { s with worker := .front true }
  | .front draining =>
    match s.que with
    | [] => some { s with worker := .fault }
    | m :: _ => some { s with worker := .find draining m }
  | .find draining m =>
    if registered m then
      some { s with worker := .deal draining m, dispatched := s.dispatched ++ [m] }
    else some { s with worker := .pop draining }
  | .pop draining =>
    match s.que with
    | [] => some { s with worker := .fault }
    | m :: rest =>
      some { s with que := rest, popped := s.popped ++ [m],
                    worker := if draining then .drain else .unlock false }
  | .unlock exit => some { s with owner := none, worker := if exit then .exited else .lock }
  | .blocked | .deal _ _ | .exited | .fault | .terminated => none

/-- The callback the worker is in returns, or throws. -/
def Sys.callbackStep (s : Sys μ) (returns : Bool) : Option (Sys μ) :=
  match s.worker with
  | .deal draining _ => some { s with worker := if returns then .pop draining else .terminated }
  | _ => none

/-- `_consume.notify_one()`. -/
def Sys.notifyOne (s : Sys μ) : Sys μ :=
  match s.worker with
  | .blocked => { s with worker := .signalled }
  | _ => s

/-- The next step of the `i`-th thread in `PostMsgToQue`. -/
def Sys.posterStep (s : Sys μ) (i : Nat) : Option (Sys μ) :=
  match s.posters i with
  | .idle => none
  | .lock m =>
    if s.owner = none then
      some { s with owner := some (.poster i), posters := Function.update s.posters i (.push m) }
    else none
  | .push m =>
    some { s with que := s.que ++ [m], pushed := s.pushed ++ [m],
                  posters := Function.update s.posters i .test }
  | .test =>
    some { s with posters := Function.update s.posters i (.unlock (s.que.length == 1)) }
  | .unlock notify =>
    some { s with owner := none,
                  posters := Function.update s.posters i (if notify then .notify else .idle) }
  | .notify => some { s.notifyOne with posters := Function.update s.posters i .idle }

/-- The next step of the destructor. -/
def Sys.dtorStep (s : Sys μ) : Option (Sys μ) :=
  match s.dtor with
  | .idle => some { s with bStop := true, dtor := .notify }
  | .notify => some { s.notifyOne with dtor := .join }
  | .join =>
    match s.worker with
    | .exited => some { s with dtor := .joined }
    | _ => none
  | .joined => none

/-- Who takes the next step. -/
inductive Event (μ : Type) where
  | worker
  | callback (returns : Bool)
  | spurious
  | post (i : Nat) (m : μ)
  | poster (i : Nat)
  | dtor
  deriving DecidableEq, Repr

/-- The process is over: undefined behaviour, or an exception that left a thread. -/
def Sys.over (s : Sys μ) : Bool :=
  match s.worker with
  | .fault | .terminated => true
  | _ => false

/-- One step of the system. -/
def Sys.step (leaves : Bool) (registered : μ → Bool) (s : Sys μ) (e : Event μ) :
    Option (Sys μ) :=
  if s.over then none
  else
    match e with
    | .worker => s.workerStep leaves registered
    | .callback returns => s.callbackStep returns
    | .spurious =>
      match s.worker with
      | .blocked => some { s with worker := .signalled }
      | _ => none
    | .post i m =>
      match s.posters i with
      | .idle => some { s with posters := Function.update s.posters i (.lock m) }
      | _ => none
    | .poster i => s.posterStep i
    | .dtor => s.dtorStep

/-- `RegisterCallBack`: the only id with a callback. -/
def registerCallBack (id : Int16) : Bool := id == msgHelloWord

/-! ## What a step can do -/

@[simp]
theorem notifyOne_posters (s : Sys μ) : s.notifyOne.posters = s.posters := by
  unfold Sys.notifyOne
  split <;> rfl

@[simp]
theorem notifyOne_que (s : Sys μ) : s.notifyOne.que = s.que := by
  unfold Sys.notifyOne
  split <;> rfl

@[simp]
theorem notifyOne_bStop (s : Sys μ) : s.notifyOne.bStop = s.bStop := by
  unfold Sys.notifyOne
  split <;> rfl

@[simp]
theorem notifyOne_stopSeen (s : Sys μ) : s.notifyOne.stopSeen = s.stopSeen := by
  unfold Sys.notifyOne
  split <;> rfl

/-- A notification wakes the worker if it is blocked, and does nothing else. -/
theorem notifyOne_worker (s : Sys μ) :
    s.notifyOne.worker = s.worker ∨ s.worker = .blocked ∧ s.notifyOne.worker = .signalled := by
  unfold Sys.notifyOne
  split
  · next hpc => exact Or.inr ⟨hpc, rfl⟩
  · exact Or.inl rfl

theorem notifyOne_awake (s : Sys μ) : s.notifyOne.worker ≠ .blocked := by
  unfold Sys.notifyOne
  split
  · intro h
    cases h
  · assumption

theorem notifyOne_eq {s : Sys μ} (h : s.worker ≠ .blocked) : s.notifyOne = s := by
  unfold Sys.notifyOne
  split
  · next hpc => exact absurd hpc h
  · rfl

/-- `Sys.step` as a relation, one rule for each statement. -/
inductive Moves (leaves : Bool) (registered : μ → Bool) (s : Sys μ) : Event μ → Sys μ → Prop where
  | acquire (hpc : s.worker = .lock ∨ s.worker = .signalled) (ho : s.owner = none) :
      Moves leaves registered s .worker { s with owner := some .worker, worker := .test }
  | mustWait (hpc : s.worker = .test) (hq : s.que = []) (hb : s.bStop = false) :
      Moves leaves registered s .worker { s with worker := .wait }
  | goOn (hpc : s.worker = .test) (hq : s.que ≠ [] ∨ s.bStop = true) :
      Moves leaves registered s .worker { s with worker := .check }
  | block (hpc : s.worker = .wait) :
      Moves leaves registered s .worker { s with owner := none, worker := .blocked }
  | seeStop (hpc : s.worker = .check) (hb : s.bStop = true) :
      Moves leaves registered s .worker { s with worker := .drain, stopSeen := true }
  | seeNone (hpc : s.worker = .check) (hb : s.bStop = false) :
      Moves leaves registered s .worker { s with worker := .front false }
  | drained (hpc : s.worker = .drain) (hq : s.que = []) :
      Moves leaves registered s .worker
        { s with worker := if leaves then .unlock true else .front false }
  | drain (hpc : s.worker = .drain) (hq : s.que ≠ []) :
      Moves leaves registered s .worker { s with worker := .front true }
  | frontEmpty (draining : Bool) (hpc : s.worker = .front draining) (hq : s.que = []) :
      Moves leaves registered s .worker { s with worker := .fault }
  | front (draining : Bool) (m : μ) (rest : List μ) (hpc : s.worker = .front draining)
      (hq : s.que = m :: rest) :
      Moves leaves registered s .worker { s with worker := .find draining m }
  | deal (draining : Bool) (m : μ) (hpc : s.worker = .find draining m)
      (hr : registered m = true) :
      Moves leaves registered s .worker
        { s with worker := .deal draining m, dispatched := s.dispatched ++ [m] }
  | skip (draining : Bool) (m : μ) (hpc : s.worker = .find draining m)
      (hr : ¬ registered m = true) :
      Moves leaves registered s .worker { s with worker := .pop draining }
  | popEmpty (draining : Bool) (hpc : s.worker = .pop draining) (hq : s.que = []) :
      Moves leaves registered s .worker { s with worker := .fault }
  | pop (draining : Bool) (m : μ) (rest : List μ) (hpc : s.worker = .pop draining)
      (hq : s.que = m :: rest) :
      Moves leaves registered s .worker
        { s with que := rest, popped := s.popped ++ [m],
                 worker := if draining then .drain else .unlock false }
  | unlock (exit : Bool) (hpc : s.worker = .unlock exit) :
      Moves leaves registered s .worker
        { s with owner := none, worker := if exit then .exited else .lock }
  | callback (returns draining : Bool) (m : μ) (hpc : s.worker = .deal draining m) :
      Moves leaves registered s (.callback returns)
        { s with worker := if returns then .pop draining else .terminated }
  | spurious (hpc : s.worker = .blocked) :
      Moves leaves registered s .spurious { s with worker := .signalled }
  | post (i : Nat) (m : μ) (hi : s.posters i = .idle) :
      Moves leaves registered s (.post i m)
        { s with posters := Function.update s.posters i (.lock m) }
  | posterLock (i : Nat) (m : μ) (hi : s.posters i = .lock m) (ho : s.owner = none) :
      Moves leaves registered s (.poster i)
        { s with owner := some (.poster i), posters := Function.update s.posters i (.push m) }
  | posterPush (i : Nat) (m : μ) (hi : s.posters i = .push m) :
      Moves leaves registered s (.poster i)
        { s with que := s.que ++ [m], pushed := s.pushed ++ [m],
                 posters := Function.update s.posters i .test }
  | posterTest (i : Nat) (hi : s.posters i = .test) :
      Moves leaves registered s (.poster i)
        { s with posters := Function.update s.posters i (.unlock (s.que.length == 1)) }
  | posterUnlock (i : Nat) (notify : Bool) (hi : s.posters i = .unlock notify) :
      Moves leaves registered s (.poster i)
        { s with owner := none,
                 posters := Function.update s.posters i (if notify then .notify else .idle) }
  | posterNotify (i : Nat) (hi : s.posters i = .notify) :
      Moves leaves registered s (.poster i)
        { s.notifyOne with posters := Function.update s.posters i .idle }
  | dtorStop (hd : s.dtor = .idle) :
      Moves leaves registered s .dtor { s with bStop := true, dtor := .notify }
  | dtorNotify (hd : s.dtor = .notify) :
      Moves leaves registered s .dtor { s.notifyOne with dtor := .join }
  | dtorJoin (hd : s.dtor = .join) (hw : s.worker = .exited) :
      Moves leaves registered s .dtor { s with dtor := .joined }

variable {leaves : Bool} {registered : μ → Bool}

theorem worker_moves {s t : Sys μ} (h : s.workerStep leaves registered = some t) :
    Moves leaves registered s .worker t := by
  unfold Sys.workerStep at h
  split at h
  · next hpc =>
    split_ifs at h with ho
    obtain rfl := Option.some.inj h
    exact .acquire (Or.inl hpc) ho
  · next hpc =>
    split_ifs at h with ho
    obtain rfl := Option.some.inj h
    exact .acquire (Or.inr hpc) ho
  · next hpc =>
    split_ifs at h with hwait
    · obtain rfl := Option.some.inj h
      rw [Bool.and_eq_true, List.isEmpty_iff, Bool.not_eq_true'] at hwait
      exact .mustWait hpc hwait.1 hwait.2
    · obtain rfl := Option.some.inj h
      rw [Bool.and_eq_true, List.isEmpty_iff, Bool.not_eq_true', not_and_or,
        Bool.not_eq_false] at hwait
      exact .goOn hpc hwait
  · next hpc =>
    obtain rfl := Option.some.inj h
    exact .block hpc
  · next hpc =>
    split_ifs at h with hb
    · obtain rfl := Option.some.inj h
      exact .seeStop hpc hb
    · obtain rfl := Option.some.inj h
      exact .seeNone hpc (Bool.not_eq_true _ ▸ hb)
  · next hpc =>
    split at h
    · next hq =>
      obtain rfl := Option.some.inj h
      exact .drained hpc (List.isEmpty_iff.mp hq)
    · next hq =>
      obtain rfl := Option.some.inj h
      exact .drain hpc fun hnil => hq (List.isEmpty_iff.mpr hnil)
  · next draining hpc =>
    split at h
    · next hq =>
      obtain rfl := Option.some.inj h
      exact .frontEmpty draining hpc hq
    · next m rest hq =>
      obtain rfl := Option.some.inj h
      exact .front draining m rest hpc hq
  · next draining m hpc =>
    split_ifs at h with hr
    · obtain rfl := Option.some.inj h
      exact .deal draining m hpc hr
    · obtain rfl := Option.some.inj h
      exact .skip draining m hpc hr
  · next draining hpc =>
    split at h
    · next hq =>
      obtain rfl := Option.some.inj h
      exact .popEmpty draining hpc hq
    · next m rest hq =>
      obtain rfl := Option.some.inj h
      exact .pop draining m rest hpc hq
  · next exit hpc =>
    obtain rfl := Option.some.inj h
    exact .unlock exit hpc
  all_goals cases h

theorem poster_moves {s t : Sys μ} {i : Nat} (h : s.posterStep i = some t) :
    Moves leaves registered s (.poster i) t := by
  unfold Sys.posterStep at h
  split at h
  · cases h
  · next m hi =>
    split_ifs at h with ho
    obtain rfl := Option.some.inj h
    exact .posterLock i m hi ho
  · next m hi =>
    obtain rfl := Option.some.inj h
    exact .posterPush i m hi
  · next hi =>
    obtain rfl := Option.some.inj h
    exact .posterTest i hi
  · next notify hi =>
    obtain rfl := Option.some.inj h
    exact .posterUnlock i notify hi
  · next hi =>
    obtain rfl := Option.some.inj h
    exact .posterNotify i hi

theorem dtor_moves {s t : Sys μ} (h : s.dtorStep = some t) :
    Moves leaves registered s .dtor t := by
  unfold Sys.dtorStep at h
  split at h
  · next hd =>
    obtain rfl := Option.some.inj h
    exact .dtorStop hd
  · next hd =>
    obtain rfl := Option.some.inj h
    exact .dtorNotify hd
  · next hd =>
    split at h
    · next hw =>
      obtain rfl := Option.some.inj h
      exact .dtorJoin hd hw
    · cases h
  · cases h

/-- **What a step can do.** -/
theorem step_moves {s t : Sys μ} {e : Event μ} (h : s.step leaves registered e = some t) :
    Moves leaves registered s e t := by
  unfold Sys.step at h
  split_ifs at h
  cases e with
  | worker => exact worker_moves h
  | callback returns =>
    change s.callbackStep returns = some t at h
    unfold Sys.callbackStep at h
    split at h
    · next draining m hpc =>
      obtain rfl := Option.some.inj h
      exact .callback returns draining m hpc
    · cases h
  | spurious =>
    dsimp only at h
    split at h
    · next hpc =>
      obtain rfl := Option.some.inj h
      exact .spurious hpc
    · cases h
  | post i m =>
    dsimp only at h
    split at h
    · next hi =>
      obtain rfl := Option.some.inj h
      exact .post i m hi
    · cases h
  | poster i => exact poster_moves h
  | dtor => exact dtor_moves h

/-- No step is taken once the process is over. -/
theorem step_not_over {s t : Sys μ} {e : Event μ} (h : s.step leaves registered e = some t) :
    s.over = false := by
  unfold Sys.step at h
  split_ifs at h with hover
  simpa using hover

/-- What the other threads do to the worker: at most wake it. They take nothing from the queue. -/
theorem step_others {s t : Sys μ} {e : Event μ} (h : s.step leaves registered e = some t) :
    e = .worker ∨ (∃ returns, e = .callback returns) ∨
      (t.worker = s.worker ∨ s.worker = .blocked ∧ t.worker = .signalled) ∧
        t.stopSeen = s.stopSeen ∧ s.que <+: t.que := by
  have hsame := List.prefix_refl s.que
  cases step_moves h with
  | callback returns _ _ _ => exact Or.inr (Or.inl ⟨returns, rfl⟩)
  | spurious hpc => exact Or.inr (Or.inr ⟨Or.inr ⟨hpc, rfl⟩, rfl, hsame⟩)
  | post _ _ _ => exact Or.inr (Or.inr ⟨Or.inl rfl, rfl, hsame⟩)
  | posterLock _ _ _ _ => exact Or.inr (Or.inr ⟨Or.inl rfl, rfl, hsame⟩)
  | posterPush _ m _ =>
    exact Or.inr (Or.inr ⟨Or.inl rfl, rfl, List.prefix_append s.que [m]⟩)
  | posterTest _ _ => exact Or.inr (Or.inr ⟨Or.inl rfl, rfl, hsame⟩)
  | posterUnlock _ _ _ => exact Or.inr (Or.inr ⟨Or.inl rfl, rfl, hsame⟩)
  | posterNotify _ _ =>
    refine Or.inr (Or.inr ⟨notifyOne_worker s, notifyOne_stopSeen s, ?_⟩)
    exact (notifyOne_que s).symm ▸ hsame
  | dtorStop _ => exact Or.inr (Or.inr ⟨Or.inl rfl, rfl, hsame⟩)
  | dtorNotify _ =>
    refine Or.inr (Or.inr ⟨notifyOne_worker s, notifyOne_stopSeen s, ?_⟩)
    exact (notifyOne_que s).symm ▸ hsame
  | dtorJoin _ _ => exact Or.inr (Or.inr ⟨Or.inl rfl, rfl, hsame⟩)
  | _ => exact Or.inl rfl

end AsioLearn.LogicSystem

namespace AsioLearn

/-- The worker of `BoostCoServer`: `break` after the drain loop. -/
abbrev BoostCoServer.logicStep {μ : Type} (registered : μ → Bool) :=
  LogicSystem.Sys.step true registered

/-- The worker of `logicServer`: no `break` after the drain loop. -/
abbrev LogicServer.logicStep {μ : Type} (registered : μ → Bool) :=
  LogicSystem.Sys.step false registered

end AsioLearn
