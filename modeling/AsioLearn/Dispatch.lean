import AsioLearn.LogicSystem

/-!
# Dispatch and shutdown of the logic worker

What the worker of `LogicSystem` does with the messages posted to it, over every interleaving with
the posters and the destructor.

`Inv` is the invariant: who holds the mutex, what is known of the queue at each place of `DealMsg`
(`AtPc`), and how the record of the run adds up. It is kept by every step of the copy that leaves
the loop after draining, and by every step of the other copy but one, the worker finding `_b_stop`
set (`StopUnseen`).

Results:
* `step_inv`: every step keeps the invariant, so that the queue is never empty under `front` or
  `pop` (`NoEmptyAccess`). `BoostCoServer.shuts_down`: having found `_b_stop` set, the worker can
  always leave.
* `LogicServer.shutdown_iff`: the other copy meets what is asked of its shutdown in exactly the runs
  in which the worker never finds `_b_stop` set. Having found it, the worker cannot leave the loop
  (`Doomed`): it comes to `front` on the queue it has just emptied.
-/

namespace AsioLearn.LogicSystem

open AsioLearn.Lib.Lts

variable {μ : Type}

/-! ## The invariant -/

/-- The worker has the mutex. -/
def WorkerPc.holds : WorkerPc μ → Bool
  | .lock | .blocked | .signalled | .exited => false
  | _ => true

/-- The thread has the mutex. -/
def PosterPc.holds : PosterPc μ → Bool
  | .push _ | .test | .unlock _ => true
  | _ => false

/-- The worker is in the drain loop, or has left through it. -/
def WorkerPc.draining : WorkerPc μ → Bool
  | .drain | .exited => true
  | .front draining | .find draining _ | .deal draining _ | .pop draining => draining
  | .unlock exit => exit
  | _ => false

/-- What is known of the queue and of `_b_stop` where the worker is. -/
def AtPc (registered : μ → Bool) (s : Sys μ) : Prop :=
  match s.worker with
  | .check => s.que ≠ [] ∨ s.bStop = true
  | .front _ | .pop _ => s.que ≠ []
  | .find _ m => ∃ rest, s.que = m :: rest
  | .deal _ m => registered m = true ∧ ∃ rest, s.que = m :: rest
  | .unlock true => s.que = []
  | .fault => False
  | _ => True

/-- The front message, from its dispatch to its `pop`. -/
def Sys.taken (s : Sys μ) : List μ :=
  match s.worker with
  | .deal _ _ | .pop _ | .terminated => s.que.take 1
  | _ => []

/-- The invariant of every run. -/
structure Inv (leaves : Bool) (registered : μ → Bool) (s : Sys μ) : Prop where
  worker : s.worker.holds = true → s.owner = some .worker
  poster : ∀ i, (s.posters i).holds = true → s.owner = some (.poster i)
  atPc : AtPc registered s
  order : s.popped ++ s.que = s.pushed
  log : s.dispatched = (s.popped ++ s.taken).filter registered
  mode : leaves = true ∨ s.worker.draining = false ∧ s.stopSeen = false

/-- The worker does not find `_b_stop` set in this step. -/
def StopUnseen (s : Sys μ) : Event μ → Prop
  | .worker => s.worker = .check → s.bStop = false
  | _ => True

variable {leaves : Bool} {registered : μ → Bool}

theorem inv_init : Inv leaves registered (Sys.init : Sys μ) where
  worker h := by cases h
  poster i h := by cases h
  atPc := trivial
  order := rfl
  log := rfl
  mode := Or.inr ⟨rfl, rfl⟩

/-- While the worker holds the mutex no poster does. -/
theorem Inv.no_poster {s : Sys μ} (hI : Inv leaves registered s) (hw : s.worker.holds = true)
    (i : Nat) : (s.posters i).holds = false := by
  by_contra hp
  have h1 := hI.worker hw
  rw [hI.poster i (by simpa using hp)] at h1
  cases h1

/-- A free mutex is held by no one. -/
theorem Inv.no_holder {s : Sys μ} (hI : Inv leaves registered s) (ho : s.owner = none) (i : Nat) :
    (s.posters i).holds = false := by
  by_contra hp
  have := hI.poster i (by simpa using hp)
  rw [ho] at this
  cases this

/-! ## The steps keep it -/

/-- A step of the worker that leaves the queue, the record and the mutex alone. -/
theorem Inv.goto {s : Sys μ} (hI : Inv leaves registered s) {pc₀ pc : WorkerPc μ} {seen : Bool}
    (hpc : s.worker = pc₀) (hw : pc₀.holds = true) (ht : Sys.taken { s with worker := pc₀ } = [])
    (hat : AtPc registered { s with worker := pc })
    (htaken : Sys.taken { s with worker := pc } = [])
    (hmode : leaves = true ∨ pc.draining = false ∧ seen = false) :
    Inv leaves registered { s with worker := pc, stopSeen := seen } where
  worker _ := hI.worker (by rw [hpc]; exact hw)
  poster := hI.poster
  atPc := hat
  order := hI.order
  log := by
    have hlog := hI.log
    subst hpc
    rw [show s.taken = [] from ht] at hlog
    rw [show Sys.taken { s with worker := pc, stopSeen := seen } = [] from htaken]
    exact hlog
  mode := hmode

/-- The worker takes the mutex. -/
theorem Inv.acquire {s : Sys μ} (hI : Inv leaves registered s) (ho : s.owner = none)
    (ht : s.taken = []) :
    Inv leaves registered { s with owner := some .worker, worker := .test } where
  worker _ := rfl
  poster i hi := by
    rw [hI.no_holder ho i] at hi
    cases hi
  atPc := trivial
  order := hI.order
  log := by
    have hlog := hI.log
    rw [ht] at hlog
    exact hlog
  mode := hI.mode.imp_right fun hm => ⟨rfl, hm.2⟩

/-- The worker gives the mutex up. -/
theorem Inv.release {s : Sys μ} (hI : Inv leaves registered s) {pc : WorkerPc μ}
    (hw : s.worker.holds = true) (ht : s.taken = []) (hout : pc.holds = false)
    (hdraining : pc.draining = s.worker.draining) :
    Inv leaves registered { s with owner := none, worker := pc } where
  worker hh := by
    rw [show pc.holds = true from hh] at hout
    cases hout
  poster i hi := by
    rw [hI.no_poster hw i] at hi
    cases hi
  atPc := by cases pc <;> trivial
  order := hI.order
  log := by
    have htaken : Sys.taken { s with owner := none, worker := pc } = [] := by
      cases pc <;> first | rfl | cases hout
    have hlog := hI.log
    rw [ht] at hlog
    rw [htaken]
    exact hlog
  mode := by
    have hmode := hI.mode
    rw [← hdraining] at hmode
    exact hmode

/-- At `find` nothing but the messages popped has been dispatched. -/
theorem Inv.at_find {s : Sys μ} (hI : Inv leaves registered s) {draining : Bool} {m : μ}
    (hpc : s.worker = .find draining m) :
    (∃ rest, s.que = m :: rest) ∧ s.dispatched = s.popped.filter registered := by
  have hat := hI.atPc
  have hlog := hI.log
  unfold AtPc at hat
  unfold Sys.taken at hlog
  rw [hpc] at hat hlog
  rw [List.append_nil] at hlog
  exact ⟨hat, hlog⟩

/-- The callback for the front message is called. -/
theorem Inv.deal {s : Sys μ} (hI : Inv leaves registered s) {draining : Bool} {m : μ}
    (hpc : s.worker = .find draining m) (hr : registered m = true) :
    Inv leaves registered
      { s with worker := .deal draining m, dispatched := s.dispatched ++ [m] } := by
  obtain ⟨⟨rest, hq⟩, hlog⟩ := hI.at_find hpc
  have hw : s.worker.holds = true := by rw [hpc]; rfl
  have hmode := hI.mode
  rw [hpc] at hmode
  refine ⟨fun _ => hI.worker hw, hI.poster, ⟨hr, rest, hq⟩, hI.order, ?_, ?_⟩
  · show s.dispatched ++ [m] = (s.popped ++ s.que.take 1).filter registered
    rw [hq, hlog, List.filter_append]
    simp [hr]
  · cases draining <;> exact hmode

/-- The front message has no callback. -/
theorem Inv.skip {s : Sys μ} (hI : Inv leaves registered s) {draining : Bool} {m : μ}
    (hpc : s.worker = .find draining m) (hr : ¬ registered m = true) :
    Inv leaves registered { s with worker := .pop draining } := by
  obtain ⟨⟨rest, hq⟩, hlog⟩ := hI.at_find hpc
  have hw : s.worker.holds = true := by rw [hpc]; rfl
  have hmode := hI.mode
  rw [hpc] at hmode
  refine ⟨fun _ => hI.worker hw, hI.poster, ?_, hI.order, ?_, ?_⟩
  · show s.que ≠ []
    rw [hq]
    exact List.cons_ne_nil m rest
  · show s.dispatched = (s.popped ++ s.que.take 1).filter registered
    rw [hq, hlog, List.filter_append]
    simp [hr]
  · cases draining <;> exact hmode

/-- The front message is popped. -/
theorem Inv.pop {s : Sys μ} (hI : Inv leaves registered s) {draining : Bool} {m : μ} {rest : List μ}
    (hpc : s.worker = .pop draining) (hq : s.que = m :: rest) :
    Inv leaves registered { s with
      que := rest, popped := s.popped ++ [m],
      worker := if draining then .drain else .unlock false } := by
  have hlog := hI.log
  have hmode := hI.mode
  have horder := hI.order
  have hw : s.worker.holds = true := by rw [hpc]; rfl
  unfold Sys.taken at hlog
  rw [hpc] at hmode hlog
  rw [hq] at horder hlog
  have horder' : s.popped ++ [m] ++ rest = s.pushed := by
    rw [List.append_assoc]
    exact horder
  cases draining with
  | true =>
    refine ⟨fun _ => hI.worker hw, hI.poster, trivial, horder', ?_, hmode⟩
    rw [hlog]
    exact congrArg _ (List.append_nil _).symm
  | false =>
    refine ⟨fun _ => hI.worker hw, hI.poster, trivial, horder', ?_, hmode⟩
    rw [hlog]
    exact congrArg _ (List.append_nil _).symm

theorem worker_inv {s t : Sys μ} (hI : Inv leaves registered s)
    (hC : leaves = true ∨ StopUnseen s .worker) (h : Moves leaves registered s .worker t) :
    Inv leaves registered t := by
  have hat := hI.atPc
  have hmode := hI.mode
  unfold AtPc at hat
  cases h with
  | acquire hpc ho =>
    refine hI.acquire ho ?_
    unfold Sys.taken
    rcases hpc with hpc | hpc <;> rw [hpc]
  | mustWait hpc _ _ =>
    rw [hpc] at hmode
    exact hI.goto hpc rfl rfl trivial rfl hmode
  | goOn hpc hq =>
    rw [hpc] at hmode
    exact hI.goto hpc rfl rfl hq rfl hmode
  | block hpc =>
    exact hI.release (by rw [hpc]; rfl) (by unfold Sys.taken; rw [hpc]) rfl (by rw [hpc]; rfl)
  | seeStop hpc hb =>
    refine hI.goto hpc rfl rfl trivial rfl (hC.imp_right fun hu => ?_)
    rw [hu hpc] at hb
    cases hb
  | seeNone hpc hb =>
    rw [hpc] at hat hmode
    exact hI.goto hpc rfl rfl (hat.resolve_right (by simp [hb])) rfl hmode
  | drained hpc hq =>
    -- only the copy that leaves the loop comes here
    rw [hpc] at hmode
    obtain rfl : leaves = true := hmode.resolve_right fun hm => by cases hm.1
    exact hI.goto hpc rfl rfl hq rfl (Or.inl rfl)
  | drain hpc hq =>
    rw [hpc] at hmode
    exact hI.goto hpc rfl rfl hq rfl (Or.inl (hmode.resolve_right fun hm => by cases hm.1))
  | frontEmpty draining hpc hq =>
    rw [hpc] at hat
    exact absurd hq hat
  | front draining m rest hpc hq =>
    rw [hpc] at hmode
    refine hI.goto hpc rfl rfl ⟨rest, hq⟩ rfl ?_
    cases draining <;> exact hmode
  | deal _ _ hpc hr => exact hI.deal hpc hr
  | skip _ _ hpc hr => exact hI.skip hpc hr
  | popEmpty draining hpc hq =>
    rw [hpc] at hat
    exact absurd hq hat
  | pop _ _ _ hpc hq => exact hI.pop hpc hq
  | unlock exit hpc =>
    have hw : s.worker.holds = true := by rw [hpc]; rfl
    have ht : s.taken = [] := by unfold Sys.taken; rw [hpc]
    cases exit with
    | true => exact hI.release hw ht rfl (by rw [hpc]; rfl)
    | false => exact hI.release hw ht rfl (by rw [hpc]; rfl)

/-- The callback returns or throws. -/
theorem Inv.callback {s : Sys μ} (hI : Inv leaves registered s) {draining : Bool} {m : μ}
    (hpc : s.worker = .deal draining m) (returns : Bool) :
    Inv leaves registered { s with worker := if returns then .pop draining else .terminated } := by
  have hw : s.worker.holds = true := by rw [hpc]; rfl
  have hat := hI.atPc
  have hlog := hI.log
  have hmode := hI.mode
  unfold AtPc at hat
  unfold Sys.taken at hlog
  rw [hpc] at hat hlog hmode
  obtain ⟨-, rest, hq⟩ := hat
  cases returns with
  | true =>
    refine ⟨fun _ => hI.worker hw, hI.poster, ?_, hI.order, hlog, ?_⟩
    · show s.que ≠ []
      rw [hq]
      exact List.cons_ne_nil m rest
    · cases draining <;> exact hmode
  | false =>
    refine ⟨fun _ => hI.worker hw, hI.poster, trivial, hI.order, hlog, ?_⟩
    cases draining with
    | true => exact hmode.imp_right fun hm => ⟨rfl, hm.2⟩
    | false => exact hmode

/-- A blocked worker that is woken. -/
theorem Inv.wake {s : Sys μ} (hI : Inv leaves registered s) (hpc : s.worker = .blocked) :
    Inv leaves registered { s with worker := .signalled } where
  worker h := by cases h
  poster := hI.poster
  atPc := trivial
  order := hI.order
  log := by
    have hlog := hI.log
    unfold Sys.taken at hlog
    rw [hpc] at hlog
    exact hlog
  mode := by
    have hmode := hI.mode
    rw [hpc] at hmode
    exact hmode

theorem notifyOne_inv {s : Sys μ} (hI : Inv leaves registered s) :
    Inv leaves registered s.notifyOne := by
  unfold Sys.notifyOne
  split
  · rename_i hpc
    exact hI.wake hpc
  · exact hI

/-- What a thread does outside the mutex. -/
theorem Inv.setPoster {s : Sys μ} (hI : Inv leaves registered s) (i : Nat) {pc : PosterPc μ}
    (hpc : pc.holds = true → s.owner = some (.poster i)) :
    Inv leaves registered { s with posters := Function.update s.posters i pc } where
  worker := hI.worker
  poster j hj := by
    rcases eq_or_ne j i with rfl | hne
    · exact hpc (by simpa using hj)
    · exact hI.poster j (by simpa [Function.update_of_ne hne] using hj)
  atPc := hI.atPc
  order := hI.order
  log := hI.log
  mode := hI.mode

/-- A poster that has the mutex keeps the worker out of it. -/
theorem Inv.worker_out {s : Sys μ} (hI : Inv leaves registered s) {i : Nat}
    (hi : (s.posters i).holds = true) : s.worker.holds = false := by
  by_contra hw
  have := hI.no_poster (by simpa using hw) i
  rw [hi] at this
  cases this

/-- Without the mutex nothing is known of the queue, and nothing is taken. -/
theorem taken_of_out {s : Sys μ} (hw : s.worker.holds = false) (q : List μ) :
    Sys.taken { s with que := q } = s.taken ∧ AtPc registered { s with que := q } := by
  unfold Sys.taken AtPc
  cases hpc : s.worker <;> rw [hpc] at hw <;> first | exact ⟨rfl, trivial⟩ | cases hw

/-- The thread takes the mutex. -/
theorem Inv.poster_acquire {s : Sys μ} (hI : Inv leaves registered s) (ho : s.owner = none)
    (i : Nat) (pc : PosterPc μ) :
    Inv leaves registered { s with
      owner := some (.poster i), posters := Function.update s.posters i pc } := by
  refine ⟨?_, ?_, hI.atPc, hI.order, hI.log, hI.mode⟩
  · intro hw
    rw [hI.worker hw] at ho
    cases ho
  · intro j hj
    rcases eq_or_ne j i with rfl | hne
    · rfl
    · dsimp only at hj
      rw [Function.update_of_ne hne, hI.no_holder ho j] at hj
      cases hj

/-- The thread gives the mutex up. -/
theorem Inv.poster_release {s : Sys μ} (hI : Inv leaves registered s) {i : Nat}
    (hi : (s.posters i).holds = true) {pc : PosterPc μ} (hpc : pc.holds = false) :
    Inv leaves registered { s with
      owner := none, posters := Function.update s.posters i pc } := by
  refine ⟨?_, ?_, hI.atPc, hI.order, hI.log, hI.mode⟩
  · intro hw
    rw [show s.worker.holds = false from hI.worker_out hi] at hw
    cases hw
  · intro j hj
    dsimp only at hj
    rcases eq_or_ne j i with rfl | hne
    · rw [Function.update_self, hpc] at hj
      cases hj
    · rw [Function.update_of_ne hne] at hj
      have := (hI.poster j hj).symm.trans (hI.poster i hi)
      exact absurd (Owner.poster.inj (Option.some.inj this)) hne

theorem poster_inv {s t : Sys μ} {i : Nat} (hI : Inv leaves registered s)
    (h : Moves leaves registered s (.poster i) t) : Inv leaves registered t := by
  cases h with
  | posterLock _ m _ ho => exact hI.poster_acquire ho i (.push m)
  | posterPush _ m hpc =>
    have hi : (s.posters i).holds = true := by rw [hpc]; rfl
    obtain ⟨htaken, hat⟩ := @taken_of_out μ registered s (hI.worker_out hi) (s.que ++ [m])
    have hset := @Inv.setPoster μ leaves registered s hI i .test fun _ => hI.poster i hi
    refine ⟨hset.worker, hset.poster, hat, ?_, ?_, hset.mode⟩
    · show s.popped ++ (s.que ++ [m]) = s.pushed ++ [m]
      rw [← List.append_assoc, hI.order]
    · show s.dispatched = (s.popped ++ Sys.taken { s with que := s.que ++ [m] }).filter registered
      rw [htaken]
      exact hI.log
  | posterTest _ hpc => exact hI.setPoster i fun _ => hI.poster i (by rw [hpc]; rfl)
  | posterUnlock _ notify hpc =>
    exact hI.poster_release (by rw [hpc]; rfl) (by cases notify <;> rfl)
  | posterNotify _ _ =>
    have hset := @Inv.setPoster μ leaves registered _ (notifyOne_inv hI) i .idle
      fun h => (by cases h)
    rw [notifyOne_posters] at hset
    exact hset

theorem dtor_inv {s t : Sys μ} (hI : Inv leaves registered s)
    (h : Moves leaves registered s .dtor t) : Inv leaves registered t := by
  cases h with
  | dtorStop _ =>
    refine ⟨hI.worker, hI.poster, ?_, hI.order, hI.log, hI.mode⟩
    have hat := hI.atPc
    unfold AtPc at hat ⊢
    cases hpc : s.worker with
    | check => exact Or.inr rfl
    | unlock exit =>
      rw [hpc] at hat
      cases exit <;> exact hat
    | _ =>
      rw [hpc] at hat
      exact hat
  | dtorNotify _ =>
    have := notifyOne_inv hI
    exact ⟨this.worker, this.poster, this.atPc, this.order, this.log, this.mode⟩
  | dtorJoin _ _ => exact ⟨hI.worker, hI.poster, hI.atPc, hI.order, hI.log, hI.mode⟩

/-- **Every step keeps the invariant**, in the copy that does not leave the loop as long as the
worker does not find `_b_stop` set. -/
theorem step_inv (s : Sys μ) (e : Event μ) (t : Sys μ) (hI : Inv leaves registered s)
    (hC : leaves = true ∨ StopUnseen s e) (h : s.step leaves registered e = some t) :
    Inv leaves registered t := by
  have hmoves := step_moves h
  cases e with
  | worker => exact worker_inv hI hC hmoves
  | callback returns =>
    cases hmoves with
    | callback _ _ _ hpc => exact hI.callback hpc returns
  | spurious =>
    cases hmoves with
    | spurious hpc => exact hI.wake hpc
  | post i m =>
    cases hmoves with
    | post _ _ _ => exact hI.setPoster i fun hh => (by cases hh)
  | poster i => exact poster_inv hI hmoves
  | dtor => exact dtor_inv hI hmoves

/-- Neither `front` nor `pop` has been, or is about to be, applied to an empty queue. -/
def NoEmptyAccess (s : Sys μ) : Prop :=
  (∀ draining, s.worker = .front draining ∨ s.worker = .pop draining → s.que ≠ []) ∧
    s.worker ≠ .fault

theorem Inv.noEmptyAccess {s : Sys μ} (hI : Inv leaves registered s) : NoEmptyAccess s := by
  have hat := hI.atPc
  unfold AtPc at hat
  constructor
  · rintro draining (hpc | hpc)
    · rw [hpc] at hat
      exact hat
    · rw [hpc] at hat
      exact hat
  · intro hpc
    rw [hpc] at hat
    exact hat

/-- What is asked of the shutdown: no access to an empty queue, and a worker that has found
`_b_stop` set can leave the loop, with all that was pushed handled. -/
def ShutsDown (leaves : Bool) (registered : μ → Bool) (s : Sys μ) : Prop :=
  NoEmptyAccess s ∧ (s.stopSeen = true → ∃ es t, run (Sys.step leaves registered) s es = some t ∧
    t.worker = .exited ∧ t.dispatched = t.popped.filter registered)

/-! ## The copy that leaves the loop -/

/-- What is dispatched and not yet popped is the front message, if anything. -/
theorem taken_before (s : Sys μ) : s.taken <+: s.que := by
  unfold Sys.taken
  split
  · exact List.take_prefix 1 s.que
  · exact List.take_prefix 1 s.que
  · exact List.take_prefix 1 s.que
  · exact List.nil_prefix

/-- The worker exits only from the end of the scope behind the drain loop. -/
theorem exits_from {s t : Sys μ} {e : Event μ} (h : s.step leaves registered e = some t)
    (hs : s.worker ≠ .exited) (ht : t.worker = .exited) :
    s.worker = .unlock true ∧ t.que = s.que := by
  rcases step_others h with rfl | ⟨returns, rfl⟩ | ⟨hw | ⟨-, hw⟩, -, -⟩
  · cases step_moves h with
    | unlock exit hpc =>
      cases exit with
      | true => exact ⟨hpc, rfl⟩
      | false => cases ht
    | drained _ _ => cases leaves <;> cases ht
    | pop draining _ _ _ _ => cases draining <;> cases ht
    | _ => cases ht
  · cases step_moves h with
    | callback _ _ _ _ => cases returns <;> cases ht
  · exact absurd (hw.symm.trans ht) hs
  · rw [hw] at ht
    cases ht

/-- The worker can leave the loop. -/
def CanExit (leaves : Bool) (registered : μ → Bool) (s : Sys μ) : Prop :=
  ∃ es t, run (Sys.step leaves registered) s es = some t ∧ t.worker = .exited

/-- One step nearer to the exit. -/
theorem CanExit.before {s t : Sys μ} {e : Event μ} (h : s.step leaves registered e = some t)
    (ht : CanExit leaves registered t) : CanExit leaves registered s := by
  obtain ⟨es, u, hrun, hu⟩ := ht
  exact ⟨e :: es, u, run_cons_eq_some.mpr ⟨t, h, hrun⟩, hu⟩

/-- From the head of the drain loop the worker's steps lead out of it, if the callbacks return. -/
theorem drain_canExit {q : List μ} :
    ∀ {s : Sys μ}, s.worker = .drain → s.que = q → CanExit true registered s := by
  induction q with
  | nil =>
    intro s hpc hq
    refine ⟨[.worker, .worker], { s with owner := none, worker := .exited }, ?_, rfl⟩
    simp [run, Sys.step, Sys.over, Sys.workerStep, hpc, hq]
  | cons m q ih =>
    intro s hpc hq
    by_cases hr : registered m = true
    · obtain ⟨es, t, hrun, ht⟩ := @ih { s with
        que := q, popped := s.popped ++ [m], dispatched := s.dispatched ++ [m] } hpc rfl
      refine ⟨.worker :: .worker :: .worker :: .callback true :: .worker :: es, t, ?_, ht⟩
      rw [← hrun]
      simp [run_cons, Sys.step, Sys.over, Sys.workerStep, Sys.callbackStep, hpc, hq, hr]
    · obtain ⟨es, t, hrun, ht⟩ := @ih { s with que := q, popped := s.popped ++ [m] } hpc rfl
      refine ⟨.worker :: .worker :: .worker :: .worker :: es, t, ?_, ht⟩
      rw [← hrun]
      simp [run_cons, Sys.step, Sys.over, Sys.workerStep, hpc, hq, hr]

theorem pop_canExit {s : Sys μ} (hpc : s.worker = .pop true) (hq : s.que ≠ []) :
    CanExit true registered s := by
  obtain ⟨m, rest, hq⟩ := List.exists_cons_of_ne_nil hq
  refine CanExit.before (e := .worker) (t := { s with
    que := rest, popped := s.popped ++ [m], worker := .drain }) ?_ (drain_canExit rfl rfl)
  simp [Sys.step, Sys.over, Sys.workerStep, hpc, hq]

theorem deal_canExit {s : Sys μ} {m : μ} (hpc : s.worker = .deal true m) (hq : s.que ≠ []) :
    CanExit true registered s := by
  refine CanExit.before (e := .callback true) (t := { s with worker := .pop true }) ?_
    (pop_canExit rfl hq)
  simp [Sys.step, Sys.over, Sys.callbackStep, hpc]

theorem find_canExit {s : Sys μ} {m : μ} (hpc : s.worker = .find true m) (hq : s.que ≠ []) :
    CanExit true registered s := by
  by_cases hr : registered m = true
  · refine CanExit.before (e := .worker) (t := { s with
      worker := .deal true m, dispatched := s.dispatched ++ [m] }) ?_ (deal_canExit rfl hq)
    simp [Sys.step, Sys.over, Sys.workerStep, hpc, hr]
  · refine CanExit.before (e := .worker) (t := { s with worker := .pop true }) ?_
      (pop_canExit rfl hq)
    simp [Sys.step, Sys.over, Sys.workerStep, hpc, hr]

/-- **From anywhere in the drain loop the worker can leave it.** -/
theorem draining_canExit {s : Sys μ} (hI : Inv true registered s)
    (hd : s.worker.draining = true) : CanExit true registered s := by
  have hat := hI.atPc
  unfold AtPc at hat
  cases hpc : s.worker with
  | drain => exact drain_canExit hpc rfl
  | front draining =>
    rw [hpc] at hat hd
    obtain rfl : draining = true := hd
    obtain ⟨m, rest, hq⟩ := List.exists_cons_of_ne_nil hat
    refine CanExit.before (e := .worker) (t := { s with worker := .find true m }) ?_
      (find_canExit rfl hat)
    simp [Sys.step, Sys.over, Sys.workerStep, hpc, hq]
  | find draining m =>
    rw [hpc] at hat hd
    obtain rfl : draining = true := hd
    obtain ⟨rest, hq⟩ := hat
    exact find_canExit hpc (by rw [hq]; exact List.cons_ne_nil m rest)
  | deal draining m =>
    rw [hpc] at hat hd
    obtain rfl : draining = true := hd
    obtain ⟨-, rest, hq⟩ := hat
    exact deal_canExit hpc (by rw [hq]; exact List.cons_ne_nil m rest)
  | pop draining =>
    rw [hpc] at hat hd
    obtain rfl : draining = true := hd
    exact pop_canExit hpc hat
  | unlock exit =>
    rw [hpc] at hd
    obtain rfl : exit = true := hd
    refine ⟨[.worker], { s with owner := none, worker := .exited }, ?_, rfl⟩
    simp [run, Sys.step, Sys.over, Sys.workerStep, hpc]
  | exited => exact ⟨[], s, rfl, hpc⟩
  | _ =>
    rw [hpc] at hd
    cases hd

/-- A worker that has found `_b_stop` set is in the drain loop, unless the process is over. -/
theorem seen_step (s : Sys μ) (e : Event μ) (t : Sys μ)
    (hs : s.stopSeen = true → s.worker.draining = true ∨ s.over = true)
    (h : s.step true registered e = some t) :
    t.stopSeen = true → t.worker.draining = true ∨ t.over = true := by
  have hdraining : s.stopSeen = true → s.worker.draining = true := fun hseen =>
    (hs hseen).resolve_right (by simp [step_not_over h])
  rcases step_others h with rfl | ⟨returns, rfl⟩ | ⟨hw, hseen, -⟩
  · cases step_moves h with
    | seeStop _ _ => exact fun _ => Or.inl rfl
    | drained _ _ => exact fun _ => Or.inl rfl
    | drain _ _ => exact fun _ => Or.inl rfl
    | frontEmpty _ _ _ => exact fun _ => Or.inr rfl
    | popEmpty _ _ _ => exact fun _ => Or.inr rfl
    | acquire hpc _ =>
      intro hseen
      have := hdraining hseen
      rcases hpc with hpc | hpc <;> rw [hpc] at this <;> cases this
    | pop draining _ _ hpc _ =>
      intro hseen
      have := hdraining hseen
      rw [hpc] at this
      obtain rfl : draining = true := this
      exact Or.inl rfl
    | unlock exit hpc =>
      intro hseen
      have := hdraining hseen
      rw [hpc] at this
      obtain rfl : exit = true := this
      exact Or.inl rfl
    | mustWait hpc _ _ | goOn hpc _ | block hpc | seeNone hpc _ | front _ _ _ hpc _
    | deal _ _ hpc _ | skip _ _ hpc _ =>
      intro hseen
      have := hdraining hseen
      rw [hpc] at this
      exact Or.inl this
  · cases step_moves h with
    | callback _ draining m hpc =>
      intro hseen
      have := hdraining hseen
      rw [hpc] at this
      cases returns with
      | true => exact Or.inl this
      | false => exact Or.inr rfl
  · rw [hseen]
    intro hs'
    have := hdraining hs'
    rcases hw with hw | ⟨hb, -⟩
    · exact Or.inl (by rw [hw]; exact this)
    · rw [hb] at this
      cases this

/-! ## The copy that does not -/

/-- The worker has found `_b_stop` set, has the mutex and does not give it up any more. -/
structure Doomed (s : Sys μ) : Prop where
  owner : s.owner = some .worker
  posters : ∀ i, (s.posters i).holds = false
  pc : match s.worker with
    | .drain | .front true | .find true _ | .deal true _ | .pop true | .fault | .terminated => True
    | .front false => s.que = []
    | _ => False

theorem Doomed.goto {s : Sys μ} (h : Doomed s) {pc : WorkerPc μ} {q popped dispatched : List μ}
    (hpc : match pc with
      | .drain | .front true | .find true _ | .deal true _ | .pop true | .fault | .terminated =>
        True
      | .front false => q = []
      | _ => False) :
    Doomed { s with worker := pc, que := q, popped, dispatched } :=
  ⟨h.owner, h.posters, hpc⟩

theorem doomed_worker {s t : Sys μ} (hs : Doomed s) (h : Moves false registered s .worker t) :
    Doomed t := by
  have hpc := hs.pc
  cases h with
  | drained _ hq =>
    -- the end of the drain loop: on to `front`, with the queue empty
    exact hs.goto hq
  | drain _ _ => exact hs.goto trivial
  | frontEmpty _ _ _ => exact hs.goto trivial
  | front draining m rest hw hq =>
    cases draining with
    | true => exact hs.goto trivial
    | false =>
      rw [hw, hq] at hpc
      cases hpc
  | deal draining m hw _ =>
    cases draining with
    | true => exact hs.goto trivial
    | false =>
      rw [hw] at hpc
      exact hpc.elim
  | skip draining m hw _ =>
    cases draining with
    | true => exact hs.goto trivial
    | false =>
      rw [hw] at hpc
      exact hpc.elim
  | popEmpty _ _ _ => exact hs.goto trivial
  | pop draining m rest hw _ =>
    cases draining with
    | true => exact hs.goto trivial
    | false =>
      rw [hw] at hpc
      exact hpc.elim
  | acquire hw _ =>
    rcases hw with hw | hw
    · rw [hw] at hpc
      exact hpc.elim
    · rw [hw] at hpc
      exact hpc.elim
  | mustWait hw _ _ | goOn hw _ | block hw | seeStop hw _ | seeNone hw _ | unlock _ hw =>
    rw [hw] at hpc
    exact hpc.elim

theorem Doomed.not_blocked {s : Sys μ} (hs : Doomed s) : s.worker ≠ .blocked := by
  intro hw
  have hpc := hs.pc
  rw [hw] at hpc
  exact hpc

/-- What a thread does outside the mutex. -/
theorem Doomed.setPoster {s : Sys μ} (hs : Doomed s) (i : Nat) {pc : PosterPc μ}
    (hpc : pc.holds = false) : Doomed { s with posters := Function.update s.posters i pc } where
  owner := hs.owner
  posters j := by
    rcases eq_or_ne j i with rfl | hne
    · simpa using hpc
    · simpa [Function.update_of_ne hne] using hs.posters j
  pc := hs.pc

/-- A thread that had the mutex. -/
theorem Doomed.not_inside {s : Sys μ} (hs : Doomed s) {i : Nat} {pc : PosterPc μ}
    (hi : s.posters i = pc) (hpc : pc.holds = true) : False := by
  have := hs.posters i
  rw [hi, hpc] at this
  cases this

/-- **Once `_b_stop` is found set, no step leads out.** -/
theorem doomed_step (s : Sys μ) (e : Event μ) (t : Sys μ) (hs : Doomed s)
    (h : s.step false registered e = some t) : Doomed t := by
  have hawake : s.notifyOne = s := notifyOne_eq hs.not_blocked
  have hmoves := step_moves h
  cases e with
  | worker => exact doomed_worker hs hmoves
  | callback returns =>
    cases hmoves with
    | callback _ draining m hw =>
      have hpc := hs.pc
      rw [hw] at hpc
      cases draining with
      | true => cases returns <;> exact ⟨hs.owner, hs.posters, trivial⟩
      | false => exact hpc.elim
  | spurious =>
    cases hmoves with
    | spurious hw => exact absurd hw hs.not_blocked
  | post i m =>
    cases hmoves with
    | post _ _ _ => exact hs.setPoster i rfl
  | poster i =>
    cases hmoves with
    | posterLock _ m _ ho =>
      rw [hs.owner] at ho
      cases ho
    | posterPush _ m hi => exact (hs.not_inside hi rfl).elim
    | posterTest _ hi => exact (hs.not_inside hi rfl).elim
    | posterUnlock _ notify hi => exact (hs.not_inside hi rfl).elim
    | posterNotify _ _ =>
      rw [hawake]
      exact hs.setPoster i rfl
  | dtor =>
    cases hmoves with
    | dtorStop _ => exact ⟨hs.owner, hs.posters, hs.pc⟩
    | dtorNotify _ =>
      rw [hawake]
      exact ⟨hs.owner, hs.posters, hs.pc⟩
    | dtorJoin _ hw =>
      have hpc := hs.pc
      rw [hw] at hpc
      exact hpc.elim

theorem Inv.shutsDown (s : Sys μ) (hI : Inv false registered s) :
    ShutsDown false registered s := by
  refine ⟨hI.noEmptyAccess, ?_⟩
  intro hseen
  rcases hI.mode with hl | ⟨-, hunseen⟩
  · cases hl
  · rw [hunseen] at hseen
    cases hseen

/-- Finding `_b_stop` set dooms the worker. -/
theorem not_shutsDown (s : Sys μ) (e : Event μ) (t : Sys μ) (hI : Inv false registered s)
    (hC : ¬ StopUnseen s e) (h : s.step false registered e = some t) :
    ¬ ShutsDown false registered t := by
  cases e with
  | worker =>
    obtain ⟨hpc, hb⟩ := Classical.not_imp.mp hC
    have hw : s.worker.holds = true := by rw [hpc]; rfl
    obtain rfl : t = { s with worker := .drain, stopSeen := true } := by
      have hbstop : s.bStop = true := by simpa using hb
      have hover := step_not_over h
      simpa [Sys.step, Sys.workerStep, hover, hpc, hbstop, eq_comm] using h
    rintro ⟨-, hleaves⟩
    obtain ⟨es, u, hrun, hexit, -⟩ := hleaves rfl
    have hstart : Doomed { s with worker := .drain, stopSeen := true } :=
      ⟨hI.worker hw, hI.no_poster hw, trivial⟩
    have hdoomed : Doomed u := run_invariant doomed_step hstart hrun
    have := hdoomed.pc
    rw [hexit] at this
    exact this
  | callback _ => exact absurd trivial hC
  | spurious => exact absurd trivial hC
  | post _ _ => exact absurd trivial hC
  | poster _ => exact absurd trivial hC
  | dtor => exact absurd trivial hC

end AsioLearn.LogicSystem

namespace AsioLearn

open AsioLearn.Lib.Lts AsioLearn.LogicSystem

variable {μ : Type} {registered : μ → Bool}

/-- **`BoostCoServer` meets what is asked of the shutdown** as long as no callback has thrown. -/
theorem BoostCoServer.shuts_down {es : List (Event μ)} {s : Sys μ}
    (h : run (logicStep registered) Sys.init es = some s) (hover : s.over = false) :
    ShutsDown true registered s := by
  have hinv : ∀ r : Sys μ, ∀ e t, Inv true registered r → logicStep registered r e = some t →
      Inv true registered t := fun r e t hr hstep => step_inv r e t hr (Or.inl rfl) hstep
  have hI := run_invariant hinv inv_init h
  have hseen := run_invariant
    (I := fun r : Sys μ => r.stopSeen = true → r.worker.draining = true ∨ r.over = true)
    seen_step (fun h => (by cases h)) h
  refine ⟨hI.noEmptyAccess, ?_⟩
  intro hs
  have hd : s.worker.draining = true :=
    (hseen hs).resolve_right (by rw [hover]; exact Bool.noConfusion)
  obtain ⟨fs, t, hrun, ht⟩ := draining_canExit hI hd
  have hlog := (run_invariant hinv hI hrun).log
  unfold Sys.taken at hlog
  rw [ht, List.append_nil] at hlog
  exact ⟨fs, t, hrun, ht, hlog⟩

/-- **`logicServer`: when the shutdown is as it should be**: in every state of a run, exactly when
the worker finds `_b_stop` set in no step of it. -/
theorem LogicServer.shutdown_iff {es : List (Event μ)} {s : Sys μ}
    (h : run (logicStep registered) Sys.init es = some s) :
    (∀ es₁ es₂ t, es = es₁ ++ es₂ → run (logicStep registered) Sys.init es₁ = some t →
      ShutsDown false registered t) ↔ Meets (logicStep registered) StopUnseen Sys.init es :=
  meets_iff (fun r e t hr hC hstep => step_inv r e t hr (Or.inr hC) hstep) Inv.shutsDown
    not_shutsDown inv_init h

/-- A message on its way to its callback, while the destructor sets the flag and notifies. -/
def stopAfterCheck : List (Event Nat) :=
  .post 0 7 :: List.replicate 5 (.poster 0) ++ List.replicate 3 .worker ++ [.dtor] ++
    List.replicate 2 .worker ++ [.dtor, .callback true]

/-- The worker has the flag behind it: it deals with the message, as it should. -/
theorem LogicServer.shutdown_one : ∃ s : Sys Nat,
    run (logicStep fun m => m == 7) Sys.init stopAfterCheck = some s ∧ s.dtor = .join ∧
      s.dispatched = [7] ∧
      ((∀ es₁ es₂ t, stopAfterCheck = es₁ ++ es₂ →
        run (logicStep fun m => m == 7) Sys.init es₁ = some t →
        ShutsDown false (fun m => m == 7) t) ↔
        Meets (logicStep fun m => m == 7) StopUnseen Sys.init stopAfterCheck) :=
  ⟨_, rfl, rfl, rfl, @LogicServer.shutdown_iff Nat (fun m => m == 7) stopAfterCheck _ rfl⟩

/-- The flag is set while the worker starts: it drains the empty queue and goes on to `front`. -/
theorem LogicServer.shutdown_fault : ¬ ∀ (es : List (Event Nat)) (s : Sys Nat),
    run (logicStep fun m => m == 7) Sys.init es = some s →
      ShutsDown false (fun m => m == 7) s := by
  intro h
  obtain ⟨⟨-, hfault⟩, -⟩ := h [.dtor, .worker, .worker, .worker, .worker, .worker] _ rfl
  exact hfault rfl

end AsioLearn
