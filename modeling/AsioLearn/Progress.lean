import AsioLearn.Wakeups
import AsioLearn.Lib.Ranking

/-!
# From the calls of `PostMsgToQue` to the callbacks

What becomes of the messages the threads post. A call of `PostMsgToQue` is an event `post`, and a
callback that ends an event `callback`; between the two a message is in the hand of its thread, in
the queue, or with the worker. The record of a run is related to these events, and the steps that
bring a message from one place to the next are shown to be taken: they are bounded in number
(`Sys.work`), and where none of them is possible nothing is left to do.

* A step of the destructor, a further call of `PostMsgToQue` and a wake-up without a notification
  may come between the steps that are counted. Each adds a bounded number of them.

Results:
* `posted_run`, `pushed_run`, `called_step`: what is pushed is what was posted, in the order of
  each thread, and what is dispatched is what the callbacks were called for;
* `moves_work`: a step of the worker or of a thread that posts takes some work off;
* `settled_logic`: where no such step is possible, the threads are through, and the worker has left
  its loop or is blocked on the empty queue;
* `BoostCoServer.dispatch_fifo`: every registered message is dispatched once and in the order
  pushed, every other one discarded, and the queue is empty when the worker leaves its loop.
-/

namespace AsioLearn.LogicSystem

open AsioLearn.Lib.Lts

variable {μ : Type}

/-! ## What is posted, pushed and called -/

/-- The message a thread has not pushed yet. -/
def PosterPc.inHand : PosterPc μ → List μ
  | .lock m | .push m => [m]
  | _ => []

/-- The message of the callback the worker is in. -/
def WorkerPc.inCall : WorkerPc μ → List μ
  | .deal _ m => [m]
  | _ => []

/-- The message thread `i` calls `PostMsgToQue` for in this step. -/
def Event.posts (i : Nat) : Event μ → List μ
  | .post k m => if k = i then [m] else []
  | _ => []

/-- The messages thread `i` calls `PostMsgToQue` for, in order. -/
def posted (i : Nat) (es : List (Event μ)) : List μ := es.flatMap (Event.posts i)

/-- The message a thread pushes next. -/
def PosterPc.pushing : PosterPc μ → List μ
  | .push m => [m]
  | _ => []

/-- The message pushed in this step, with the thread that pushes it. -/
def pushes (s : Sys μ) : Event μ → List (Nat × μ)
  | .poster i => (s.posters i).pushing.map (Prod.mk i)
  | _ => []

/-- Of the messages pushed, those of thread `i`. -/
def ofThread (i : Nat) (p : Nat × μ) : Option μ := if p.1 = i then some p.2 else none

/-- The message whose callback ends in this step. -/
def calls (s : Sys μ) : Event μ → List μ
  | .callback _ => s.worker.inCall
  | _ => []

theorem inHand_update (posters : Nat → PosterPc μ) (i j : Nat) (pc : PosterPc μ) :
    (Function.update posters i pc j).inHand = if j = i then pc.inHand else (posters j).inHand := by
  by_cases h : j = i
  · rw [if_pos h, h, Function.update_self]
  · rw [if_neg h, Function.update_of_ne h]

/-- A thread that goes on with the same message in hand, or still without one. -/
theorem inHand_update_same {posters : Nat → PosterPc μ} {i : Nat} {pc : PosterPc μ}
    (h : pc.inHand = (posters i).inHand) (j : Nat) :
    (Function.update posters i pc j).inHand = (posters j).inHand := by
  rw [inHand_update]
  split_ifs with hj
  · rw [h, hj]
  · rfl

theorem notifyOne_pushed (s : Sys μ) : s.notifyOne.pushed = s.pushed := by
  unfold Sys.notifyOne
  split <;> rfl

theorem notifyOne_dispatched (s : Sys μ) : s.notifyOne.dispatched = s.dispatched := by
  unfold Sys.notifyOne
  split <;> rfl

theorem notifyOne_inCall (s : Sys μ) : s.notifyOne.worker.inCall = s.worker.inCall := by
  rcases notifyOne_worker s with h | ⟨hb, h⟩
  · rw [h]
  · rw [h, hb]
    rfl

theorem pushes_eq {s : Sys μ} {i : Nat} {pc : PosterPc μ} (hi : s.posters i = pc) :
    pushes s (.poster i) = pc.pushing.map (Prod.mk i) := by
  rw [← hi]
  rfl

variable {leaves : Bool} {registered : μ → Bool}

/-- **What a thread posts it pushes**, but for the message in hand. -/
theorem hands_step (i : Nat) (s : Sys μ) (e : Event μ) (t : Sys μ)
    (h : s.step leaves registered e = some t) :
    (pushes s e).filterMap (ofThread i) ++ (t.posters i).inHand =
      (s.posters i).inHand ++ e.posts i := by
  have hsame : pushes s e = [] → (t.posters i).inHand = (s.posters i).inHand → e.posts i = [] →
      (pushes s e).filterMap (ofThread i) ++ (t.posters i).inHand =
        (s.posters i).inHand ++ e.posts i := by
    intro hpushes hhand hposts
    rw [hpushes, hhand, hposts, List.filterMap_nil, List.nil_append, List.append_nil]
  cases step_moves h with
  | post k m hk =>
    show [] ++ (Function.update s.posters k _ i).inHand = _ ++ if k = i then [m] else []
    rw [inHand_update, List.nil_append]
    by_cases hi : i = k
    · rw [if_pos hi, if_pos hi.symm, hi, hk]
      rfl
    · rw [if_neg hi, if_neg (Ne.symm hi), List.append_nil]
  | posterPush k m hk =>
    show (pushes s (.poster k)).filterMap (ofThread i) ++ (Function.update s.posters k _ i).inHand =
      (s.posters i).inHand ++ []
    rw [pushes_eq hk, inHand_update, List.append_nil]
    show [(k, m)].filterMap (ofThread i) ++ _ = _
    by_cases hi : i = k
    · have hown : ofThread i (k, m) = some m := if_pos hi.symm
      rw [if_pos hi, hi, hk, List.filterMap_cons_some (hi ▸ hown)]
      rfl
    · have hother : ofThread i (k, m) = none := if_neg (Ne.symm hi)
      rw [if_neg hi, List.filterMap_cons_none hother]
      rfl
  | posterLock k m hk _ =>
    exact hsame (pushes_eq hk) (inHand_update_same (by rw [hk]; rfl) i) rfl
  | posterTest k hk => exact hsame (pushes_eq hk) (inHand_update_same (by rw [hk]; rfl) i) rfl
  | posterUnlock k notify hk =>
    exact hsame (pushes_eq hk) (inHand_update_same (by rw [hk]; cases notify <;> rfl) i) rfl
  | posterNotify k hk =>
    exact hsame (pushes_eq hk) (inHand_update_same (by rw [hk]; rfl) i) rfl
  | dtorNotify _ =>
    exact hsame rfl (congrArg (fun p => PosterPc.inHand (p i)) (notifyOne_posters s)) rfl
  | _ => exact hsame rfl rfl rfl

/-- What the steps push is what the record has. -/
theorem pushed_step (s : Sys μ) (e : Event μ) (t : Sys μ)
    (h : s.step leaves registered e = some t) :
    t.pushed = s.pushed ++ (pushes s e).map Prod.snd := by
  have hsame : pushes s e = [] → t.pushed = s.pushed →
      t.pushed = s.pushed ++ (pushes s e).map Prod.snd := by
    intro hpushes hpushed
    rw [hpushes, hpushed, List.map_nil, List.append_nil]
  cases step_moves h with
  | posterPush k m hk =>
    rw [pushes_eq hk]
    rfl
  | posterLock k m hk _ => exact hsame (pushes_eq hk) rfl
  | posterTest k hk => exact hsame (pushes_eq hk) rfl
  | posterUnlock k notify hk => exact hsame (pushes_eq hk) rfl
  | posterNotify k hk => exact hsame (pushes_eq hk) (notifyOne_pushed s)
  | dtorNotify _ => exact hsame rfl (notifyOne_pushed s)
  | _ => exact hsame rfl rfl

/-- Each thread has pushed what it has posted, but for the message in hand. -/
theorem posted_run {es : List (Event μ)} {s : Sys μ}
    (h : run (Sys.step leaves registered) Sys.init es = some s) (i : Nat) :
    (outputs (Sys.step leaves registered) pushes Sys.init es).filterMap (ofThread i) ++
      (s.posters i).inHand = posted i es := by
  have hstep := fun r e t => @hands_step μ leaves registered i r e t
  rw [← outputs_filterMap]
  exact run_balance hstep h

/-- The record has what was pushed. -/
theorem pushed_run {es : List (Event μ)} {s : Sys μ}
    (h : run (Sys.step leaves registered) Sys.init es = some s) :
    s.pushed = (outputs (Sys.step leaves registered) pushes Sys.init es).map Prod.snd := by
  have hstep : ∀ (xs : List (Nat × μ)) r e t, r.pushed = xs.map Prod.snd →
      Sys.step leaves registered r e = some t → t.pushed = (xs ++ pushes r e).map Prod.snd := by
    intro xs r e t hr hst
    rw [pushed_step r e t hst, hr, List.map_append]
  exact run_outputs hstep rfl h

/-- What is dispatched are the calls that have ended, and the one the worker is in. -/
theorem called_step (xs : List μ) (s : Sys μ) (e : Event μ) (t : Sys μ)
    (hs : s.dispatched = xs ++ s.worker.inCall) (h : s.step leaves registered e = some t) :
    t.dispatched = xs ++ calls s e ++ t.worker.inCall := by
  have hsame : calls s e = [] → t.dispatched = s.dispatched → t.worker.inCall = s.worker.inCall →
      t.dispatched = xs ++ calls s e ++ t.worker.inCall := by
    intro hcalls hdispatched hcall
    rw [hcalls, hdispatched, hcall, List.append_nil, hs]
  cases step_moves h with
  | deal draining m hpc _ =>
    rw [hpc] at hs
    show s.dispatched ++ [m] = xs ++ [] ++ [m]
    rw [hs]
    rfl
  | callback returns draining m hpc =>
    show s.dispatched = xs ++ s.worker.inCall ++ _
    rw [hs]
    cases returns <;> exact (List.append_nil _).symm
  | acquire hpc _ => exact hsame rfl rfl (by rcases hpc with hpc | hpc <;> rw [hpc] <;> rfl)
  | drained hpc _ => exact hsame rfl rfl (by rw [hpc]; cases leaves <;> rfl)
  | pop draining _ _ hpc _ => exact hsame rfl rfl (by rw [hpc]; cases draining <;> rfl)
  | unlock exit hpc => exact hsame rfl rfl (by rw [hpc]; cases exit <;> rfl)
  | mustWait hpc _ _ | goOn hpc _ | block hpc | seeStop hpc _ | seeNone hpc _ | drain hpc _
  | frontEmpty _ hpc _ | front _ _ _ hpc _ | skip _ _ hpc _ | popEmpty _ hpc _ | spurious hpc =>
    exact hsame rfl rfl (by rw [hpc]; rfl)
  | posterNotify _ _ | dtorNotify _ =>
    exact hsame rfl (notifyOne_dispatched s) (notifyOne_inCall s)
  | _ => exact hsame rfl rfl rfl

/-! ## The work that is left -/

/-- The steps the worker can take before it blocks, the messages aside. -/
def WorkerPc.work : WorkerPc μ → Nat
  | .lock | .signalled => 15
  | .unlock exit => if exit then 1 else 16
  | .test => 13
  | .check => 12
  | .drain => 11
  | .front _ => 10
  | .find _ _ => 9
  | .deal _ _ => 8
  | .pop _ => 4
  | .wait => 2
  | .blocked | .exited | .fault | .terminated => 0

/-- The steps of a poster, and those its message and its notification cause. -/
def PosterPc.work : PosterPc μ → Nat
  | .idle => 0
  | .lock _ => 41
  | .push _ => 40
  | .test => 19
  | .unlock _ => 18
  | .notify => 17

/-- The work left where the posters from `N` on are idle. -/
def Sys.work (N : Nat) (s : Sys μ) : Nat :=
  s.worker.work + 20 * s.que.length + ∑ i ∈ Finset.range N, (s.posters i).work

/-- A notification costs a pass of the worker at most. -/
theorem notifyOne_work (s : Sys μ) : s.notifyOne.worker.work ≤ s.worker.work + 15 := by
  rcases notifyOne_worker s with h | ⟨hb, h⟩
  · rw [h]
    exact Nat.le_add_right _ 15
  · rw [h, hb]
    exact le_rfl

/-- A step of the worker takes some work off. -/
theorem worker_work {s t : Sys μ} (N : Nat) (h : Moves leaves registered s .worker t) :
    t.work N < s.work N := by
  unfold Sys.work
  cases h with
  | acquire hpc _ => rcases hpc with hpc | hpc <;> simp [hpc, WorkerPc.work]
  | drained hpc hq => cases leaves <;> simp [hpc, WorkerPc.work]
  | unlock exit hpc => cases exit <;> simp [hpc, WorkerPc.work]
  | pop draining m rest hpc hq =>
    cases draining <;>
    · simp only [hpc, hq, WorkerPc.work, List.length_cons, if_true, Bool.false_eq_true, if_false]
      omega
  | mustWait hpc _ _ | goOn hpc _ | block hpc | seeStop hpc _ | seeNone hpc _ | drain hpc _
  | frontEmpty _ hpc _ | front _ _ _ hpc _ | deal _ _ hpc _ | skip _ _ hpc _
  | popEmpty _ hpc _ =>
    simp [hpc, WorkerPc.work]

theorem posters_work {s : Sys μ} {i N : Nat} (hi : i < N) {pc : PosterPc μ}
    (hpc : s.posters i = pc) (pc' : PosterPc μ) :
    (∑ k ∈ Finset.range N, (Function.update s.posters i pc' k).work) + pc.work =
      (∑ k ∈ Finset.range N, (s.posters k).work) + pc'.work := by
  have hsum := sum_range_update PosterPc.work s.posters pc' hi
  rwa [hpc] at hsum

/-- A step of a poster takes some work off. -/
theorem poster_work {s t : Sys μ} {i N : Nat} (hi : i < N)
    (h : Moves leaves registered s (.poster i) t) : t.work N < s.work N := by
  unfold Sys.work
  cases h with
  | posterLock _ m hpc _ =>
    have hsum := posters_work hi hpc (.push m)
    change _ + 41 = _ + 40 at hsum
    dsimp only
    omega
  | posterPush _ m hpc =>
    have hsum := posters_work hi hpc .test
    change _ + 40 = _ + 19 at hsum
    dsimp only
    rw [List.length_append, List.length_singleton]
    omega
  | posterTest _ hpc =>
    have hsum := posters_work hi hpc (.unlock (s.que.length == 1))
    change _ + 19 = _ + 18 at hsum
    dsimp only
    omega
  | posterUnlock _ notify hpc =>
    have hsum := posters_work hi hpc (if notify then .notify else .idle)
    have hle : PosterPc.work (if notify then .notify else .idle : PosterPc μ) ≤ 17 := by
      cases notify
      · exact Nat.zero_le 17
      · exact le_rfl
    change _ + 18 = _ at hsum
    dsimp only
    omega
  | posterNotify _ hpc =>
    have hsum := posters_work hi hpc .idle
    have hwork := notifyOne_work s
    change _ + 17 = _ + 0 at hsum
    dsimp only
    rw [notifyOne_que]
    omega

/-- A callback, whether it returns or not, takes more off than it gives the session to do. -/
theorem deal_work {s : Sys μ} {draining : Bool} {m : μ} (N : Nat)
    (hpc : s.worker = .deal draining m) {pc : WorkerPc μ} (hle : pc.work ≤ 4) :
    Sys.work N { s with worker := pc } + 4 ≤ s.work N := by
  have hdeal : s.worker.work = 8 := by
    rw [hpc]
    rfl
  unfold Sys.work
  dsimp only
  omega

/-- The steps of the worker, of its callbacks and of the threads that post. -/
def Event.internal : Event μ → Bool
  | .worker | .callback _ | .poster _ => true
  | _ => false

/-- Only threads before `N` take part. -/
def Event.Below (N : Nat) : Event μ → Prop
  | .post i _ | .poster i => i < N
  | _ => True

theorem exists_below (N : Nat) (es : List (Event μ)) : ∃ M, N ≤ M ∧ ∀ e ∈ es, e.Below M := by
  induction es with
  | nil => exact ⟨N, le_rfl, fun e he => absurd he List.not_mem_nil⟩
  | cons e es ih =>
    obtain ⟨M, hM, hes⟩ := ih
    have hmono : ∀ {e' : Event μ} {M' : Nat}, e'.Below M → M ≤ M' → e'.Below M' := by
      intro e' M' he' hle
      cases e' <;> first | trivial | exact lt_of_lt_of_le he' hle
    have hfirst : ∃ k, ∀ M', k < M' → e.Below M' := by
      cases e with
      | post i m => exact ⟨i, fun _ h => h⟩
      | poster i => exact ⟨i, fun _ h => h⟩
      | _ => exact ⟨0, fun _ _ => trivial⟩
    obtain ⟨k, hk⟩ := hfirst
    refine ⟨max M (k + 1), le_trans hM (le_max_left _ _), fun e' he' => ?_⟩
    rcases List.mem_cons.mp he' with rfl | he'
    · exact hk _ (le_max_right M (k + 1))
    · exact hmono (hes e' he') (le_max_left _ _)

/-- **The worker and the threads that post have less and less to do**, and what else happens adds
the work of one message at most. -/
theorem moves_work {s t : Sys μ} {e : Event μ} {N : Nat} (he : e.Below N)
    (h : Moves leaves registered s e t) :
    (e.internal = true → t.work N < s.work N) ∧ t.work N ≤ s.work N + 41 := by
  have hlower : t.work N < s.work N →
      (e.internal = true → t.work N < s.work N) ∧ t.work N ≤ s.work N + 41 :=
    fun hlt => ⟨fun _ => hlt, le_trans (Nat.le_of_lt hlt) (Nat.le_add_right _ 41)⟩
  cases e with
  | worker => exact hlower (worker_work N h)
  | poster i => exact hlower (poster_work he h)
  | callback returns =>
    cases h with
    | callback _ draining m hpc =>
      have hwork :
          WorkerPc.work (if returns then .pop draining else .terminated : WorkerPc μ) ≤ 4 := by
        cases returns
        · exact Nat.zero_le 4
        · exact le_rfl
      exact hlower (by have := deal_work N hpc hwork; omega)
  | spurious =>
    cases h with
    | spurious hpc =>
      refine ⟨nofun, ?_⟩
      unfold Sys.work
      rw [hpc]
      change 15 + _ + _ ≤ 0 + _ + _ + 41
      dsimp only
      omega
  | post i m =>
    cases h with
    | post _ _ hi =>
      have hsum := posters_work he hi (.lock m)
      change _ + 0 = _ + 41 at hsum
      refine ⟨nofun, ?_⟩
      unfold Sys.work
      dsimp only
      omega
  | dtor =>
    refine ⟨nofun, ?_⟩
    cases h with
    | dtorNotify _ =>
      have hwork := notifyOne_work s
      unfold Sys.work
      dsimp only
      rw [notifyOne_que, notifyOne_posters]
      omega
    | dtorStop _ | dtorJoin _ _ => exact Nat.le_add_right _ 41

/-- Threads that are idle add no work. -/
theorem work_idle {s : Sys μ} {N M : Nat} (hidle : ∀ i, N ≤ i → s.posters i = .idle) (hle : N ≤ M) :
    s.work M = s.work N := by
  have hsum : ∑ i ∈ Finset.range N, (s.posters i).work =
      ∑ i ∈ Finset.range M, (s.posters i).work := by
    refine Finset.sum_subset (Finset.range_mono hle) fun i _ hi => ?_
    rw [hidle i (not_lt.mp fun hlt => hi (Finset.mem_range.mpr hlt))]
    rfl
  unfold Sys.work
  rw [hsum]

/-- **The steps that bring the messages to their callbacks are bounded** by what there is to do, and
by what is added. -/
theorem internal_bounded {s : Sys μ} (hs : ∃ N, ∀ i, N ≤ i → s.posters i = .idle) :
    ∃ bound, ∀ fs t, run (Sys.step leaves registered) s fs = some t →
      fs.countP Event.internal ≤ bound + 41 * fs.countP fun e => !e.internal := by
  obtain ⟨N, hN⟩ := hs
  refine ⟨s.work N, fun fs t h => ?_⟩
  obtain ⟨M, hM, hfs⟩ := exists_below N fs
  have hstep : ∀ (r : Sys μ) e r', True → e.Below M → r.step leaves registered e = some r' →
      True ∧ (e.internal = true → r'.work M < r.work M) ∧ r'.work M ≤ r.work M + 41 :=
    fun r e r' _ he hr => ⟨trivial, moves_work he (step_moves hr)⟩
  have hbudget := run_budget Event.internal hstep trivial hfs h
  rw [work_idle hN hM] at hbudget
  exact le_trans (Nat.le_add_right _ _) hbudget

/-! ## Where no thread can go on -/

/-- The mutex is held by someone who will give it up. -/
structure Owned (s : Sys μ) : Prop where
  worker : s.owner = some .worker → s.worker.holds = true
  poster : ∀ i, s.owner = some (.poster i) → (s.posters i).holds = true

theorem owned_init : Owned (Sys.init : Sys μ) where
  worker h := by cases h
  poster i h := by cases h

/-- A step of the worker that keeps the mutex. -/
theorem Owned.goto {s t : Sys μ} (h : Owned s) (ho : t.owner = s.owner)
    (hp : t.posters = s.posters) (hw : t.worker.holds = true) : Owned t where
  worker _ := hw
  poster i hi := by
    rw [hp]
    exact h.poster i (ho.symm.trans hi)

theorem owned_worker {s t : Sys μ} (h : Owned s) (hmoves : Moves leaves registered s .worker t) :
    Owned t := by
  cases hmoves with
  | acquire _ _ => exact ⟨fun _ => rfl, fun i hi => (by cases hi)⟩
  | block _ => exact ⟨fun ho => (by cases ho), fun i hi => (by cases hi)⟩
  | unlock _ _ => exact ⟨fun ho => (by cases ho), fun i hi => (by cases hi)⟩
  | drained _ _ => cases leaves <;> exact h.goto rfl rfl rfl
  | pop draining _ _ _ _ => cases draining <;> exact h.goto rfl rfl rfl
  | _ => exact h.goto rfl rfl rfl

/-- Someone goes on who does not have the mutex. -/
theorem Owned.outside {s t : Sys μ} (h : Owned s) (ho : t.owner = s.owner)
    (hw : s.worker.holds = true → t.worker = s.worker)
    (hp : ∀ i, (s.posters i).holds = true → t.posters i = s.posters i) : Owned t where
  worker hi := by
    have hholds := h.worker (ho.symm.trans hi)
    rw [hw hholds]
    exact hholds
  poster i hi := by
    have hholds := h.poster i (ho.symm.trans hi)
    rw [hp i hholds]
    exact hholds

/-- A handler that did not have the mutex. -/
theorem setPoster_holds {s : Sys μ} {i : Nat} {pc₀ pc : PosterPc μ}
    (hi : s.posters i = pc₀) (hout : pc₀.holds = false) (j : Nat)
    (hj : (s.posters j).holds = true) : Function.update s.posters i pc j = s.posters j := by
  refine Function.update_of_ne ?_ ..
  rintro rfl
  rw [hi, hout] at hj
  cases hj

/-- A handler that keeps the mutex. -/
theorem Owned.keepPoster {s t : Sys μ} (h : Owned s) {i : Nat} {pc : PosterPc μ}
    (ho : t.owner = s.owner) (hw : t.worker = s.worker)
    (hp : t.posters = Function.update s.posters i pc) (hpc : pc.holds = true) : Owned t where
  worker hown := by
    rw [hw]
    exact h.worker (ho.symm.trans hown)
  poster j hown := by
    rw [hp]
    by_cases hj : j = i
    · rw [hj, Function.update_self]
      exact hpc
    · rw [Function.update_of_ne hj]
      exact h.poster j (ho.symm.trans hown)

theorem notifyOne_owner (s : Sys μ) : s.notifyOne.owner = s.owner := by
  unfold Sys.notifyOne
  split <;> rfl

/-- A notification finds the worker without the mutex. -/
theorem notifyOne_holds (s : Sys μ) (h : s.worker.holds = true) :
    s.notifyOne.worker = s.worker := by
  rcases notifyOne_worker s with hw | ⟨hb, -⟩
  · exact hw
  · rw [hb] at h
    cases h

theorem owned_moves {s t : Sys μ} {e : Event μ} (h : Owned s)
    (hmoves : Moves leaves registered s e t) : Owned t := by
  cases e with
  | worker => exact owned_worker h hmoves
  | callback returns =>
    cases hmoves with
    | callback _ _ _ _ => cases returns <;> exact h.goto rfl rfl rfl
  | spurious =>
    cases hmoves with
    | spurious hpc =>
      refine h.outside rfl (fun hw => ?_) fun i _ => rfl
      rw [hpc] at hw
      cases hw
  | post i m =>
    cases hmoves with
    | post _ _ hi => exact h.outside rfl (fun _ => rfl) (setPoster_holds hi rfl)
  | poster i =>
    cases hmoves with
    | posterLock _ m hi ho =>
      refine ⟨fun hown => (by cases hown), fun j hown => ?_⟩
      obtain rfl : i = j := Owner.poster.inj (Option.some.inj hown)
      show (Function.update s.posters i (.push m) i).holds = true
      rw [Function.update_self]
      rfl
    | posterPush _ _ _ => exact h.keepPoster rfl rfl rfl rfl
    | posterTest _ _ => exact h.keepPoster rfl rfl rfl rfl
    | posterUnlock _ _ _ => exact ⟨fun hown => (by cases hown), fun j hown => (by cases hown)⟩
    | posterNotify _ hi =>
      exact h.outside (notifyOne_owner s) (notifyOne_holds s) (setPoster_holds hi rfl)
  | dtor =>
    cases hmoves with
    | dtorStop _ => exact h.outside rfl (fun _ => rfl) fun i _ => rfl
    | dtorNotify _ =>
      exact h.outside (notifyOne_owner s) (notifyOne_holds s) fun i _ =>
        congrArg (fun p => p i) (notifyOne_posters s)
    | dtorJoin _ _ => exact h.outside rfl (fun _ => rfl) fun i _ => rfl

/-- The destructor has not begun, and the worker does not leave its loop. -/
structure Unstopped (s : Sys μ) : Prop where
  bStop : s.bStop = false
  draining : s.worker.draining = false

theorem unstopped_init : Unstopped (Sys.init : Sys μ) := ⟨rfl, rfl⟩

theorem unstopped_worker {s t : Sys μ} (h : Unstopped s)
    (hmoves : Moves leaves registered s .worker t) : Unstopped t := by
  have hd := h.draining
  cases hmoves with
  | seeStop _ hb => exact absurd (h.bStop.symm.trans hb) nofun
  | drained hpc _ | drain hpc _ =>
    rw [hpc] at hd
    cases hd
  | front _ _ _ hpc _ | deal _ _ hpc _ | skip _ _ hpc _ =>
    rw [hpc] at hd
    exact ⟨h.bStop, hd⟩
  | pop draining _ _ hpc _ =>
    rw [hpc] at hd
    obtain rfl : draining = false := hd
    exact ⟨h.bStop, rfl⟩
  | unlock exit hpc =>
    rw [hpc] at hd
    obtain rfl : exit = false := hd
    exact ⟨h.bStop, rfl⟩
  | _ => exact ⟨h.bStop, rfl⟩

/-- Until the destructor begins nothing stops the worker. -/
theorem unstopped_moves {s t : Sys μ} {e : Event μ} (h : s.dtor = .idle → Unstopped s)
    (hmoves : Moves leaves registered s e t) : t.dtor = .idle → Unstopped t := by
  intro hidle
  have hnotified : ∀ d, Unstopped s → Unstopped { s.notifyOne with dtor := d } := by
    intro d hs
    refine ⟨(notifyOne_bStop s).trans hs.bStop, ?_⟩
    show s.notifyOne.worker.draining = false
    rcases notifyOne_worker s with hw | ⟨-, hw⟩
    · rw [hw]
      exact hs.draining
    · rw [hw]
      rfl
  cases e with
  | worker =>
    refine unstopped_worker (h ?_) hmoves
    cases hmoves <;> exact hidle
  | callback returns =>
    cases hmoves with
    | callback _ draining m hpc =>
      obtain ⟨hb, hd⟩ := h hidle
      rw [hpc] at hd
      cases returns <;> exact ⟨hb, by first | exact hd | rfl⟩
  | spurious =>
    cases hmoves with
    | spurious _ => exact ⟨(h hidle).bStop, rfl⟩
  | post i m =>
    cases hmoves with
    | post _ _ _ => exact ⟨(h hidle).bStop, (h hidle).draining⟩
  | poster i =>
    cases hmoves with
    | posterNotify _ _ =>
      have hd : s.dtor = .idle := by
        rw [← hidle]
        unfold Sys.notifyOne
        split <;> rfl
      obtain ⟨hb, hdr⟩ := hnotified .idle (h hd)
      exact ⟨hb, hdr⟩
    | posterLock _ _ _ _ | posterPush _ _ _ | posterTest _ _ | posterUnlock _ _ _ =>
      exact ⟨(h hidle).bStop, (h hidle).draining⟩
  | dtor =>
    cases hmoves with
    | dtorStop _ | dtorNotify _ | dtorJoin _ _ => cases hidle

/-- Where the worker cannot go on it does not have the mutex, unless it is in a callback. -/
theorem Owned.not_worker {s : Sys μ} (ho : Owned s) (hover : s.over = false)
    (hdeal : ∀ draining m, s.worker ≠ .deal draining m)
    (hw : s.step leaves registered .worker = none) : s.owner ≠ some .worker := by
  intro hown
  have hholds := ho.worker hown
  cases hpc : s.worker with
  | deal draining m => exact hdeal draining m hpc
  | lock | blocked | signalled | exited =>
    rw [hpc] at hholds
    cases hholds
  | fault | terminated =>
    unfold Sys.over at hover
    rw [hpc] at hover
    cases hover
  | test | drain | check =>
    simp only [Sys.step, hover, Bool.false_eq_true, if_false, Sys.workerStep, hpc] at hw
    split_ifs at hw
  | front _ | pop _ =>
    simp only [Sys.step, hover, Bool.false_eq_true, if_false, Sys.workerStep, hpc] at hw
    split at hw <;> cases hw
  | find _ _ =>
    simp only [Sys.step, hover, Bool.false_eq_true, if_false, Sys.workerStep, hpc] at hw
    split_ifs at hw
  | wait | unlock _ => simp [Sys.step, hover, Sys.workerStep, hpc] at hw

/-- Nor does a thread that posts. -/
theorem Owned.not_poster {s : Sys μ} (ho : Owned s) (hover : s.over = false) {i : Nat}
    (hp : s.step leaves registered (.poster i) = none) : s.owner ≠ some (.poster i) := by
  intro hown
  have hholds := ho.poster i hown
  cases hpc : s.posters i with
  | idle | lock _ | notify =>
    rw [hpc] at hholds
    cases hholds
  | push _ | test | unlock _ => simp [Sys.step, hover, Sys.posterStep, hpc] at hp

/-- **Where no thread can go on**, no thread is posting, and the worker has left its loop or is
blocked, all that was pushed popped. -/
theorem settled_logic {s : Sys μ} (ha : Attended s) (ho : Owned s)
    (hover : s.over = false) (hdeal : ∀ draining m, s.worker ≠ .deal draining m)
    (hw : s.step leaves registered .worker = none)
    (hp : ∀ i, s.step leaves registered (.poster i) = none) :
    (∀ i, s.posters i = .idle) ∧ (s.worker = .exited ∨ s.que = [] ∧ s.worker = .blocked) := by
  have hworker := ho.not_worker hover hdeal hw
  have hfree : s.owner = none := by
    cases hown : s.owner with
    | none => rfl
    | some o =>
      cases o with
      | worker => exact absurd hown hworker
      | poster i => exact absurd hown (ho.not_poster hover (hp i))
  have hidle : ∀ i, s.posters i = .idle := by
    intro i
    have hnone := hp i
    cases hpc : s.posters i with
    | idle => rfl
    | lock _ | notify | push _ | test | unlock _ =>
      simp [Sys.step, hover, Sys.posterStep, hpc, hfree] at hnone
  refine ⟨hidle, ?_⟩
  have hholds : s.worker.holds = false := by
    by_contra hh
    exact hworker (ha.worker (by simpa using hh))
  cases hpc : s.worker with
  | exited => exact Or.inl rfl
  | blocked =>
    refine Or.inr ⟨?_, rfl⟩
    by_contra hq
    obtain ⟨i, hi⟩ := ha.blocked hpc hq
    unfold WillNotify at hi
    rw [hidle i] at hi
    rcases hi with ⟨h, -⟩ | h | h <;> cases h
  | lock | signalled => simp [Sys.step, hover, Sys.workerStep, hpc, hfree] at hw
  | _ =>
    rw [hpc] at hholds
    cases hholds

/-- Until the destructor begins the worker can only be blocked there. -/
theorem Unstopped.settled_logic {s : Sys μ} (hu : Unstopped s) (ha : Attended s) (ho : Owned s)
    (hover : s.over = false) (hdeal : ∀ draining m, s.worker ≠ .deal draining m)
    (hw : s.step leaves registered .worker = none)
    (hp : ∀ i, s.step leaves registered (.poster i) = none) :
    s.que = [] ∧ s.worker = .blocked ∧ ∀ i, s.posters i = .idle := by
  obtain ⟨hposters, hexited | ⟨hque, hblocked⟩⟩ :=
    LogicSystem.settled_logic ha ho hover hdeal hw hp
  · have hdraining := hu.draining
    rw [hexited] at hdraining
    cases hdraining
  · exact ⟨hque, hblocked, hposters⟩

/-- What is asked of the worker after the run `es`, which has led to `s`: exactly-once dispatch in
the order pushed, and a queue that is drained on stop. -/
structure DispatchesFifo (leaves : Bool) (registered : μ → Bool) (es : List (Event μ))
    (s : Sys μ) : Prop where
  /-- Each thread has pushed what it has posted, in that order, but for the message in hand. -/
  posted : ∀ i, (outputs (Sys.step leaves registered) pushes Sys.init es).filterMap (ofThread i) ++
    (s.posters i).inHand = posted i es
  pushed : s.pushed = (outputs (Sys.step leaves registered) pushes Sys.init es).map Prod.snd
  /-- What was pushed has been popped in that order, or is in the queue. -/
  order : s.popped ++ s.que = s.pushed
  /-- Of what was popped the registered messages have been dispatched, and so may have been the
  front one. -/
  dispatched : ∃ current, current <+: s.que ∧ current.length ≤ 1 ∧
    s.dispatched = (s.popped ++ current).filter registered
  /-- What was dispatched are the callbacks that have ended, and the one under way. -/
  called : s.dispatched = outputs (Sys.step leaves registered) calls Sys.init es ++ s.worker.inCall
  noEmptyAccess : NoEmptyAccess s
  /-- When the worker leaves its loop the queue is empty, and all that was pushed has been
  handled. -/
  exits : ∀ e t, s.step leaves registered e = some t → s.worker ≠ .exited → t.worker = .exited →
    t.que = [] ∧ t.popped = t.pushed ∧ t.dispatched = t.pushed.filter registered
  /-- The steps of the worker and of the threads that post are bounded, but for what is added. -/
  bounded : ∃ bound, ∀ fs t, run (Sys.step leaves registered) s fs = some t →
    fs.countP Event.internal ≤ bound + 41 * fs.countP fun e => !e.internal
  /-- Unless a callback has thrown: where none of these steps is possible all that was posted has
  been pushed, and all that was pushed handled, unless a stop has made the worker leave its loop. -/
  handled : s.worker ≠ .terminated →
    (∀ e : Event μ, e.internal = true → s.step leaves registered e = none) →
    (∀ i, s.posters i = .idle) ∧
      (s.dtor ≠ .idle ∧ s.worker = .exited ∨
        s.que = [] ∧ s.dispatched = s.pushed.filter registered)

/-- With the queue empty, all that was pushed has been handled. -/
theorem Inv.handled {s : Sys μ} (hI : Inv leaves registered s) (hq : s.que = []) :
    s.popped = s.pushed ∧ s.dispatched = s.pushed.filter registered := by
  have horder := hI.order
  have hlog := hI.log
  have htaken := taken_before s
  rw [hq] at horder htaken
  rw [List.append_nil] at horder
  rw [List.prefix_nil.mp htaken, List.append_nil, horder] at hlog
  exact ⟨horder, hlog⟩

theorem taken_length (s : Sys μ) : s.taken.length ≤ 1 := by
  unfold Sys.taken
  split
  · exact List.length_take_le 1 s.que
  · exact List.length_take_le 1 s.que
  · exact List.length_take_le 1 s.que
  · exact Nat.zero_le 1

/-- Two messages: the callback of the first, which is registered, takes its time, and the destructor
stops the worker before it comes to the second. -/
def stoppedRun : List (Event Nat) :=
  .post 0 7 :: List.replicate 5 (.poster 0) ++ List.replicate 5 .worker ++ [.post 1 8] ++
    .callback true :: List.replicate 2 .worker ++ List.replicate 5 (.poster 1) ++ [.dtor] ++
    List.replicate 9 .worker ++ [.dtor, .dtor]

end AsioLearn.LogicSystem

namespace AsioLearn

open AsioLearn.Lib.Lts AsioLearn.LogicSystem

variable {μ : Type} {registered : μ → Bool}

/-- **`BoostCoServer`: exactly-once FIFO dispatch, and drain on stop.** -/
theorem BoostCoServer.dispatch_fifo {es : List (Event μ)} {s : Sys μ}
    (h : run (logicStep registered) Sys.init es = some s) :
    DispatchesFifo true registered es s := by
  have hinv : ∀ r e t, Inv true registered r → logicStep registered r e = some t →
      Inv true registered t := fun r e t hr hstep => step_inv r e t hr (Or.inl rfl) hstep
  have hI : Inv true registered s := run_invariant hinv inv_init h
  have hattended : Attended s := run_invariant step_attended attended_init h
  have howned : Owned s :=
    run_invariant (fun r e t hr hstep => owned_moves hr (step_moves hstep)) owned_init h
  have hunstopped : s.dtor = .idle → Unstopped s :=
    run_invariant (fun r e t hr hstep => unstopped_moves hr (step_moves hstep))
      (fun _ => unstopped_init) h
  have hidle : ∃ N, ∀ i, N ≤ i → s.posters i = .idle :=
    run_invariant step_posters ⟨0, fun _ _ => rfl⟩ h
  refine ⟨posted_run h, pushed_run h, hI.order,
    ⟨s.taken, taken_before s, taken_length s, hI.log⟩, run_outputs called_step rfl h,
    hI.noEmptyAccess, fun e t hstep hs ht => ?_, internal_bounded hidle, fun hthrown hrest => ?_⟩
  · -- the worker leaves from the scope behind the drain loop
    obtain ⟨hpc, hq⟩ := exits_from hstep hs ht
    have hat := hI.atPc
    unfold AtPc at hat
    rw [hpc] at hat
    have hnil : t.que = [] := hq.trans hat
    exact ⟨hnil, (hinv s e t hI hstep).handled hnil⟩
  · have hover : s.over = false := by
      unfold Sys.over
      split
      · next hpc => exact absurd hpc hI.noEmptyAccess.2
      · next hpc => exact absurd hpc hthrown
      · rfl
    have hdeal : ∀ draining m, s.worker ≠ .deal draining m := by
      intro draining m hpc
      have hnone := hrest (.callback true) rfl
      simp [Sys.step, hover, Sys.callbackStep, hpc] at hnone
    obtain ⟨hposters, hworker⟩ := settled_logic hattended howned hover hdeal (hrest .worker rfl)
      fun i => hrest (.poster i) rfl
    refine ⟨hposters, hworker.imp (fun hpc => ⟨fun hd => ?_, hpc⟩)
      fun hq => ⟨hq.1, (hI.handled hq.1).2⟩⟩
    have hdraining := (hunstopped hd).draining
    rw [hpc] at hdraining
    cases hdraining

/-- Two messages, the second without a callback, and a stop: the worker leaves its loop. -/
theorem BoostCoServer.dispatch_fifo_two : ∃ s : Sys Nat,
    run (logicStep fun m => m == 7) Sys.init stoppedRun = some s ∧
      s.worker = .exited ∧ s.dtor = .joined ∧ s.pushed = [7, 8] ∧ s.dispatched = [7] ∧
      DispatchesFifo true (fun m => m == 7) stoppedRun s :=
  ⟨_, rfl, rfl, rfl, rfl, rfl, @BoostCoServer.dispatch_fifo Nat (fun m => m == 7) stoppedRun _ rfl⟩

end AsioLearn
