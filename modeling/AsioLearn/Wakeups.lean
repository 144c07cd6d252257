import AsioLearn.Dispatch

/-!
# The wake-ups of the logic worker

When the worker of `LogicSystem` blocks on `_consume` it is woken by a `notify_one`: of a poster,
which notifies only when its push made the queue one long and after it has given the mutex up, or
of the destructor, which holds no mutex at all.

Results:
* `no_stranded_message`: while the worker is blocked with a message in the queue, a poster is past
  its push and will notify (`WillNotify`). `Attended` is the invariant.
* `no_lost_stop`: the destructor's notification is lost exactly by coming between the wait predicate
  and the block (`StopHeard`). In the runs in which it never does, no state has the stop lost
  (`LostStop`); in every other one the next steps can lead there.

Both are about both servers: nothing depends on what follows the drain loop.
-/

namespace AsioLearn.LogicSystem

open AsioLearn.Lib.Lts

variable {μ : Type}

/-- The `i`-th thread is past its push and still going to call `notify_one`. -/
def WillNotify (s : Sys μ) (i : Nat) : Prop :=
  s.posters i = .test ∧ s.que.length = 1 ∨ s.posters i = .unlock true ∨ s.posters i = .notify

/-! ## Messages -/

/-- Who has the mutex, and who attends to a queue the worker does not look at. -/
structure Attended (s : Sys μ) : Prop where
  worker : s.worker.holds = true → s.owner = some .worker
  poster : ∀ i, (s.posters i).holds = true → s.owner = some (.poster i)
  wait : s.worker = .wait → s.que = []
  blocked : s.worker = .blocked → s.que ≠ [] → ∃ i, WillNotify s i

variable {leaves : Bool} {registered : μ → Bool}

theorem attended_init : Attended (Sys.init : Sys μ) where
  worker h := by cases h
  poster i h := by cases h
  wait h := by cases h
  blocked h := by cases h

/-- Two threads that have the mutex are one. -/
theorem Attended.alone {s : Sys μ} (hs : Attended s) {i j : Nat}
    (hi : (s.posters i).holds = true) (hj : (s.posters j).holds = true) : j = i := by
  have := (hs.poster j hj).symm.trans (hs.poster i hi)
  exact Owner.poster.inj (Option.some.inj this)

/-- The worker does not have the mutex while a poster does. -/
theorem Attended.worker_out {s : Sys μ} (hs : Attended s) {i : Nat}
    (hi : (s.posters i).holds = true) : s.worker.holds = false := by
  by_contra hw
  have := (hs.worker (by simpa using hw)).symm.trans (hs.poster i hi)
  cases this

/-- Blocked on the condition variable, or about to block. -/
def WorkerPc.asleep : WorkerPc μ → Bool
  | .wait | .blocked => true
  | _ => false

theorem WorkerPc.ne_of_awake {pc : WorkerPc μ} (h : pc.asleep = false) :
    pc ≠ .wait ∧ pc ≠ .blocked := by
  constructor
  · rintro rfl
    cases h
  · rintro rfl
    cases h

/-- A step of the worker inside the mutex. -/
theorem Attended.goto {s t : Sys μ} (hs : Attended s) (hw : s.worker.holds = true)
    (ho : t.owner = s.owner) (hp : t.posters = s.posters)
    (hpc : t.worker.asleep = false) : Attended t where
  worker _ := ho.trans (hs.worker hw)
  poster := by
    rw [ho, hp]
    exact hs.poster
  wait h := absurd h (WorkerPc.ne_of_awake hpc).1
  blocked h := absurd h (WorkerPc.ne_of_awake hpc).2

/-- The worker gives the mutex up. -/
theorem Attended.release {s : Sys μ} (hs : Attended s) (hw : s.worker.holds = true)
    {pc : WorkerPc μ} (hpc : pc.holds = false) (hq : pc = .blocked → s.que = []) :
    Attended { s with owner := none, worker := pc } where
  worker h := by
    rw [show pc.holds = true from h] at hpc
    cases hpc
  poster i hi := by
    rw [hs.worker_out hi] at hw
    cases hw
  wait h := by
    obtain rfl : pc = .wait := h
    cases hpc
  blocked h hne := absurd (hq h) hne

theorem worker_attended {s t : Sys μ} (hs : Attended s)
    (h : Moves leaves registered s .worker t) : Attended t := by
  cases h with
  | acquire _ ho =>
    refine ⟨fun _ => rfl, fun i hi => ?_, fun hw => (by cases hw), fun hb => (by cases hb)⟩
    rw [hs.poster i hi] at ho
    cases ho
  | mustWait hpc hq _ =>
    have hw : s.worker.holds = true := by rw [hpc]; rfl
    exact ⟨fun _ => hs.worker hw, hs.poster, fun _ => hq, fun hb => (by cases hb)⟩
  | block hpc => exact hs.release (by rw [hpc]; rfl) rfl fun _ => hs.wait hpc
  | unlock exit hpc =>
    cases exit with
    | true => exact hs.release (by rw [hpc]; rfl) rfl fun h => (by cases h)
    | false => exact hs.release (by rw [hpc]; rfl) rfl fun h => (by cases h)
  | goOn hpc _ | seeStop hpc _ | seeNone hpc _ | drain hpc _ | frontEmpty _ hpc _
  | front _ _ _ hpc _ | deal _ _ hpc _ | skip _ _ hpc _ | popEmpty _ hpc _ =>
    exact hs.goto (by rw [hpc]; rfl) rfl rfl rfl
  | drained hpc _ =>
    refine hs.goto (by rw [hpc]; rfl) rfl rfl ?_
    cases leaves <;> rfl
  | pop draining _ _ hpc _ =>
    refine hs.goto (by rw [hpc]; rfl) rfl rfl ?_
    cases draining <;> rfl

/-- A thread at another place leaves who has the mutex as it was. -/
theorem poster_update {s : Sys μ} {i : Nat} {pc : PosterPc μ} {owner : Option Owner}
    (hi : pc.holds = true → owner = some (.poster i))
    (ho : ∀ j, j ≠ i → (s.posters j).holds = true → owner = some (.poster j)) (j : Nat)
    (hj : (Function.update s.posters i pc j).holds = true) : owner = some (.poster j) := by
  rcases eq_or_ne j i with rfl | hne
  · rw [Function.update_self] at hj
    exact hi hj
  · rw [Function.update_of_ne hne] at hj
    exact ho j hne hj

/-- The other threads' notifications do not depend on where this one is. -/
theorem willNotify_update {s : Sys μ} {i j : Nat} {pc : PosterPc μ} {owner : Option Owner}
    (hne : j ≠ i) :
    WillNotify { s with owner, posters := Function.update s.posters i pc } j ↔ WillNotify s j := by
  unfold WillNotify
  dsimp only
  rw [Function.update_of_ne hne]

/-- A thread that was not going to notify, and does not take the mutex, moves on. -/
theorem Attended.setPoster {s : Sys μ} (hs : Attended s) {i : Nat} {pc : PosterPc μ}
    (hi : s.worker = .blocked → ¬ WillNotify s i) (hpc : pc.holds = false) :
    Attended { s with posters := Function.update s.posters i pc } where
  worker := hs.worker
  poster := poster_update (fun hh => by rw [hpc] at hh; cases hh) fun j _ => hs.poster j
  wait := hs.wait
  blocked := by
    intro hb hq
    obtain ⟨j, hj⟩ := hs.blocked hb hq
    have hne : j ≠ i := by
      rintro rfl
      exact hi hb hj
    exact ⟨j, (willNotify_update hne).mpr hj⟩

/-- A blocked worker that is woken. -/
theorem Attended.wake {s : Sys μ} (hs : Attended s) : Attended { s with worker := .signalled } where
  worker hw := by cases hw
  poster := hs.poster
  wait hw := by cases hw
  blocked hb := by cases hb

theorem notifyOne_attended {s : Sys μ} (hs : Attended s) : Attended s.notifyOne := by
  unfold Sys.notifyOne
  split
  · exact hs.wake
  · exact hs

theorem poster_attended {s t : Sys μ} {i : Nat} (hs : Attended s)
    (h : Moves leaves registered s (.poster i) t) : Attended t := by
  cases h with
  | posterLock _ m hpc ho =>
    refine ⟨?_, poster_update (fun _ => rfl) ?_, hs.wait, ?_⟩
    · intro hw
      rw [hs.worker hw] at ho
      cases ho
    · intro j _ hj
      rw [hs.poster j hj] at ho
      cases ho
    · intro hb hq
      obtain ⟨j, hj⟩ := hs.blocked hb hq
      have hne : j ≠ i := by
        rintro rfl
        simp [WillNotify, hpc] at hj
      exact ⟨j, (willNotify_update hne).mpr hj⟩
  | posterPush _ m hpc =>
    have hi : (s.posters i).holds = true := by rw [hpc]; rfl
    refine ⟨hs.worker, poster_update (fun _ => hs.poster i hi) fun j _ => hs.poster j, ?_, ?_⟩
    · intro hw
      have := hs.worker_out hi
      rw [show s.worker = .wait from hw] at this
      cases this
    · intro hb _
      by_cases hq : s.que = []
      · -- the queue was empty: this thread will find it one long
        refine ⟨i, Or.inl ⟨Function.update_self .., ?_⟩⟩
        show (s.que ++ [m]).length = 1
        rw [hq]
        rfl
      · obtain ⟨j, hj⟩ := hs.blocked hb hq
        have hne : j ≠ i := by
          rintro rfl
          simp [WillNotify, hpc] at hj
        refine ⟨j, Or.inr ?_⟩
        dsimp only
        rw [Function.update_of_ne hne]
        rcases hj with ⟨htest, -⟩ | hj
        · exact absurd (hs.alone hi (by rw [htest]; rfl)) hne
        · exact hj
  | posterTest _ hpc =>
    have hi : (s.posters i).holds = true := by rw [hpc]; rfl
    refine ⟨hs.worker, poster_update (fun _ => hs.poster i hi) fun j _ => hs.poster j, hs.wait, ?_⟩
    intro hb hq
    obtain ⟨j, hj⟩ := hs.blocked hb hq
    rcases eq_or_ne j i with rfl | hne
    · have hlen : s.que.length = 1 := by simpa [WillNotify, hpc] using hj
      exact ⟨j, Or.inr (Or.inl (by simp [hlen]))⟩
    · exact ⟨j, (willNotify_update hne).mpr hj⟩
  | posterUnlock _ notify hpc =>
    have hi : (s.posters i).holds = true := by rw [hpc]; rfl
    refine ⟨?_, poster_update (by cases notify <;> simp [PosterPc.holds]) ?_, hs.wait, ?_⟩
    · intro hw
      rw [show s.worker.holds = false from hs.worker_out hi] at hw
      cases hw
    · intro j hne hj
      exact absurd (hs.alone hi hj) hne
    · intro hb hq
      obtain ⟨j, hj⟩ := hs.blocked hb hq
      rcases eq_or_ne j i with rfl | hne
      · obtain rfl : notify = true := by simpa [WillNotify, hpc] using hj
        exact ⟨j, Or.inr (Or.inr (by simp))⟩
      · exact ⟨j, (willNotify_update hne).mpr hj⟩
  | posterNotify _ _ =>
    have hset := @Attended.setPoster μ _ (notifyOne_attended hs) i .idle
      (fun hb => absurd hb (notifyOne_awake s)) rfl
    rw [notifyOne_posters] at hset
    exact hset

/-- **Every step keeps the queue attended to**, in both copies. -/
theorem step_attended (s : Sys μ) (e : Event μ) (t : Sys μ) (hs : Attended s)
    (h : s.step leaves registered e = some t) : Attended t := by
  have hmoves := step_moves h
  cases e with
  | worker => exact worker_attended hs hmoves
  | callback returns =>
    cases hmoves with
    | callback _ draining m hpc =>
      refine hs.goto (by rw [hpc]; rfl) rfl rfl ?_
      cases returns <;> rfl
  | spurious =>
    cases hmoves with
    | spurious _ => exact hs.wake
  | post i m =>
    cases hmoves with
    | post _ _ hpc => exact hs.setPoster (fun _ => by simp [WillNotify, hpc]) rfl
  | poster i => exact poster_attended hs hmoves
  | dtor =>
    cases hmoves with
    | dtorStop _ => exact ⟨hs.worker, hs.poster, hs.wait, hs.blocked⟩
    | dtorNotify _ =>
      have hn := notifyOne_attended hs
      exact ⟨hn.worker, hn.poster, hn.wait, hn.blocked⟩
    | dtorJoin _ _ => exact ⟨hs.worker, hs.poster, hs.wait, hs.blocked⟩

/-- **No stranded message.** -/
theorem no_stranded_message {es : List (Event μ)} {s : Sys μ}
    (h : run (Sys.step leaves registered) Sys.init es = some s) (hq : s.que ≠ [])
    (hb : s.worker = .blocked) : ∃ i, WillNotify s i :=
  (run_invariant step_attended attended_init h).blocked hb hq

/-- A message pushed while the worker is blocked. -/
theorem no_stranded_message_one : ∃ s : Sys Nat, run (Sys.step true fun m => m == 7) Sys.init
      [.worker, .worker, .worker, .post 0 7, .poster 0, .poster 0] = some s ∧ s.que ≠ [] ∧
    s.worker = .blocked ∧ ∃ i, WillNotify s i :=
  ⟨_, rfl, List.cons_ne_nil 7 [], rfl, @no_stranded_message Nat true (fun m => m == 7)
    [.worker, .worker, .worker, .post 0 7, .poster 0, .poster 0] _ rfl (List.cons_ne_nil 7 []) rfl⟩

/-! ## The stop -/

/-- The destructor waits for a worker that nobody is going to wake. -/
def LostStop (s : Sys μ) : Prop :=
  s.dtor = .join ∧ s.worker = .blocked ∧ ∀ i, ¬ WillNotify s i

/-- The destructor does not notify between the worker's wait predicate and its block. -/
def StopHeard (s : Sys μ) : Event μ → Prop
  | .dtor => s.dtor = .notify → s.worker ≠ .wait
  | _ => True

/-- Once the destructor has notified, the worker is not about to block. -/
structure Heard (s : Sys μ) : Prop where
  flag : s.dtor ≠ .idle → s.bStop = true
  awake : s.dtor = .join ∨ s.dtor = .joined → s.worker ≠ .wait ∧ s.worker ≠ .blocked

theorem heard_init : Heard (Sys.init : Sys μ) where
  flag h := absurd rfl h
  awake h := by rcases h with h | h <;> cases h

/-- A step that leaves the destructor where it is, and does not put the worker to sleep. -/
theorem Heard.congr {s t : Sys μ} (hs : Heard s) (hd : t.dtor = s.dtor) (hb : t.bStop = s.bStop)
    (hw : t.worker = s.worker ∨ t.worker.asleep = false) : Heard t where
  flag h := by
    rw [hb]
    exact hs.flag (by rw [← hd]; exact h)
  awake h := by
    rcases hw with hw | hw
    · rw [hw]
      exact hs.awake (by rw [← hd]; exact h)
    · exact WorkerPc.ne_of_awake hw

theorem worker_heard {s t : Sys μ} (hs : Heard s) (h : Moves leaves registered s .worker t) :
    Heard t := by
  cases h with
  | mustWait hpc _ hb =>
    -- the flag is set before the destructor notifies
    refine ⟨hs.flag, fun hd => ?_⟩
    have hbusy : s.dtor ≠ .idle := by
      intro hidle
      rcases hd with hd | hd <;> cases hidle.symm.trans hd
    rw [hs.flag hbusy] at hb
    cases hb
  | block hpc => exact ⟨hs.flag, fun hd => absurd hpc (hs.awake hd).1⟩
  | drained _ _ =>
    refine hs.congr rfl rfl (Or.inr ?_)
    cases leaves <;> rfl
  | pop draining _ _ _ _ =>
    refine hs.congr rfl rfl (Or.inr ?_)
    cases draining <;> rfl
  | unlock exit _ =>
    refine hs.congr rfl rfl (Or.inr ?_)
    cases exit <;> rfl
  | _ => exact hs.congr rfl rfl (Or.inr rfl)

theorem notifyOne_heard {s : Sys μ} (hs : Heard s) : Heard s.notifyOne := by
  unfold Sys.notifyOne
  split
  · exact hs.congr rfl rfl (Or.inr rfl)
  · exact hs

theorem step_heard (s : Sys μ) (e : Event μ) (t : Sys μ) (hs : Heard s) (hC : StopHeard s e)
    (h : s.step leaves registered e = some t) : Heard t := by
  cases step_moves h with
  | callback returns _ _ _ =>
    refine hs.congr rfl rfl (Or.inr ?_)
    cases returns <;> rfl
  | spurious _ => exact hs.congr rfl rfl (Or.inr rfl)
  | post _ _ _ => exact hs.congr rfl rfl (Or.inl rfl)
  | posterLock _ _ _ _ => exact hs.congr rfl rfl (Or.inl rfl)
  | posterPush _ _ _ => exact hs.congr rfl rfl (Or.inl rfl)
  | posterTest _ _ => exact hs.congr rfl rfl (Or.inl rfl)
  | posterUnlock _ _ _ => exact hs.congr rfl rfl (Or.inl rfl)
  | posterNotify _ _ => exact (notifyOne_heard hs).congr rfl rfl (Or.inl rfl)
  | dtorStop _ => exact ⟨fun _ => rfl, fun hd => by rcases hd with hd | hd <;> cases hd⟩
  | dtorNotify hd =>
    have hflag : s.notifyOne.bStop = true := by
      rw [notifyOne_bStop]
      exact hs.flag (by simp [hd])
    refine ⟨fun _ => hflag, fun _ => ⟨?_, notifyOne_awake s⟩⟩
    show s.notifyOne.worker ≠ .wait
    rcases notifyOne_worker s with hw | ⟨-, hw⟩
    · rw [hw]
      exact hC hd
    · rw [hw]
      intro h
      cases h
  | dtorJoin hd _ =>
    exact ⟨fun _ => hs.flag (by simp [hd]), fun _ => hs.awake (Or.inl hd)⟩
  | _ => exact worker_heard hs (step_moves h)

/-! ### A stop that is not heard -/

/-- A step moves one thread at most. -/
theorem step_one_poster {s t : Sys μ} {e : Event μ} (h : s.step leaves registered e = some t) :
    ∃ i, ∀ j, j ≠ i → t.posters j = s.posters j := by
  cases step_moves h with
  | post i _ _ => exact ⟨i, fun j hj => Function.update_of_ne hj ..⟩
  | posterLock i _ _ _ => exact ⟨i, fun j hj => Function.update_of_ne hj ..⟩
  | posterPush i _ _ => exact ⟨i, fun j hj => Function.update_of_ne hj ..⟩
  | posterTest i _ => exact ⟨i, fun j hj => Function.update_of_ne hj ..⟩
  | posterUnlock i _ _ => exact ⟨i, fun j hj => Function.update_of_ne hj ..⟩
  | posterNotify i _ => exact ⟨i, fun j hj => Function.update_of_ne hj ..⟩
  | dtorNotify _ => exact ⟨0, fun j _ => congrFun (notifyOne_posters s) j⟩
  | _ => exact ⟨0, fun j _ => rfl⟩

/-- In a run only finitely many threads have posted. -/
theorem step_posters (s : Sys μ) (e : Event μ) (t : Sys μ)
    (hs : ∃ N, ∀ i, N ≤ i → s.posters i = .idle) (h : s.step leaves registered e = some t) :
    ∃ N, ∀ i, N ≤ i → t.posters i = .idle := by
  obtain ⟨N, hN⟩ := hs
  obtain ⟨i, hi⟩ := step_one_poster h
  refine ⟨max N (i + 1), ?_⟩
  intro j hj
  rw [hi j (by omega)]
  exact hN j (by omega)

/-- While the worker is about to block, the notifications under way come to nothing. -/
theorem notifications_wasted (N : Nat) {s : Sys μ} (hw : s.worker = .wait) :
    CanReach (Sys.step leaves registered) (fun t : Sys μ => t.worker = .wait ∧ t.dtor = s.dtor ∧
      ∀ i, (t.posters i = s.posters i ∨ t.posters i = .idle) ∧
        (i < N → t.posters i ≠ .notify)) s := by
  induction N with
  | zero => exact .here ⟨hw, rfl, fun i => ⟨Or.inl rfl, fun hi => absurd hi (Nat.not_lt_zero i)⟩⟩
  | succ N ih =>
    refine ih.trans ?_
    rintro t ⟨htw, htd, htp⟩
    by_cases hN : t.posters N = .notify
    · have hsame : t.notifyOne = t := notifyOne_eq (by simp [htw])
      refine .before (e := .poster N)
        (t := { t with posters := Function.update t.posters N .idle }) ?_ (.here ⟨htw, htd, ?_⟩)
      · simp [Sys.step, Sys.over, Sys.posterStep, htw, hN, hsame]
      · intro i
        rcases eq_or_ne i N with rfl | hne
        · simp
        · dsimp only
          rw [Function.update_of_ne hne]
          exact ⟨(htp i).1, fun hi => (htp i).2 (by omega)⟩
    · refine .here ⟨htw, htd, ?_⟩
      intro i
      refine ⟨(htp i).1, ?_⟩
      intro hi
      rcases Nat.lt_succ_iff_lt_or_eq.mp hi with hi | rfl
      · exact (htp i).2 hi
      · exact hN

/-- A notification before the block is lost. -/
theorem canReach_lostStop {s : Sys μ} (hs : Attended s) (hw : s.worker = .wait)
    (hd : s.dtor = .join) (hN : ∃ N, ∀ i, N ≤ i → s.posters i = .idle) :
    CanReach (Sys.step leaves registered) LostStop s := by
  obtain ⟨N, hN⟩ := hN
  refine (notifications_wasted N hw).trans ?_
  rintro t ⟨htw, htd, htp⟩
  refine .before (e := .worker) (t := { t with owner := none, worker := .blocked }) ?_
    (.here ⟨htd.trans hd, rfl, ?_⟩)
  · simp [Sys.step, Sys.over, Sys.workerStep, htw]
  · intro i
    -- no thread is past its push: the worker had the mutex
    have hout : (s.posters i).holds = false := by
      by_contra hi
      have := hs.worker_out (i := i) (by simpa using hi)
      rw [hw] at this
      cases this
    have hquiet : t.posters i ≠ .notify := by
      by_cases hi : i < N
      · exact (htp i).2 hi
      · have hidle : t.posters i = .idle := by
          rcases (htp i).1 with h | h
          · rw [h]
            exact hN i (by omega)
          · exact h
        rw [hidle]
        intro hc
        cases hc
    have hholds : (t.posters i).holds = false := by
      rcases (htp i).1 with h | h
      · rw [h]
        exact hout
      · rw [h]
        rfl
    rintro (⟨htest, -⟩ | hunlock | hnotify)
    · rw [show t.posters i = .test from htest] at hholds
      cases hholds
    · rw [show t.posters i = .unlock true from hunlock] at hholds
      cases hholds
    · exact hquiet hnotify

/-- **When the stop is lost**: never in a run in which the destructor does not notify between the
wait predicate and the block; and when it does, the stop can be lost from there. -/
theorem no_lost_stop {es : List (Event μ)} {s : Sys μ}
    (h : run (Sys.step leaves registered) Sys.init es = some s) :
    (Meets (Sys.step leaves registered) StopHeard Sys.init es → ¬ LostStop s) ∧
    ∀ e t, s.step leaves registered e = some t → ¬ StopHeard s e →
      CanReach (Sys.step leaves registered) LostStop t := by
  constructor
  · rintro hm ⟨hd, hb, -⟩
    exact ((run_invariant_of_meets step_heard heard_init hm h).awake (Or.inl hd)).2 hb
  · intro e t hstep hC
    have ht : Attended t := step_attended s e t (run_invariant step_attended attended_init h) hstep
    have hN := run_invariant step_posters ⟨0, fun _ _ => rfl⟩ (run_snoc h hstep)
    cases e with
    | dtor =>
      obtain ⟨hd, hw⟩ := Classical.not_imp.mp hC
      have hw : s.worker = .wait := not_not.mp hw
      have hsame : s.notifyOne = s := notifyOne_eq (by simp [hw])
      cases step_moves hstep with
      | dtorStop hd' => cases hd.symm.trans hd'
      | dtorNotify _ => exact canReach_lostStop ht ((congrArg Sys.worker hsame).trans hw) rfl hN
      | dtorJoin hd' _ => cases hd.symm.trans hd'
    | worker => exact absurd trivial hC
    | callback _ => exact absurd trivial hC
    | spurious => exact absurd trivial hC
    | post _ _ => exact absurd trivial hC
    | poster _ => exact absurd trivial hC

/-- The destructor notifies a worker that is about to block. -/
theorem no_lost_stop_wait : ∃ s : Sys Nat, run (Sys.step true fun m => m == 7) Sys.init
      [.worker, .worker, .dtor] = some s ∧
    (Meets (Sys.step true fun m => m == 7) StopHeard Sys.init [.worker, .worker, .dtor] →
      ¬ LostStop s) ∧
    ∀ e t, s.step true (fun m => m == 7) e = some t → ¬ StopHeard s e →
      CanReach (Sys.step true fun m => m == 7) LostStop t :=
  ⟨_, rfl, @no_lost_stop Nat true (fun m => m == 7) [.worker, .worker, .dtor] _ rfl⟩

/-- The worker finds the predicate false, the destructor sets the flag and notifies, and the worker
blocks: in both copies. -/
theorem stop_lost :
    (¬ ∀ (es : List (Event Nat)) (s : Sys Nat),
      run (Sys.step true fun m => m == 7) Sys.init es = some s → ¬ LostStop s) ∧
    ¬ ∀ (es : List (Event Nat)) (s : Sys Nat),
      run (Sys.step false fun m => m == 7) Sys.init es = some s → ¬ LostStop s := by
  have hquiet : ∀ i : Nat, ¬ WillNotify (⟨[], true, none, .blocked, fun _ => .idle, .join, [], [],
      [], false⟩ : Sys Nat) i := by
    rintro i (⟨h, -⟩ | h | h) <;> cases h
  constructor
  · intro h
    exact h [.worker, .worker, .dtor, .dtor, .worker] _ rfl ⟨rfl, rfl, hquiet⟩
  · intro h
    exact h [.worker, .worker, .dtor, .dtor, .worker] _ rfl ⟨rfl, rfl, hquiet⟩

end AsioLearn.LogicSystem
