import AsioLearn.Answering

/-!
# The servers come to rest

Once no client sends anything, what is left is the work of the server's own threads: the worker and
its callbacks, the handlers that are posting, and the completions of the writes. Each of these steps
takes something off a rank, so they come to an end in whatever order they are taken. Where none is
left, all that was posted has been handled, and the send queues are empty.

* The worker does not wake up by itself here, and the destructor has not begun.
* A callback that ends the process ends the run: what is said of the end is said of a process that
  still runs.
* An empty send queue means different things for the two servers. In `logicServer` every node
  accepted has been handed to the socket whole. In `BoostCoServer` a node that had to wait in the
  queue is popped after a write of no byte (`BoostCoServer.handed_whole_iff`).

Results:
* `servers_settle`: the steps left are bounded, and at their end every message posted has been
  handled, and no session has anything left in its send queue unless a write of it failed.
-/

namespace AsioLearn

open AsioLearn.Cpp AsioLearn.Wire AsioLearn.LogicSystem AsioLearn.Lib.Lts

variable {κ ε : Type} {S : Server κ ε} {J : JsonCpp}

/-! ## The send sides -/

/-- What is known of the completions of a send side. -/
structure Completes (S : Server κ ε) extends Accepts S where
  /-- What holds in every state it can reach. -/
  ok : κ → Prop
  /-- The completions still to come, at most. -/
  load : κ → Nat
  /-- Nothing is left to be written. -/
  finished : κ → Prop
  /-- A write has completed with an error. -/
  failed : κ → Prop
  ok_empty : ok empty
  load_empty : load empty = 0
  send_load : ∀ {s t msg msgid}, ok s → S.send s msg msgid = .ok t → ok t ∧ load t ≤ load s + 3
  completion_load : ∀ {s e t}, ok s → completion e → S.sessionStep s e = some t →
    ok t ∧ load t < load s
  rest_finished : ∀ {s}, ok s → (∀ e, completion e → S.sessionStep s e = none) → ¬ failed s →
    finished s

/-- `logicServer`: the queue is empty, no write is outstanding, and all that was accepted has been
handed to the socket, every node whole. -/
structure LogicServer.SendSide.Finished (s : LogicServer.SendSide) : Prop where
  queue : s.sendQue = []
  outstanding : s.outstanding = []
  handed : s.started.flatMap Write.bytes = s.accepted.flatMap fun n => n.buffer

/-- `BoostCoServer`: the queue is empty, and no write is outstanding or about to be started. -/
structure BoostCoServer.SendSide.Finished (s : BoostCoServer.SendSide) : Prop where
  queue : s.sendQue = []
  outstanding : s.outstanding = []
  pending : s.pending = []

/-- The completions left in `logicServer`. -/
def LogicServer.SendSide.load (s : LogicServer.SendSide) : Nat :=
  s.sendQue.length + s.outstanding.length

/-- The completions left in `BoostCoServer`, the second halves of `HandleWrite` among them. -/
def BoostCoServer.SendSide.load (s : BoostCoServer.SendSide) : Nat :=
  2 * s.sendQue.length + s.outstanding.length + 2 * s.pending.length

/-- What a call of `Send` that returns has done. -/
theorem callerView_cases {s t : κ} {sendQueSize : Nat} {node : Except Fault SendNode}
    {after : Option κ} (h : callerView s sendQueSize node after = .ok t) :
    t = s ∨ after = some t := by
  by_cases hfull : maxSendque < sendQueSize
  · have hsame : callerView s sendQueSize node after = .ok s := if_pos hfull
    exact Or.inl (Except.ok.inj (hsame.symm.trans h)).symm
  · exact Or.inr (callerView_room hfull h).choose_spec.2

theorem LogicServer.sendNode_load {s t : LogicServer.SendSide} {node : Except Fault SendNode}
    (h : s.sendNode node = some t) : t.load ≤ s.load + 3 := by
  unfold LogicServer.SendSide.load
  rcases LogicServer.sendNode_cases h with rfl | ⟨n, -, -, ⟨-, rfl⟩ | ⟨hnil, rfl⟩⟩
  · omega
  · dsimp only
    rw [List.length_append, List.length_singleton]
    omega
  · rw [LogicServer.asyncWrite_outstanding]
    simp only [LogicServer.SendSide.asyncWrite, List.length_append, List.length_singleton]
    omega

theorem LogicServer.written_load {s t : LogicServer.SendSide} {i : Nat} (hs : s.Ok)
    (h : s.step (.written i) = some t) : t.load < s.load := by
  obtain ⟨hi, h⟩ := LogicServer.step_written h
  obtain ⟨n, q, hq, ho, herase⟩ := hs.single hi
  rw [herase] at h
  obtain ⟨node, rest, hq', hcases⟩ := LogicServer.handleWrite_cases h
  obtain ⟨rfl, rfl⟩ : n = node ∧ q = rest := List.cons.inj (hq.symm.trans hq')
  unfold LogicServer.SendSide.load
  rw [hq, ho]
  rcases hcases with ⟨rfl, rfl⟩ | ⟨next, more, rfl, rfl⟩
  · simp
  · simp [LogicServer.SendSide.asyncWrite]

theorem LogicServer.failed_load {s t : LogicServer.SendSide} {i : Nat} {closeThrows : Bool}
    (h : s.step (.failed i closeThrows) = some t) : t.load < s.load := by
  obtain ⟨hi, rfl⟩ := LogicServer.step_failed h
  have herase := List.length_eraseIdx_of_lt hi
  unfold LogicServer.SendSide.load
  cases closeThrows <;>
  · simp only [LogicServer.SendSide.handleWriteError, if_true, Bool.false_eq_true, if_false,
      herase]
    omega

/-- `logicServer`. -/
def LogicServer.completes : Completes logicServer where
  toAccepts := LogicServer.accepts
  ok := LogicServer.SendSide.Ok
  load := LogicServer.SendSide.load
  finished := LogicServer.SendSide.Finished
  failed s := s.failed = true
  ok_empty := LogicServer.ok_empty
  load_empty := rfl
  send_load {s t msg msgid} hs h := by
    rcases callerView_cases h with rfl | hafter
    · exact ⟨hs, Nat.le_add_right _ 3⟩
    · exact ⟨(LogicServer.sendNode_refines hs hafter).1, LogicServer.sendNode_load hafter⟩
  completion_load {s e t} hs he h := by
    refine ⟨(LogicServer.step_refines s e t hs h).1, ?_⟩
    cases e with
    | send _ _ _ => exact he.elim
    | sendString _ _ => exact he.elim
    | written i => exact LogicServer.written_load hs h
    | failed i closeThrows => exact LogicServer.failed_load h
  rest_finished {s} hs hrest hbroken := by
    have hfree : s.outstanding = [] := by
      by_contra hne
      have hsome := LogicServer.handleWrite_defined hs (List.length_pos_iff.mpr hne)
      have hnone : s.step (.written 0) = none := hrest (.written 0) trivial
      rw [hnone] at hsome
      cases hsome
    have hq : s.sendQue = [] := by
      by_contra hne
      have hbusy : (!s.outstanding.isEmpty) = true :=
        hs.sound.busy.mpr ⟨hne, Bool.eq_false_iff.mpr hbroken⟩
      rw [hfree] at hbusy
      cases hbusy
    refine ⟨hq, hfree, ?_⟩
    have hacc := hs.accepted
    rw [hq, List.append_nil] at hacc
    rw [hs.started, hq, List.take_nil, List.append_nil, List.flatMap_map, hacc]

theorem BoostCoServer.send_load {heap : Nat → Nat → UInt8} {s t : BoostCoServer.SendSide}
    {msg : List UInt8} {maxLen msgid : Int16} (h : s.send heap msg maxLen msgid = some t) :
    t.load ≤ s.load + 3 := by
  unfold BoostCoServer.SendSide.load
  rcases BoostCoServer.send_cases h with rfl | ⟨n, -, -, ⟨-, rfl⟩ | ⟨hnil, rfl⟩⟩
  · omega
  · simp only [BoostCoServer.SendSide.emplace, List.length_append, List.length_singleton]
    omega
  · simp only [BoostCoServer.SendSide.emplace, BoostCoServer.SendSide.asyncWrite,
      List.length_append, List.length_singleton]
    omega

theorem BoostCoServer.completion_load {heap : Nat → Nat → UInt8} {s t : BoostCoServer.SendSide}
    {e : BoostCoServer.SendEvent} (he : e.isCompletion) (h : s.step heap e = some t) :
    t.load < s.load := by
  unfold BoostCoServer.SendSide.load
  cases e with
  | send _ _ _ => exact he.elim
  | sendString _ _ => exact he.elim
  | written i =>
    obtain ⟨hi, node, rest, hq, ⟨-, rfl⟩ | ⟨next, more, rfl, rfl⟩⟩ := BoostCoServer.written_cases h
    · have herase := List.length_eraseIdx_of_lt hi
      simp only [hq, herase, List.length_cons, List.length_nil]
      omega
    · have herase := List.length_eraseIdx_of_lt hi
      simp only [hq, herase, List.length_cons, List.length_append, List.length_nil]
      omega
  | startPending i =>
    obtain ⟨n, hn, rfl⟩ := BoostCoServer.startPending_cases h
    obtain ⟨hi, -⟩ := List.getElem?_eq_some_iff.mp hn
    have herase := List.length_eraseIdx_of_lt hi
    simp only [BoostCoServer.SendSide.asyncWrite, herase, List.length_append, List.length_singleton]
    omega
  | failed i =>
    obtain ⟨hi, rfl⟩ := BoostCoServer.failed_cases h
    have herase := List.length_eraseIdx_of_lt hi
    simp only [BoostCoServer.SendSide.handleWriteError, herase]
    omega

/-- `BoostCoServer`. -/
def BoostCoServer.completes (heap : Nat → Nat → UInt8) : Completes (boostCoServer heap) where
  toAccepts := BoostCoServer.accepts heap
  ok := BoostCoServer.SendSide.Ok
  load := BoostCoServer.SendSide.load
  finished := BoostCoServer.SendSide.Finished
  failed s := s.failed = true
  ok_empty := BoostCoServer.ok_empty
  load_empty := rfl
  send_load {s t msg msgid} hs h := by
    rcases callerView_cases h with rfl | hafter
    · exact ⟨hs, Nat.le_add_right _ 3⟩
    · exact ⟨(BoostCoServer.send_refines hs hafter).1, BoostCoServer.send_load hafter⟩
  completion_load {s e t} hs he h :=
    ⟨(BoostCoServer.step_refines s e t hs h).1, BoostCoServer.completion_load he h⟩
  rest_finished {s} hs hrest hbroken := by
    have hidle : s.outstanding = [] ∧ s.pending = [] := by
      cases hs.active with
      | idle ho hp => exact ⟨ho, hp⟩
      | writing n q bytes hq ho hp =>
        have hnone : s.step heap (.written 0) = none := hrest (.written 0) trivial
        cases q <;> simp [BoostCoServer.SendSide.step, BoostCoServer.SendSide.handleWrite, ho, hq]
          at hnone
      | window n q hq ho hp =>
        have hnone : s.step heap (.startPending 0) = none := hrest (.startPending 0) trivial
        simp [BoostCoServer.SendSide.step, BoostCoServer.SendSide.startPending, hp] at hnone
    have hq : s.sendQue = [] := by
      by_contra hne
      have hbusy : (!(s.outstanding.isEmpty && s.pending.isEmpty)) = true :=
        hs.sound.busy.mpr ⟨hne, Bool.eq_false_iff.mpr hbroken⟩
      rw [hidle.1, hidle.2] at hbusy
      cases hbusy
    exact ⟨hq, hidle.1, hidle.2⟩

/-! ## Whole servers -/

/-- The steps a server takes by itself. -/
def WorldEvent.internal : WorldEvent ε → Bool
  | .logic .worker | .logic (.poster _) | .callback | .session _ _ => true
  | .logic _ => false

/-- The sessions from `N` on have had nothing to do. -/
structure Within (C : Completes S) (N : Nat) (w : World κ) : Prop where
  idle : ∀ i, N ≤ i → w.logic.posters i = .idle ∧ C.load (w.sends i) = 0
  que : ∀ m ∈ w.logic.que, m.session < N

/-- A bound on the steps that are left. -/
def World.work (C : Completes S) (N : Nat) (w : World κ) : Nat :=
  w.logic.work N + ∑ i ∈ Finset.range N, C.load (w.sends i)

/-- What holds in the runs. -/
structure Steady (C : Completes S) (J : JsonCpp) (w : World κ) : Prop where
  answering : Answering C.toAccepts J w
  ownHands : OwnHands w.logic
  attended : Attended w.logic
  owned : Owned w.logic
  unstopped : w.logic.dtor = .idle → Unstopped w.logic
  ok : ∀ i, C.ok (w.sends i)
  within : ∃ N, Within C N w

theorem steady_init (C : Completes S) : Steady C J ⟨Sys.init, fun _ => C.empty⟩ where
  answering := answering_init C.toAccepts
  ownHands _ _ hm := absurd hm List.not_mem_nil
  attended := attended_init
  owned := owned_init
  unstopped _ := ⟨rfl, rfl⟩
  ok _ := C.ok_empty
  within := ⟨0, fun _ _ => ⟨rfl, C.load_empty⟩, fun _ hm => absurd hm List.not_mem_nil⟩

theorem Within.mono {C : Completes S} {w : World κ} {N N' : Nat} (h : Within C N w)
    (hle : N ≤ N') : Within C N' w :=
  ⟨fun i hi => h.idle i (le_trans hle hi), fun m hm => lt_of_lt_of_le (h.que m hm) hle⟩

/-- A step that posts nothing concerns the same sessions. -/
theorem within_logic {C : Completes S} {w : World κ} {N : Nat} {leaves : Bool}
    {l : Sys LogicNode} {e : Event LogicNode} (h : Within C N w) (hown : OwnHands w.logic)
    (hpost : ∀ k m, e ≠ .post k m) (hmoves : Moves leaves LogicNode.registered w.logic e l) :
    Within C N { w with logic := l } := by
  have hset : ∀ {i pc pc'}, w.logic.posters i = pc → pc ≠ .idle →
      ∀ j, N ≤ j → Function.update w.logic.posters i pc' j = .idle := by
    rintro i pc pc' hi hne j hj
    rw [Function.update_of_ne]
    · exact (h.idle j hj).1
    · rintro rfl
      exact hne (hi.symm.trans (h.idle j hj).1)
  cases hmoves with
  | post k m _ => exact absurd rfl (hpost k m)
  | posterLock i m hi _ => exact ⟨fun j hj => ⟨hset hi nofun j hj, (h.idle j hj).2⟩, h.que⟩
  | posterPush i m hi =>
    refine ⟨fun j hj => ⟨hset hi nofun j hj, (h.idle j hj).2⟩, fun m' hm' => ?_⟩
    rcases List.mem_append.mp hm' with hm' | hm'
    · exact h.que m' hm'
    · obtain rfl := List.mem_singleton.mp hm'
      rw [hown i m' (by rw [hi]; exact List.mem_singleton_self m')]
      by_contra hlt
      have hidle := (h.idle i (not_lt.mp hlt)).1
      rw [hi] at hidle
      cases hidle
  | posterTest i hi => exact ⟨fun j hj => ⟨hset hi nofun j hj, (h.idle j hj).2⟩, h.que⟩
  | posterUnlock i notify hi => exact ⟨fun j hj => ⟨hset hi nofun j hj, (h.idle j hj).2⟩, h.que⟩
  | posterNotify i hi =>
    refine ⟨fun j hj => ⟨hset hi nofun j hj, (h.idle j hj).2⟩, ?_⟩
    show ∀ m ∈ w.logic.notifyOne.que, _
    rw [notifyOne_que]
    exact h.que
  | dtorNotify _ =>
    refine ⟨fun j hj => ⟨?_, (h.idle j hj).2⟩, ?_⟩
    · exact (congrArg (fun p => p j) (notifyOne_posters w.logic)).trans (h.idle j hj).1
    · show ∀ m ∈ w.logic.notifyOne.que, _
      rw [notifyOne_que]
      exact h.que
  | pop draining m rest hpc hq =>
    exact ⟨h.idle, fun m' hm' => h.que m' (by rw [hq]; exact List.mem_cons_of_mem m hm')⟩
  | _ => exact ⟨h.idle, h.que⟩

/-- The session the callback answers is one of those that have had something to do. -/
theorem Within.dealt {C : Completes S} {w : World κ} {N : Nat} (h : Within C N w)
    (hin : InOrder w.logic) {draining : Bool} {m : LogicNode}
    (hpc : w.logic.worker = .deal draining m) : m.session < N := by
  have hfront := hin.front
  rw [hpc] at hfront
  exact h.que m (List.mem_of_mem_head? (Option.mem_def.mpr hfront.1))

/-- A completion belongs to such a session. -/
theorem Within.completed {C : Completes S} {w : World κ} {N i : Nat} (h : Within C N w) {s : κ}
    (hload : C.load s < C.load (w.sends i)) : i < N := by
  by_contra hlt
  rw [(h.idle i (not_lt.mp hlt)).2] at hload
  exact Nat.not_lt_zero _ hload

theorem within_sends {C : Completes S} {w : World κ} {N i : Nat} (h : Within C N w) (hi : i < N)
    (s : κ) {l : Sys LogicNode} (hposters : l.posters = w.logic.posters)
    (hque : l.que = w.logic.que) : Within C N ⟨l, Function.update w.sends i s⟩ := by
  refine ⟨fun j hj => ⟨?_, ?_⟩, ?_⟩
  · show l.posters j = .idle
    rw [hposters]
    exact (h.idle j hj).1
  · show C.load (Function.update w.sends i s j) = 0
    rw [Function.update_of_ne (Nat.ne_of_gt (lt_of_lt_of_le hi hj))]
    exact (h.idle j hj).2
  · show ∀ m ∈ l.que, m.session < N
    rw [hque]
    exact h.que

/-- The worker leaves the callback with the mutex. -/
theorem attended_callback {s : Sys LogicNode} {draining : Bool} {m : LogicNode}
    (ha : Attended s) (ho : Owned s) (hpc : s.worker = .deal draining m)
    {pc : WorkerPc LogicNode} (hend : pc = .pop draining ∨ pc = .terminated ∨ pc = .fault) :
    Attended { s with worker := pc } ∧ Owned { s with worker := pc } := by
  have hholds : s.worker.holds = true := by
    rw [hpc]
    rfl
  have hawake : pc.asleep = false ∧ pc.holds = true := by
    rcases hend with rfl | rfl | rfl <;> exact ⟨rfl, rfl⟩
  exact ⟨ha.goto hholds rfl rfl hawake.1, ho.goto rfl rfl hawake.2⟩

theorem unstopped_callback {s : Sys LogicNode} {draining : Bool} {m : LogicNode}
    (hu : s.dtor = .idle → Unstopped s) (hpc : s.worker = .deal draining m)
    {pc : WorkerPc LogicNode} (hend : pc = .pop draining ∨ pc = .terminated ∨ pc = .fault) :
    s.dtor = .idle → Unstopped { s with worker := pc } := by
  intro hidle
  obtain ⟨hb, hd⟩ := hu hidle
  rw [hpc] at hd
  rcases hend with rfl | rfl | rfl
  · exact ⟨hb, hd⟩
  · exact ⟨hb, rfl⟩
  · exact ⟨hb, rfl⟩

theorem steady_step (hJ : J.Documented) (C : Completes S) (w : World κ) (e : WorldEvent ε)
    (t : World κ) (hw : Steady C J w) (he : e.Own ∧ C.Quiet e) (h : w.step S J e = some t) :
    Steady C J t := by
  obtain ⟨N, hN⟩ := hw.within
  have hans := (answering_step hJ C.toAccepts w e t hw.answering he.2 h).1
  have hhands := (arrived_step w e t hw.ownHands he.1 h).1
  have hin := hw.answering.inOrder
  cases world_moves h with
  | logic e l hcallback hl =>
    have hmoves := step_moves hl
    refine ⟨hans, hhands, step_attended _ e _ hw.attended hl, owned_moves hw.owned hmoves,
      unstopped_moves hw.unstopped hmoves, hw.ok, ?_⟩
    by_cases hpost : ∃ k m, e = .post k m
    · obtain ⟨k, m, rfl⟩ := hpost
      cases hmoves with
      | post _ _ hi =>
        have hmax := hN.mono (le_max_left N (k + 1))
        refine ⟨max N (k + 1), fun j hj => ⟨?_, (hmax.idle j hj).2⟩, hmax.que⟩
        have hne : j ≠ k := by
          have := le_trans (le_max_right N (k + 1)) hj
          omega
        exact (Function.update_of_ne hne ..).trans (hmax.idle j hj).1
    · exact ⟨N, within_logic hN hw.ownHands (fun k m hk => hpost ⟨k, m, hk⟩) hmoves⟩
  | answer draining m s hpc hs =>
    obtain ⟨ha, ho⟩ := attended_callback hw.attended hw.owned hpc (Or.inl rfl)
    refine ⟨hans, hhands, ha, ho, unstopped_callback hw.unstopped hpc (Or.inl rfl), fun i => ?_,
      N, within_sends hN (hN.dealt hin hpc) s rfl rfl⟩
    show C.ok (Function.update w.sends m.session s i)
    by_cases hi : i = m.session
    · rw [hi, Function.update_self]
      exact (C.send_load (hw.ok m.session) (returns_send hJ hs).2).1
    · rw [Function.update_of_ne hi]
      exact hw.ok i
  | harmful draining m pc hpc hend hs =>
    obtain ⟨ha, ho⟩ := attended_callback hw.attended hw.owned hpc (Or.inr hend)
    exact ⟨hans, hhands, ha, ho, unstopped_callback hw.unstopped hpc (Or.inr hend), hw.ok,
      N, hN.idle, hN.que⟩
  | session i e s hs =>
    obtain ⟨hok, hload⟩ := C.completion_load (hw.ok i) he.2 hs
    refine ⟨hans, hhands, hw.attended, hw.owned, hw.unstopped, fun j => ?_,
      N, within_sends hN (hN.completed hload) s rfl rfl⟩
    show C.ok (Function.update w.sends i s j)
    by_cases hj : j = i
    · rw [hj, Function.update_self]
      exact hok
    · rw [Function.update_of_ne hj]
      exact hw.ok j

/-- **A step of the server's own takes some work off**, and stays within the same sessions. -/
theorem internal_step (hJ : J.Documented) {C : Completes S} {w t : World κ} {e : WorldEvent ε}
    {N : Nat} (hw : Steady C J w) (hN : Within C N w) (he : e.internal = true) (hq : C.Quiet e)
    (h : w.step S J e = some t) : Within C N t ∧ t.work C N < w.work C N := by
  have hin := hw.answering.inOrder
  unfold World.work
  cases world_moves h with
  | logic e l hcallback hl =>
    have hmoves := step_moves hl
    have hpost : ∀ k m, e ≠ .post k m := by
      rintro k m rfl
      cases he
    refine ⟨within_logic hN hw.ownHands hpost hmoves, Nat.add_lt_add_right ?_ _⟩
    cases e with
    | worker => exact worker_work N hmoves
    | poster i =>
      refine poster_work ?_ hmoves
      by_contra hlt
      have hidle := (hN.idle i (not_lt.mp hlt)).1
      simp [Sys.step, Sys.posterStep, hidle] at hl
    | _ => cases he
  | answer draining m s hpc hs =>
    have hi := hN.dealt hin hpc
    have hload := (C.send_load (hw.ok m.session) (returns_send hJ hs).2).2
    have hpop : WorkerPc.work (.pop draining : WorkerPc LogicNode) ≤ 4 := le_refl 4
    have hdeal := deal_work N hpc hpop
    have hsum := sum_range_update C.load w.sends s hi
    refine ⟨within_sends hN hi s rfl rfl, ?_⟩
    dsimp only
    omega
  | harmful draining m pc hpc hend hs =>
    have hwork : pc.work ≤ 4 := by
      rcases hend with rfl | rfl <;> exact Nat.zero_le 4
    have hdeal := deal_work N hpc hwork
    refine ⟨⟨hN.idle, hN.que⟩, ?_⟩
    dsimp only
    omega
  | session i e s hs =>
    obtain ⟨hok, hload⟩ := C.completion_load (hw.ok i) hq hs
    have hi := hN.completed hload
    have hsum := sum_range_update C.load w.sends s hi
    refine ⟨within_sends hN hi s rfl rfl, ?_⟩
    dsimp only
    omega

/-- No step of the server's own is possible. -/
def Rested (C : Completes S) (J : JsonCpp) (w : World κ) : Prop :=
  ∀ e : WorldEvent ε, e.internal = true → C.Quiet e → w.step S J e = none

/-- At rest the worker waits for messages, and no handler is posting. -/
theorem Rested.logic {C : Completes S} {w : World κ} (hrest : Rested C J w) (hw : Steady C J w)
    (hidle : w.logic.dtor = .idle) (hover : w.logic.over = false) :
    w.logic.que = [] ∧ w.logic.worker = .blocked ∧ ∀ i, w.logic.posters i = .idle := by
  have hdeal : ∀ draining m, w.logic.worker ≠ .deal draining m := by
    intro draining m hpc
    have hnone := hrest .callback rfl trivial
    simp only [World.step, World.callbackStep, hpc] at hnone
    split at hnone <;> cases hnone
  exact (hw.unstopped hidle).settled_logic hw.attended hw.owned hover hdeal
    (Option.map_eq_none_iff.mp (hrest (.logic .worker) rfl trivial))
    fun i => Option.map_eq_none_iff.mp (hrest (.logic (.poster i)) rfl trivial)

/-- At rest the writes of a session are over. -/
theorem Rested.finished {C : Completes S} {w : World κ} (hrest : Rested C J w)
    (hw : Steady C J w) (hover : w.logic.over = false) (i : Nat) (hi : ¬ C.failed (w.sends i)) :
    C.finished (w.sends i) := by
  refine C.rest_finished (hw.ok i) (fun e he => ?_) hi
  have hnone := hrest (.session i e) rfl he
  simp only [World.step, hover, Bool.false_eq_true, if_false] at hnone
  exact Option.map_eq_none_iff.mp hnone

/-- Steps of the server's own post nothing. -/
theorem WorldEvent.posts_internal {e : WorldEvent ε} (h : e.internal = true) :
    e.Own ∧ ∀ i, e.posts i = [] := by
  match e, h with
  | .logic .worker, _ => exact ⟨trivial, fun _ => rfl⟩
  | .logic (.poster _), _ => exact ⟨trivial, fun _ => rfl⟩
  | .callback, _ => exact ⟨trivial, fun _ => rfl⟩
  | .session _ _, _ => exact ⟨trivial, fun _ => rfl⟩

/-- The destructor is not begun by the steps of the server's own. -/
theorem dtor_internal {w t : World κ} {e : WorldEvent ε} (he : e.internal = true)
    (h : w.step S J e = some t) : t.logic.dtor = w.logic.dtor := by
  have hnotified : w.logic.notifyOne.dtor = w.logic.dtor := by
    unfold Sys.notifyOne
    split <;> rfl
  cases world_moves h with
  | logic e l hcallback hl =>
    match e, he with
    | .worker, _ =>
      cases step_moves hl <;> rfl
    | .poster i, _ =>
      cases step_moves hl with
      | posterNotify _ _ => exact hnotified
      | _ => rfl
  | _ => rfl

/-- After any run, once the clients are silent: the steps of the server's own are bounded, and at
their end every message posted to the worker has been handled, and no session has anything left to
be written unless a write of it failed. -/
def Settles (C : Completes S) (J : JsonCpp) : Prop :=
  ∀ es w, run (World.step S J) ⟨Sys.init, fun _ => C.empty⟩ es = some w →
    (∀ e ∈ es, e.Own ∧ C.Quiet e) → w.logic.dtor = .idle →
    ∃ bound, ∀ fs w', (∀ e ∈ fs, e.internal = true ∧ C.Quiet e) →
      run (World.step S J) w fs = some w' →
      fs.length ≤ bound ∧ (Rested C J w' → w'.logic.over = false →
        w'.logic.worker = .blocked ∧ ∀ i,
          w'.handled i = (postedBy i es).filter LogicNode.registered ∧
            (¬ C.failed (w'.sends i) → C.finished (w'.sends i)))

theorem settles (hJ : J.Documented) (C : Completes S) : Settles C J := by
  intro es w h hes hidle
  have hw : Steady C J w :=
    run_invariant_of_meets (fun s e t hs he hstep => steady_step hJ C s e t hs he hstep)
      (steady_init C) (meets_of_forall hes) h
  obtain ⟨N, hN⟩ := hw.within
  refine ⟨w.work C N, fun fs w' hfs hrun => ?_⟩
  have hstep : ∀ s (e : WorldEvent ε) t,
      Steady C J s ∧ Within C N s ∧ s.logic.dtor = .idle → e.internal = true ∧ C.Quiet e →
      s.step S J e = some t →
      (Steady C J t ∧ Within C N t ∧ t.logic.dtor = .idle) ∧ t.work C N < s.work C N := by
    rintro s e t ⟨hs, hsN, hd⟩ ⟨he, hq⟩ hst
    obtain ⟨ht, hlt⟩ := internal_step hJ hs hsN he hq hst
    have hown := (WorldEvent.posts_internal he).1
    exact ⟨⟨steady_step hJ C s e t hs ⟨hown, hq⟩ hst, ht, (dtor_internal he hst).trans hd⟩, hlt⟩
  obtain ⟨⟨hw', -, hd'⟩, hlen⟩ := run_ranked hstep ⟨hw, hN, hidle⟩ hfs hrun
  refine ⟨le_trans (Nat.le_add_right _ _) hlen, fun hrest hover => ?_⟩
  obtain ⟨hque, hblocked, hposters⟩ := hrest.logic hw' hd' hover
  refine ⟨hblocked, fun i => ⟨?_, hrest.finished hw' hover i⟩⟩
  have hall : run (World.step S J) ⟨Sys.init, fun _ => C.empty⟩ (es ++ fs) = some w' := by
    rw [run_append, h]
    exact hrun
  have hquiet : ∀ e ∈ es ++ fs, e.Own ∧ C.Quiet e := by
    intro e he
    rcases List.mem_append.mp he with he | he
    · exact hes e he
    · exact ⟨(WorldEvent.posts_internal (hfs e he).1).1, (hfs e he).2⟩
  have hnone : postedBy i fs = [] :=
    List.flatMap_eq_nil_iff.mpr fun e he => (WorldEvent.posts_internal (hfs e he).1).2 i
  have hposted : postedBy i (es ++ fs) = postedBy i es := by
    unfold postedBy at hnone ⊢
    rw [List.flatMap_append, hnone, List.append_nil]
  rw [← hposted]
  exact (answersInOrder hJ C.toAccepts (es ++ fs) w' hall hquiet i).2.1 hque (hposters i)

/-- **Both servers come to rest**, and then everything posted has been handled, and the send queues
are empty: in `logicServer` all that was accepted has been handed to the socket. -/
theorem servers_settle (hJ : J.Documented) (heap : Nat → Nat → UInt8) :
    Settles LogicServer.completes J ∧ Settles (BoostCoServer.completes heap) J :=
  ⟨settles hJ _, settles hJ _⟩

/-- A request on its way to its callback, in either server. -/
theorem servers_settle_hello :
    (∃ w, run (World.step logicServer sampleJson) ⟨Sys.init, fun _ => .empty⟩ (dealtEvents _) =
        some w ∧
      ∃ bound, ∀ fs w', (∀ e ∈ fs, e.internal = true ∧ LogicServer.completes.Quiet e) →
        run (World.step logicServer sampleJson) w fs = some w' → fs.length ≤ bound ∧
          (Rested LogicServer.completes sampleJson w' → w'.logic.over = false →
            w'.logic.worker = .blocked ∧ ∀ i,
              w'.handled i = (postedBy i (dealtEvents LogicServer.SendEvent)).filter
                LogicNode.registered ∧
              (¬ (w'.sends i).failed = true → (w'.sends i).Finished))) ∧
    ∃ w, run (World.step (boostCoServer fun _ _ => 0) sampleJson) ⟨Sys.init, fun _ => .empty⟩
        (dealtEvents _) = some w ∧
      ∃ bound, ∀ fs w', (∀ e ∈ fs, e.internal = true ∧
          (BoostCoServer.completes fun _ _ => 0).Quiet e) →
        run (World.step (boostCoServer fun _ _ => 0) sampleJson) w fs = some w' →
        fs.length ≤ bound ∧
          (Rested (BoostCoServer.completes fun _ _ => 0) sampleJson w' → w'.logic.over = false →
            w'.logic.worker = .blocked ∧ ∀ i,
              w'.handled i = (postedBy i (dealtEvents BoostCoServer.SendEvent)).filter
                LogicNode.registered ∧
              (¬ (w'.sends i).failed = true → (w'.sends i).Finished)) := by
  have hevents : ∀ {κ ε : Type} {S : Server κ ε} (C : Completes S),
      ∀ e ∈ dealtEvents ε, e.Own ∧ C.Quiet e := by
    intro κ ε S C e he
    simp only [dealtEvents, List.mem_append, List.mem_singleton, List.mem_replicate] at he
    rcases he with (rfl | ⟨-, rfl⟩) | ⟨-, rfl⟩ <;> exact ⟨by trivial, trivial⟩
  refine ⟨⟨_, rfl, ?_⟩, _, rfl, ?_⟩
  · exact (servers_settle sampleJson_documented fun _ _ => 0).1 (dealtEvents _) _ rfl
      (hevents LogicServer.completes) rfl
  · exact (servers_settle sampleJson_documented fun _ _ => 0).2 (dealtEvents _) _ rfl
      (hevents (BoostCoServer.completes fun _ _ => 0)) rfl

end AsioLearn
