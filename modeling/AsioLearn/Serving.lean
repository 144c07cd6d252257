import AsioLearn.HelloWord
import AsioLearn.Dispatch
import AsioLearn.LogicServer.SendQueue
import AsioLearn.BoostCoServer.SendQueue

/-!
# The logic worker and what it runs

`LogicSystem`, with the callback it runs for a message and the send queues of the sessions the
callback answers to, for either server (`Server`). The outcome of a callback is no event of its own
any more (`Event.callback`): it is that of `helloWordCallBack` on the payload of the message.

* `DealMsg` has no `try` block: an exception of the callback, or of the string made for it, leaves
  the worker thread, and with it the process ends (`WorkerPc.terminated`). After undefined behaviour
  it ends as well (`.fault`).
* The sessions' other steps (completed writes, calls of `Send` from elsewhere) may come between any
  two steps of the worker. A callback is one step.

Results:
* `finishes_iff`: the worker finishes a message and goes on to the next one exactly when the message
  is harmless.
* `unharmed_iff`: no state of a run has been ended by a callback exactly when the worker meets only
  harmless messages in it.
* **`no_poison_iff`**: both, for both servers.
-/

namespace AsioLearn

open AsioLearn.Cpp AsioLearn.Wire AsioLearn.LogicSystem AsioLearn.Lib.Lts

/-! ## `Send` as its caller sees it -/

/-- The constructor of the `SendNode` makes a node of a text of this length. -/
def Sendable (length : Nat) : Prop :=
  0 ≤ (short length).toInt ∧ (short length).toInt + headTotalLen < 2 ^ 15

instance (length : Nat) : Decidable (Sendable length) := inferInstanceAs (Decidable (_ ∧ _))

/-- The caller of `Send` gets the exceptions of the constructor of the node; `after` is the send
side it leaves. -/
def callerView {κ : Type} (s : κ) (sendQueSize : Nat) (node : Except Fault SendNode)
    (after : Option κ) : Except Fault κ :=
  if maxSendque < sendQueSize then .ok s
  else
    match node with
    | .error f => .error f
    | .ok _ =>
      match after with
      | some t => .ok t
      | none => .error .outOfBounds

theorem sendNode_ok_iff {init : Nat → UInt8} {msg : List UInt8} {msgid : Int16} :
    (∃ n, SendNode.new init (msg ++ [0]) (short msg.length) msgid = .ok n) ↔
      Sendable msg.length := by
  constructor
  · rintro ⟨n, hn⟩
    obtain ⟨h0, h1, -⟩ := sendNode_cases hn
    exact ⟨h0, h1⟩
  · rintro ⟨h0, h1⟩
    have hlen : (short msg.length).toInt.toNat ≤ (msg ++ [0]).length := by
      have heq := short_toInt_eq msg.length
      rw [List.length_append]
      omega
    obtain ⟨n, hn, -⟩ := @sendNode_ok init (msg ++ [0]) (short msg.length) msgid h0 h1 hlen
    exact ⟨n, hn⟩

theorem callerView_ok_iff {κ : Type} {s : κ} {sendQueSize : Nat} {node : Except Fault SendNode}
    {after : Option κ}
    (hafter : ∀ n, node = .ok n → ¬ maxSendque < sendQueSize → ∃ t, after = some t) :
    (∃ t, callerView s sendQueSize node after = .ok t) ↔
      maxSendque < sendQueSize ∨ ∃ n, node = .ok n := by
  unfold callerView
  by_cases hfull : maxSendque < sendQueSize
  · simp [hfull]
  · simp only [hfull, if_false, false_or]
    cases hnode : node with
    | error f => simp
    | ok n =>
      obtain ⟨t, ht⟩ := hafter n hnode hfull
      simp [ht]

/-- `Send(text, id)` of `logicServer`, called from a callback. -/
def LogicServer.SendSide.call (s : LogicServer.SendSide) (msg : List UInt8) (msgid : Int16) :
    Except Fault LogicServer.SendSide :=
  callerView s s.sendQue.length (SendNode.new (fun _ => 0) (msg ++ [0]) (short msg.length) msgid)
    (s.sendString msg msgid)

/-- `Send(text, id)` of `BoostCoServer`, called from a callback. -/
def BoostCoServer.SendSide.call (heap : Nat → Nat → UInt8) (s : BoostCoServer.SendSide)
    (msg : List UInt8) (msgid : Int16) : Except Fault BoostCoServer.SendSide :=
  callerView s s.sendQue.length
    (SendNode.new (heap s.accepted.length) (msg ++ [0]) (short msg.length) msgid)
    (s.sendString heap msg msgid)

theorem LogicServer.call_ok_iff (s : LogicServer.SendSide) (msg : List UInt8) (msgid : Int16) :
    (∃ t, s.call msg msgid = .ok t) ↔ maxSendque < s.sendQue.length ∨ Sendable msg.length := by
  unfold LogicServer.SendSide.call
  rw [callerView_ok_iff, sendNode_ok_iff]
  intro n hn hfull
  unfold LogicServer.SendSide.sendString LogicServer.SendSide.sendNode
  cases hq : s.sendQue with
  | nil => simp [hn, maxSendque]
  | cons node rest =>
    rw [hq, List.length_cons] at hfull
    simp [hn, hfull]

theorem BoostCoServer.call_ok_iff (heap : Nat → Nat → UInt8) (s : BoostCoServer.SendSide)
    (msg : List UInt8) (msgid : Int16) :
    (∃ t, s.call heap msg msgid = .ok t) ↔
      maxSendque < s.sendQue.length ∨ Sendable msg.length := by
  unfold BoostCoServer.SendSide.call
  rw [callerView_ok_iff, sendNode_ok_iff]
  intro n hn hfull
  unfold BoostCoServer.SendSide.sendString BoostCoServer.SendSide.send
  cases hq : s.sendQue with
  | nil => simp [hn, hq, maxSendque, BoostCoServer.SendSide.emplace]
  | cons node rest =>
    rw [hq, List.length_cons] at hfull
    simp [hn, hq, hfull, BoostCoServer.SendSide.emplace]

/-! ## The system -/

/-- `LogicNode`: a message and the session it came from. -/
structure LogicNode where
  session : Nat
  recvNode : RecvNode
  deriving DecidableEq, Repr

/-- What tells the two servers apart here: `break` after the drain loop, how many bytes `DealMsg`
takes from a node, and the send side of a session, of type `κ` and with events `ε`. -/
structure Server (κ ε : Type) where
  leaves : Bool
  length : RecvNode → Int16
  sendQueSize : κ → Nat
  send : κ → List UInt8 → Int16 → Except Fault κ
  sessionStep : κ → ε → Option κ
  send_ok_iff : ∀ s msg msgid,
    (∃ t, send s msg msgid = .ok t) ↔ maxSendque < sendQueSize s ∨ Sendable msg.length

/-- `logicServer`: `std::string(_data, _cur_len)`. -/
def logicServer : Server LogicServer.SendSide LogicServer.SendEvent where
  leaves := false
  length node := node.curLen
  sendQueSize s := s.sendQue.length
  send := LogicServer.SendSide.call
  sessionStep := LogicServer.SendSide.step
  send_ok_iff := LogicServer.call_ok_iff

/-- `BoostCoServer`: `std::string(_data, _total_len)`. -/
def boostCoServer (heap : Nat → Nat → UInt8) :
    Server BoostCoServer.SendSide BoostCoServer.SendEvent where
  leaves := true
  length node := node.totalLen
  sendQueSize s := s.sendQue.length
  send := BoostCoServer.SendSide.call heap
  sessionStep := BoostCoServer.SendSide.step heap
  send_ok_iff := BoostCoServer.call_ok_iff heap

/-- The logic worker and the send sides of the sessions. -/
structure World (κ : Type) where
  logic : Sys LogicNode
  sends : Nat → κ

/-- Who takes the next step. -/
inductive WorldEvent (ε : Type) where
  /-- A step of `LogicSystem` outside the callbacks. -/
  | logic (e : Event LogicNode)
  /-- The callback the worker is in. -/
  | callback
  /-- A step of the send side of session `i`. -/
  | session (i : Nat) (e : ε)

variable {κ ε : Type}

/-- `std::string(_data, length)`, if the block of the node has as many bytes. -/
def Server.payload (S : Server κ ε) (n : RecvNode) : List UInt8 :=
  n.data.take (sizeT (S.length n).toInt)

/-- The block of the node has the bytes that are taken from it. -/
def Server.Holds (S : Server κ ε) (n : RecvNode) : Prop :=
  0 ≤ (S.length n).toInt ∧ (S.length n).toInt ≤ n.data.length

instance (S : Server κ ε) (n : RecvNode) : Decidable (S.Holds n) :=
  inferInstanceAs (Decidable (_ ∧ _))

/-- `call_back_it->second(session, msg_id, std::string(_data, length))`. -/
def Server.callback (S : Server κ ε) (J : JsonCpp) (s : κ) (n : RecvNode) : Except Failure κ :=
  if (S.length n).toInt < 0 then .error .lengthError
  else if (n.data.length : Int) < (S.length n).toInt then .error .outOfBounds
  else helloWordCallBack J (S.send s) (S.payload n)

/-- `_func_callbacks.find(msg_id) != end`. -/
def LogicNode.registered (m : LogicNode) : Bool := registerCallBack m.recvNode.msgId

/-- The step of a callback. -/
def World.callbackStep (S : Server κ ε) (J : JsonCpp) (w : World κ) : Option (World κ) :=
  match w.logic.worker with
  | .deal draining m =>
    match S.callback J (w.sends m.session) m.recvNode with
    | .ok s => some ⟨{ w.logic with worker := .pop draining },
        Function.update w.sends m.session s⟩
    | .error .jsonError | .error .lengthError | .error (.send .badArrayNewLength) =>
      some { w with logic := { w.logic with worker := .terminated } }
    | .error .outOfBounds | .error (.send .outOfBounds) =>
      some { w with logic := { w.logic with worker := .fault } }
  | _ => none

/-- One step of the system. -/
def World.step (S : Server κ ε) (J : JsonCpp) (w : World κ) : WorldEvent ε → Option (World κ)
  | .logic (.callback _) => none
  | .logic e => (w.logic.step S.leaves LogicNode.registered e).map fun l => { w with logic := l }
  | .callback => w.callbackStep S J
  | .session i e =>
    if w.logic.over then none
    else (S.sessionStep (w.sends i) e).map fun s => { w with sends := Function.update w.sends i s }

/-! ## Harmless messages -/

/-- The callback returns for this message: its node has the bytes, they are readable, and the reply
to the document they are finds the send queue full or has a length `Send` can carry. -/
structure Harmless (S : Server κ ε) (J : JsonCpp) (w : World κ) (m : LogicNode) : Prop where
  holds : S.Holds m.recvNode
  readable : Readable J (S.payload m.recvNode)
  sendable : maxSendque < S.sendQueSize (w.sends m.session) ∨
    Sendable (answerText J (J.parse (S.payload m.recvNode))).length

variable {S : Server κ ε} {J : JsonCpp}

/-- A node that has the bytes is taken to the callback. -/
theorem callback_holds {n : RecvNode} (h : S.Holds n) (s : κ) :
    S.callback J s n = helloWordCallBack J (S.send s) (S.payload n) := by
  unfold Server.callback
  rw [if_neg (not_lt.mpr h.1), if_neg (not_lt.mpr h.2)]

theorem holds_of_callback {n : RecvNode} {s t : κ} (h : S.callback J s n = .ok t) : S.Holds n := by
  unfold Server.callback at h
  split_ifs at h with h1 h2
  exact ⟨not_lt.mp h1, not_lt.mp h2⟩

theorem harmless_iff (hJ : J.Documented) {w : World κ} {m : LogicNode} :
    Harmless S J w m ↔ ∃ s, S.callback J (w.sends m.session) m.recvNode = .ok s := by
  constructor
  · intro h
    rw [callback_holds h.holds, helloWordCallBack_ok_iff hJ, S.send_ok_iff]
    exact ⟨h.readable, h.sendable⟩
  · rintro ⟨s, hs⟩
    have hholds := holds_of_callback hs
    rw [callback_holds hholds] at hs
    obtain ⟨hread, hsend⟩ := (helloWordCallBack_ok_iff hJ).mp ⟨s, hs⟩
    exact ⟨hholds, hread, (S.send_ok_iff _ _ _).mp hsend⟩

/-- The callback returns. -/
theorem callback_harmless (hJ : J.Documented) {w : World κ} {m : LogicNode} {draining : Bool}
    (hpc : w.logic.worker = .deal draining m) (hm : Harmless S J w m) :
    ∃ s, w.step S J .callback = some ⟨{ w.logic with worker := .pop draining },
      Function.update w.sends m.session s⟩ := by
  obtain ⟨s, hs⟩ := (harmless_iff hJ).mp hm
  exact ⟨s, by simp [World.step, World.callbackStep, hpc, hs]⟩

/-- The callback ends the process. -/
theorem callback_harmful (hJ : J.Documented) {w t : World κ} {m : LogicNode} {draining : Bool}
    (hpc : w.logic.worker = .deal draining m) (hm : ¬ Harmless S J w m)
    (h : w.step S J .callback = some t) :
    t = { w with logic := { w.logic with worker := .terminated } } ∨
      t = { w with logic := { w.logic with worker := .fault } } := by
  unfold World.step World.callbackStep at h
  simp only [hpc] at h
  split at h
  · rename_i s hs
    exact absurd ((harmless_iff hJ).mpr ⟨s, hs⟩) hm
  · obtain rfl := Option.some.inj h
    exact Or.inl rfl
  · obtain rfl := Option.some.inj h
    exact Or.inl rfl
  · obtain rfl := Option.some.inj h
    exact Or.inl rfl
  · obtain rfl := Option.some.inj h
    exact Or.inr rfl
  · obtain rfl := Option.some.inj h
    exact Or.inr rfl

/-! ## One message -/

/-- The worker takes the front message to its callback. -/
theorem run_to_deal {leaves : Bool} {registered : LogicNode → Bool} {s : Sys LogicNode}
    {m : LogicNode} {rest : List LogicNode} {draining : Bool} (hpc : s.worker = .front draining)
    (hq : s.que = m :: rest) (hm : registered m = true) :
    run (Sys.step leaves registered) s [.worker, .worker] =
      some { s with worker := .deal draining m, dispatched := s.dispatched ++ [m] } := by
  simp [run, Sys.step, Sys.over, Sys.workerStep, hpc, hq, hm]

/-- From `pop` on the worker goes on to the next message, through the drain loop or round the outer
one. -/
theorem run_to_next {leaves : Bool} {registered : LogicNode → Bool} {s : Sys LogicNode}
    {m : LogicNode} {rest : List LogicNode} {draining : Bool} (hpc : s.worker = .pop draining)
    (hq : s.que = m :: rest) :
    ∃ k t, run (Sys.step leaves registered) s (List.replicate k .worker) = some t ∧
      t.over = false ∧ t.popped = s.popped ++ [m] ∧ t.que = rest ∧
      (rest ≠ [] → ∃ draining', t.worker = .front draining') := by
  cases rest with
  | nil =>
    refine ⟨1, { s with que := [], popped := s.popped ++ [m],
                        worker := if draining then .drain else .unlock false }, ?_, ?_, rfl, rfl,
      fun h => absurd rfl h⟩
    · simp [run, Sys.step, Sys.over, Sys.workerStep, hpc, hq]
    · cases draining <;> rfl
  | cons m' rest =>
    cases draining with
    | true =>
      refine ⟨2, { s with que := m' :: rest, popped := s.popped ++ [m], worker := .front true },
        ?_, rfl, rfl, rfl, fun _ => ⟨true, rfl⟩⟩
      simp [run, Sys.step, Sys.over, Sys.workerStep, hpc, hq]
    | false =>
      cases hstop : s.bStop with
      | false =>
        refine ⟨5, { s with que := m' :: rest, popped := s.popped ++ [m], worker := .front false,
                            owner := some .worker }, ?_, rfl, rfl, rfl, fun _ => ⟨false, rfl⟩⟩
        simp [run, Sys.step, Sys.over, Sys.workerStep, hpc, hq, hstop]
      | true =>
        refine ⟨6, { s with que := m' :: rest, popped := s.popped ++ [m], worker := .front true,
                            owner := some .worker, stopSeen := true }, ?_, rfl, rfl, rfl,
          fun _ => ⟨true, rfl⟩⟩
        simp [run, Sys.step, Sys.over, Sys.workerStep, hpc, hq, hstop]

/-- The worker's steps outside the callbacks are steps of the system. -/
theorem run_logic {w : World κ} {l : Sys LogicNode} {k : Nat}
    (h : run (Sys.step S.leaves LogicNode.registered) w.logic (List.replicate k .worker) = some l) :
    run (World.step S J) w (List.replicate k (.logic .worker)) = some { w with logic := l } := by
  induction k generalizing w with
  | zero =>
    obtain rfl := Option.some.inj h
    rfl
  | succ k ih =>
    rw [List.replicate_succ] at h ⊢
    obtain ⟨l₁, h1, h2⟩ := run_cons_eq_some.mp h
    refine run_cons_eq_some.mpr ⟨{ w with logic := l₁ }, ?_, ih h2⟩
    simp [World.step, h1]

/-- A step of the worker's own. -/
def WorldEvent.ByWorker : WorldEvent ε → Prop
  | .logic .worker | .callback => True
  | _ => False

/-- By its own steps the worker pops the message `m` in front of `rest`, and comes to the next one
if there is one. -/
def Finishes (S : Server κ ε) (J : JsonCpp) (w : World κ) (m : LogicNode)
    (rest : List LogicNode) : Prop :=
  ∃ es t, (∀ e ∈ es, e.ByWorker) ∧ run (World.step S J) w es = some t ∧ t.logic.over = false ∧
    t.logic.popped = w.logic.popped ++ [m] ∧ t.logic.que = rest ∧
    (rest ≠ [] → ∃ draining, t.logic.worker = .front draining)

theorem finishes_of_harmless (hJ : J.Documented) {w : World κ} {m : LogicNode}
    {rest : List LogicNode} {draining : Bool} (hpc : w.logic.worker = .front draining)
    (hq : w.logic.que = m :: rest) (hreg : m.registered = true) (hm : Harmless S J w m) :
    Finishes S J w m rest := by
  have hdeal := @run_logic _ _ S J w _ 2 (run_to_deal hpc hq hreg)
  set w₁ : World κ := { w with logic := { w.logic with
    worker := .deal draining m, dispatched := w.logic.dispatched ++ [m] } } with hw₁
  obtain ⟨s, hcall⟩ := @callback_harmless _ _ S J hJ w₁ m draining rfl
    ⟨hm.holds, hm.readable, hm.sendable⟩
  set w₂ : World κ := ⟨{ w₁.logic with worker := .pop draining },
    Function.update w₁.sends m.session s⟩ with hw₂
  obtain ⟨k, l, hrun, hover, hpopped, hque, hnext⟩ :=
    @run_to_next S.leaves LogicNode.registered w₂.logic m rest draining rfl hq
  refine ⟨List.replicate 2 (.logic .worker) ++ .callback :: List.replicate k (.logic .worker),
    { w₂ with logic := l }, ?_, ?_, hover, hpopped, hque, hnext⟩
  · intro e he
    simp only [List.mem_append, List.mem_cons, List.mem_replicate] at he
    rcases he with ⟨-, rfl⟩ | rfl | ⟨-, rfl⟩ <;> trivial
  · rw [run_append, hdeal]
    exact run_cons_eq_some.mpr ⟨w₂, hcall, run_logic hrun⟩

/-- Where the worker's own steps can lead from a harmful message: not past its callback. -/
structure Stuck (w : World κ) (m : LogicNode) (t : World κ) : Prop where
  sends : t.sends = w.sends
  que : t.logic.que = w.logic.que
  popped : t.logic.popped = w.logic.popped
  pc : match t.logic.worker with
    | .front _ | .terminated | .fault => True
    | .find _ m' | .deal _ m' => m' = m
    | _ => False

theorem stuck_step (hJ : J.Documented) {w : World κ} {m : LogicNode} {rest : List LogicNode}
    (hq : w.logic.que = m :: rest) (hreg : m.registered = true) (hm : ¬ Harmless S J w m)
    (t : World κ) (e : WorldEvent ε) (t' : World κ) (ht : Stuck w m t) (he : e.ByWorker)
    (h : t.step S J e = some t') : Stuck w m t' := by
  obtain ⟨hsends, hque, hpopped, hpc⟩ := ht
  rw [hq] at hque
  cases e with
  | session i e => cases he
  | callback =>
    obtain ⟨draining, hw⟩ : ∃ draining, t.logic.worker = .deal draining m := by
      unfold World.step World.callbackStep at h
      dsimp only at h
      split at h
      · rename_i draining m' hw
        rw [hw] at hpc
        obtain rfl : m' = m := hpc
        exact ⟨draining, hw⟩
      · cases h
    have hm' : ¬ Harmless S J t m := fun hm' =>
      hm ⟨hm'.holds, hm'.readable, by rw [← hsends]; exact hm'.sendable⟩
    rcases callback_harmful hJ hw hm' h with rfl | rfl
    · exact ⟨hsends, hque.trans hq.symm, hpopped, trivial⟩
    · exact ⟨hsends, hque.trans hq.symm, hpopped, trivial⟩
  | logic e =>
    cases e with
    | worker =>
      obtain ⟨l, hl, rfl⟩ := Option.map_eq_some_iff.mp h
      cases hw : t.logic.worker with
      | front draining =>
        simp [Sys.step, Sys.over, Sys.workerStep, hw, hque] at hl
        obtain rfl := hl
        exact ⟨hsends, hq.symm, hpopped, rfl⟩
      | find draining m' =>
        rw [hw] at hpc
        obtain rfl : m' = m := hpc
        simp [Sys.step, Sys.over, Sys.workerStep, hw, hreg] at hl
        obtain rfl := hl
        exact ⟨hsends, hque.trans hq.symm, hpopped, rfl⟩
      | _ =>
        rw [hw] at hpc
        simp [Sys.step, Sys.over, Sys.workerStep, hw] at hl hpc
    | _ => cases he

/-- **The worker finishes a message exactly when it is harmless.** -/
theorem finishes_iff (hJ : J.Documented) {w : World κ} {m : LogicNode} {rest : List LogicNode}
    {draining : Bool} (hpc : w.logic.worker = .front draining) (hq : w.logic.que = m :: rest)
    (hreg : m.registered = true) : Finishes S J w m rest ↔ Harmless S J w m := by
  constructor
  · rintro ⟨es, t, hes, hrun, -, hpopped, -⟩
    by_contra hm
    have hstuck : Stuck w m t := by
      refine run_invariant_of_meets (stuck_step hJ hq hreg hm) ⟨rfl, rfl, rfl, ?_⟩ ?_ hrun
      · rw [hpc]
        trivial
      · exact meets_of_forall hes
    rw [hstuck.popped] at hpopped
    simp at hpopped
  · exact finishes_of_harmless hJ hpc hq hreg

/-! ## Whole runs -/

/-- No callback has ended the process: if it has ended at all, then by an access to an empty
queue. -/
def Unharmed (s : Sys LogicNode) : Prop :=
  s.worker ≠ .terminated ∧ (s.worker = .fault → s.que = [])

/-- The worker has taken the front message and not popped it yet. -/
def WorkerPc.busy : WorkerPc LogicNode → Bool
  | .find _ _ | .deal _ _ | .pop _ => true
  | _ => false

/-- The invariant of the runs that meet harmless messages only. -/
structure Served (s : Sys LogicNode) : Prop where
  unharmed : Unharmed s
  busy : WorkerPc.busy s.worker = true → s.que ≠ []

/-- The message the worker is in the callback for, if the step is that of the callback, is
harmless. -/
def MeetsHarmless (S : Server κ ε) (J : JsonCpp) (w : World κ) : WorldEvent ε → Prop
  | .callback => ∀ draining m, w.logic.worker = .deal draining m → Harmless S J w m
  | _ => True

theorem served_others {s t : Sys LogicNode} (hs : Served s) (hover : s.over = false)
    (hw : t.worker = s.worker ∨ s.worker = .blocked ∧ t.worker = .signalled)
    (hque : s.que <+: t.que) : Served t := by
  rcases hw with hw | ⟨-, hw⟩
  · refine ⟨⟨by rw [hw]; exact hs.unharmed.1, ?_⟩, ?_⟩
    · intro hf
      rw [hw] at hf
      simp [Sys.over, hf] at hover
    · intro hb hnil
      rw [hw] at hb
      rw [hnil] at hque
      exact hs.busy hb (List.prefix_nil.mp hque)
  · exact ⟨⟨by simp [hw], by simp [hw]⟩, by simp [hw, WorkerPc.busy]⟩

/-- A step of the worker that does not end the process. -/
theorem Served.goto {t : Sys LogicNode} (hover : t.over = false)
    (hbusy : WorkerPc.busy t.worker = true → t.que ≠ []) : Served t := by
  refine ⟨⟨?_, ?_⟩, hbusy⟩
  · intro hw
    simp [Sys.over, hw] at hover
  · intro hw
    simp [Sys.over, hw] at hover

theorem served_worker {leaves : Bool} {registered : LogicNode → Bool} {s t : Sys LogicNode}
    (hs : Served s) (h : Moves leaves registered s .worker t) : Served t := by
  have hbusy := hs.busy
  cases h with
  | frontEmpty _ _ hq => exact ⟨⟨fun hw => (by cases hw), fun _ => hq⟩, fun hb => (by cases hb)⟩
  | popEmpty _ _ hq => exact ⟨⟨fun hw => (by cases hw), fun _ => hq⟩, fun hb => (by cases hb)⟩
  | front _ m rest _ hq => exact .goto rfl fun _ => by rw [hq]; exact List.cons_ne_nil m rest
  | deal _ _ hpc _ => exact .goto rfl fun _ => hbusy (by rw [hpc]; rfl)
  | skip _ _ hpc _ => exact .goto rfl fun _ => hbusy (by rw [hpc]; rfl)
  | drained _ _ => cases leaves <;> exact .goto rfl fun hb => (by cases hb)
  | pop draining _ _ _ _ => cases draining <;> exact .goto rfl fun hb => (by cases hb)
  | unlock exit _ => cases exit <;> exact .goto rfl fun hb => (by cases hb)
  | _ => exact .goto rfl fun hb => (by cases hb)

theorem served_step (hJ : J.Documented) (w : World κ) (e : WorldEvent ε) (t : World κ)
    (hw : Served w.logic) (he : MeetsHarmless S J w e) (h : w.step S J e = some t) :
    Served t.logic := by
  cases e with
  | session i e =>
    unfold World.step at h
    dsimp only at h
    split_ifs at h
    obtain ⟨s, -, rfl⟩ := Option.map_eq_some_iff.mp h
    exact hw
  | callback =>
    obtain ⟨draining, m, hpc⟩ : ∃ draining m, w.logic.worker = .deal draining m := by
      unfold World.step World.callbackStep at h
      dsimp only at h
      split at h
      · rename_i draining m hpc
        exact ⟨draining, m, hpc⟩
      · cases h
    obtain ⟨s, hs⟩ := callback_harmless hJ hpc (he draining m hpc)
    obtain rfl := Option.some.inj (hs.symm.trans h)
    have hbusy : w.logic.que ≠ [] := hw.busy (by rw [hpc]; rfl)
    exact ⟨⟨fun h => (by cases h), fun h => (by cases h)⟩, fun _ => hbusy⟩
  | logic e =>
    by_cases hcallback : ∃ returns, e = .callback returns
    · obtain ⟨returns, rfl⟩ := hcallback
      cases h
    · have hl : ∃ l, w.logic.step S.leaves LogicNode.registered e = some l ∧
          { w with logic := l } = t := by
        cases e with
        | callback returns => cases h
        | _ => exact Option.map_eq_some_iff.mp h
      obtain ⟨l, hl, rfl⟩ := hl
      rcases step_others hl with rfl | hreturns | ⟨hworker, -, hque⟩
      · exact served_worker hw (step_moves hl)
      · exact absurd hreturns hcallback
      · exact served_others hw (step_not_over hl) hworker hque

/-- **No callback ends the process in exactly the runs that meet harmless messages only.** -/
theorem unharmed_iff (hJ : J.Documented) {sends : Nat → κ} {es : List (WorldEvent ε)}
    {t : World κ} (h : run (World.step S J) ⟨Sys.init, sends⟩ es = some t) :
    (∀ es₁ es₂ u, es = es₁ ++ es₂ → run (World.step S J) ⟨Sys.init, sends⟩ es₁ = some u →
      Unharmed u.logic) ↔
      Meets (World.step S J) (MeetsHarmless S J) ⟨Sys.init, sends⟩ es := by
  refine @meets_iff _ _ _ _ (fun w => Served w.logic) (fun w => Unharmed w.logic)
    (served_step hJ) (fun w hw => hw.unharmed) ?_ _ t _ ?_ h
  · intro w e u hw he hstep hu
    obtain ⟨draining, m, hpc, hm, rfl⟩ : ∃ draining m, w.logic.worker = .deal draining m ∧
        ¬ Harmless S J w m ∧ e = .callback := by
      cases e with
      | callback =>
        simp only [MeetsHarmless, not_forall] at he
        obtain ⟨draining, m, hpc, hm⟩ := he
        exact ⟨draining, m, hpc, hm, rfl⟩
      | _ => exact absurd trivial he
    have hbusy : w.logic.que ≠ [] := hw.busy (by rw [hpc]; rfl)
    rcases callback_harmful hJ hpc hm hstep with rfl | rfl
    · exact hu.1 rfl
    · exact hbusy (hu.2 rfl)
  · exact ⟨⟨fun h => (by cases h), fun h => (by cases h)⟩, fun h => (by cases h)⟩

/-- What a server's worker does with the messages that have a callback: it finishes one, whatever
is queued behind it, exactly when it is harmless, and no callback ends the process in exactly the
runs that meet harmless messages only. -/
def EndedByHarmfulOnly (S : Server κ ε) (J : JsonCpp) : Prop :=
  (∀ (w : World κ) m rest draining, w.logic.worker = .front draining → w.logic.que = m :: rest →
    m.recvNode.msgId = msgHelloWord → (Finishes S J w m rest ↔ Harmless S J w m)) ∧
  ∀ (sends : Nat → κ) es t, run (World.step S J) ⟨Sys.init, sends⟩ es = some t →
    ((∀ es₁ es₂ u, es = es₁ ++ es₂ → run (World.step S J) ⟨Sys.init, sends⟩ es₁ = some u →
      Unharmed u.logic) ↔
      Meets (World.step S J) (MeetsHarmless S J) ⟨Sys.init, sends⟩ es)

theorem endedByHarmfulOnly (hJ : J.Documented) : EndedByHarmfulOnly S J := by
  constructor
  · intro w m rest draining hpc hq hid
    exact finishes_iff hJ hpc hq (by rw [LogicNode.registered, registerCallBack, hid]; rfl)
  · intro sends es t h
    exact unharmed_iff hJ h

/-- **What a poison message is**, for both servers. -/
theorem no_poison_iff (hJ : J.Documented) (heap : Nat → Nat → UInt8) :
    EndedByHarmfulOnly logicServer J ∧ EndedByHarmfulOnly (boostCoServer heap) J :=
  ⟨endedByHarmfulOnly hJ, endedByHarmfulOnly hJ⟩

/-! ## A poison message -/

/-- A received message with this text. -/
def textNode (text : List UInt8) : LogicNode :=
  ⟨0, ⟨⟨text ++ [0], short text.length, short text.length⟩, msgHelloWord⟩⟩

theorem payload_textNode {text : List UInt8} (h : text.length < 2 ^ 15) :
    (textNode text).recvNode.received = text ∧ (textNode text).recvNode.buffer = text := by
  have hlen : (short text.length).toInt = text.length := short_toInt (by omega) (by omega)
  have hsize : sizeT (short text.length).toInt = text.length := by
    rw [hlen, sizeT_of_nonneg (by omega) (by omega), Int.toNat_natCast]
  constructor
  · show (text ++ [0]).take (sizeT (short text.length).toInt) = text
    rw [hsize, List.take_left]
  · show (text ++ [0]).take (sizeT (short text.length).toInt) = text
    rw [hsize, List.take_left]

/-- Two messages are posted, then the worker starts. -/
theorem run_posted (S : Server κ ε) (J : JsonCpp) (m m' : LogicNode) (sends : Nat → κ) :
    ∃ es w, run (World.step S J) ⟨Sys.init, sends⟩ es = some w ∧ w.sends = sends ∧
      w.logic.worker = .front false ∧ w.logic.que = [m, m'] :=
  ⟨[.logic (.post 0 m)] ++ List.replicate 5 (.logic (.poster 0)) ++ [.logic (.post 0 m')] ++
    List.replicate 4 (.logic (.poster 0)) ++ List.replicate 3 (.logic .worker), _, rfl, rfl, rfl,
    rfl⟩

/-- An array in front, for a server that takes the whole text of a node. -/
theorem poison_stops (S : Server κ ε) (sends : Nat → κ)
    (hpayload : S.payload (textNode poisonText).recvNode = poisonText) :
    ∃ es w, run (World.step S sampleJson) ⟨Sys.init, sends⟩ es = some w ∧
      w.logic.que = [textNode poisonText, textNode helloText] ∧
      ¬ Finishes S sampleJson w (textNode poisonText) [textNode helloText] := by
  obtain ⟨es, w, hrun, -, hpc, hq⟩ :=
    run_posted S sampleJson (textNode poisonText) (textNode helloText) sends
  refine ⟨es, w, hrun, hq, ?_⟩
  rw [finishes_iff sampleJson_documented hpc hq rfl]
  intro h
  have hread := h.readable
  rw [hpayload] at hread
  exact unreadable_poison hread

/-- **A poison message**: on `[1]` neither worker finishes, nor comes to what is queued behind. -/
theorem poison_array :
    (∃ es w, run (World.step logicServer sampleJson) ⟨Sys.init, fun _ => .empty⟩ es = some w ∧
      w.logic.que = [textNode poisonText, textNode helloText] ∧
      ¬ Finishes logicServer sampleJson w (textNode poisonText) [textNode helloText]) ∧
    ∃ es w, run (World.step (boostCoServer fun _ _ => 0) sampleJson) ⟨Sys.init, fun _ => .empty⟩
        es = some w ∧
      w.logic.que = [textNode poisonText, textNode helloText] ∧
      ¬ Finishes (boostCoServer fun _ _ => 0) sampleJson w (textNode poisonText)
        [textNode helloText] := by
  obtain ⟨hreceived, hbuffer⟩ := @payload_textNode poisonText (by decide +kernel)
  exact ⟨poison_stops _ _ hreceived, poison_stops _ _ hbuffer⟩

/-- What a client sends is finished. -/
theorem no_poison_hello : ∃ es w,
    run (World.step logicServer sampleJson) ⟨Sys.init, fun _ => .empty⟩ es = some w ∧
      Finishes logicServer sampleJson w (textNode helloText) [textNode poisonText] := by
  obtain ⟨es, w, hrun, hsends, hpc, hq⟩ :=
    run_posted logicServer sampleJson (textNode helloText) (textNode poisonText) fun _ => .empty
  have hpayload : logicServer.payload (textNode helloText).recvNode = helloText :=
    (@payload_textNode helloText (by decide +kernel)).1
  refine ⟨es, w, hrun, ?_⟩
  refine ((no_poison_iff sampleJson_documented fun _ _ => 0).1.1 w _ _ false hpc hq rfl).mpr ?_
  refine ⟨by decide +kernel, by rw [hpayload]; exact readable_hello, Or.inr ?_⟩
  rw [hpayload]
  decide +kernel

end AsioLearn
