import AsioLearn.MsgNode
import AsioLearn.Lib.Pipeline

/-!
# `logicServer`: the send side of `CSession` (`CSession.cc`)

`Send`, in both overloads, and `HandleWrite`, as the steps of a transition system. Each holds
`_send_lock` for all it does to the queue (the error branch of `HandleWrite` does nothing to it),
so a step is one call.

* `SendSide.outstanding` are the `async_write` operations started and not completed; each
  completes once, with or without an error, and calls `HandleWrite`.
* `accepted`, `written`, `started` and `failed` record the run: the nodes pushed, the nodes popped
  after their write, the writes started, and whether one has completed with an error.
* A `Send` whose node cannot be built throws to its caller and leaves the queue as it was. After
  undefined behaviour (a negative length, `pop` or `front` on an empty queue) there is no next
  state: `step` is `none`.
* `_socket.close()` may throw in the error branch (`closeThrows`); the `catch` block only prints.

Results:
* `step_refines`: the send side is `Lib.Pipeline`, with `HandleWrite` never called on an empty queue
  (`handleWrite_defined`);
* `accepted_makes`: the accepted nodes are what the constructor makes of the arguments of the
  `Send`s that found room, in their order;
* `send_pipeline`: one write at a time, of the whole front node; order, no loss, no stall until a
  write fails, and no write after that.
-/

namespace AsioLearn.LogicServer

open AsioLearn.Cpp AsioLearn.Wire AsioLearn.Lib AsioLearn.Lib.Lts

/-- The send side of `CSession`, and the record of the run. -/
structure SendSide where
  sendQue : List SendNode
  bClose : Bool
  cleared : Bool
  outstanding : List Write
  accepted : List SendNode
  written : List SendNode
  started : List Write
  failed : Bool
  deriving DecidableEq, Repr

/-- No message sent yet. -/
def SendSide.empty : SendSide := ⟨[], false, false, [], [], [], [], false⟩

/-- `async_write(_socket, buffer(node->_data, node->_total_len), HandleWrite)`. -/
def SendSide.asyncWrite (s : SendSide) (node : SendNode) : SendSide :=
  { s with outstanding := s.outstanding ++ [⟨node, node.buffer⟩],
           started := s.started ++ [⟨node, node.buffer⟩] }

/-- The body of both overloads of `Send`, for the node the overload makes. -/
def SendSide.sendNode (s : SendSide) (node : Except Fault SendNode) : Option SendSide :=
  let sendQueSize := s.sendQue.length
  if maxSendque < sendQueSize then some s
  else
    match node with
    | .error .badArrayNewLength => some s
    | .error .outOfBounds => none
    | .ok node =>
      let s := { s with sendQue := s.sendQue ++ [node], accepted := s.accepted ++ [node] }
      if 0 < sendQueSize then some s
      else
        match s.sendQue with
        | [] => none
        | msgnode :: _ => some (s.asyncWrite msgnode)

/-- `CSession::Send(char *msg, short max_length, short msgid)`; `msg` is what may be read from the
pointer. -/
def SendSide.send (s : SendSide) (msg : List UInt8) (maxLength msgid : Int16) : Option SendSide :=
  s.sendNode (SendNode.new (fun _ => 0) msg maxLength msgid)

/-- `CSession::Send(std::string msg, short msgid)`: `msg.length()` becomes a `short`, and `c_str()`
ends in a zero. -/
def SendSide.sendString (s : SendSide) (msg : List UInt8) (msgid : Int16) : Option SendSide :=
  s.sendNode (SendNode.new (fun _ => 0) (msg ++ [0]) (short msg.length) msgid)

/-- `CSession::HandleWrite` called without an error. -/
def SendSide.handleWrite (s : SendSide) : Option SendSide :=
  match s.sendQue with
  | [] => none
  | node :: rest =>
    let s := { s with sendQue := rest, written := s.written ++ [node] }
    match rest with
    | [] => some s
    | nextNode :: _ => some (s.asyncWrite nextNode)

/-- `CSession::HandleWrite` called with an error. -/
def SendSide.handleWriteError (s : SendSide) (closeThrows : Bool) : SendSide :=
  if closeThrows then { s with failed := true }
  else { s with failed := true, bClose := true, cleared := true }

/-- A call of one of the `Send`s, or the completion of the `i`-th outstanding write. -/
inductive SendEvent where
  | send (msg : List UInt8) (maxLength msgid : Int16)
  | sendString (msg : List UInt8) (msgid : Int16)
  | written (i : Nat)
  | failed (i : Nat) (closeThrows : Bool)
  deriving DecidableEq, Repr

/-- What the `Send` of an event is given; a completion is none. -/
def SendEvent.args : SendEvent → List SendArgs
  | .send msg maxLength msgid => [⟨msg, maxLength, msgid⟩]
  | .sendString msg msgid => [.ofString msg msgid]
  | .written _ => []
  | .failed _ _ => []

/-- One step of the send side. -/
def SendSide.step (s : SendSide) : SendEvent → Option SendSide
  | .send msg maxLength msgid => s.send msg maxLength msgid
  | .sendString msg msgid => s.sendString msg msgid
  | .written i =>
    if i < s.outstanding.length then
      { s with outstanding := s.outstanding.eraseIdx i }.handleWrite
    else none
  | .failed i closeThrows =>
    if i < s.outstanding.length then
      some ({ s with outstanding := s.outstanding.eraseIdx i }.handleWriteError closeThrows)
    else none

/-- The arguments of the `Send`s of a run that found room and whose node can be built, in order. -/
def messages (es : List SendEvent) : List SendArgs :=
  outputs SendSide.step (fun s e => admitted s.sendQue.length e.args) .empty es

/-! ## What one call does -/

@[simp]
theorem asyncWrite_started (s : SendSide) (node : SendNode) :
    (s.asyncWrite node).started = s.started ++ [⟨node, node.buffer⟩] := rfl

@[simp]
theorem asyncWrite_outstanding (s : SendSide) (node : SendNode) :
    (s.asyncWrite node).outstanding = s.outstanding ++ [⟨node, node.buffer⟩] := rfl

/-- Everything `Send` can do: refuse, or push the node and write it if it is alone. -/
theorem sendNode_cases {s t : SendSide} {node : Except Fault SendNode}
    (h : s.sendNode node = some t) :
    t = s ∨ ∃ n, node = .ok n ∧ s.sendQue.length ≤ maxSendque ∧
      (s.sendQue ≠ [] ∧
          t = { s with sendQue := s.sendQue ++ [n], accepted := s.accepted ++ [n] } ∨
        s.sendQue = [] ∧
          t = SendSide.asyncWrite { s with sendQue := [n], accepted := s.accepted ++ [n] } n) := by
  unfold SendSide.sendNode at h
  dsimp only at h
  split at h
  · exact Or.inl (Option.some.inj h).symm
  · rename_i hcap
    split at h
    · exact Or.inl (Option.some.inj h).symm
    · cases h
    · rename_i n
      refine Or.inr ⟨n, rfl, not_lt.mp hcap, ?_⟩
      split at h
      · rename_i hlen
        exact Or.inl ⟨List.ne_nil_of_length_pos hlen, (Option.some.inj h).symm⟩
      · rename_i hlen
        obtain hnil : s.sendQue = [] := by
          by_contra hne
          exact hlen (List.length_pos_iff.mpr hne)
        rw [hnil] at h
        exact Or.inr ⟨hnil, (Option.some.inj h).symm⟩

/-- Below the limit a node that could be built is pushed. -/
theorem sendNode_push {s : SendSide} {n : SendNode} (h : s.sendQue.length ≤ maxSendque) :
    ∃ t, s.sendNode (.ok n) = some t ∧ t.sendQue = s.sendQue ++ [n] := by
  unfold SendSide.sendNode
  rw [if_neg (not_lt.mpr h)]
  cases hq : s.sendQue with
  | nil => exact ⟨_, rfl, rfl⟩
  | cons node rest => exact ⟨_, rfl, rfl⟩

/-- What `Send` adds to the accepted nodes. -/
theorem sendNode_accepted {s t : SendSide} {node : Except Fault SendNode}
    (h : s.sendNode node = some t) :
    t.accepted = s.accepted ++
      if maxSendque < s.sendQue.length then [] else node.toOption.toList := by
  unfold SendSide.sendNode at h
  dsimp only at h
  split at h
  · rename_i hfull
    obtain rfl := Option.some.inj h
    rw [if_pos hfull, List.append_nil]
  · rename_i hroom
    rw [if_neg hroom]
    split at h
    · obtain rfl := Option.some.inj h
      exact (List.append_nil _).symm
    · cases h
    · split at h
      · obtain rfl := Option.some.inj h
        rfl
      · split at h
        · cases h
        · obtain rfl := Option.some.inj h
          rfl

/-- Everything `HandleWrite` can do without an error. -/
theorem handleWrite_cases {s t : SendSide} (h : s.handleWrite = some t) :
    ∃ node rest, s.sendQue = node :: rest ∧
      (rest = [] ∧ t = { s with sendQue := rest, written := s.written ++ [node] } ∨
        ∃ next more, rest = next :: more ∧ t = SendSide.asyncWrite
          { s with sendQue := rest, written := s.written ++ [node] } next) := by
  unfold SendSide.handleWrite at h
  split at h
  · cases h
  · rename_i node rest hq
    refine ⟨node, rest, hq, ?_⟩
    dsimp only at h
    split at h
    · exact Or.inl ⟨rfl, (Option.some.inj h).symm⟩
    · rename_i next more
      exact Or.inr ⟨next, more, rfl, (Option.some.inj h).symm⟩

theorem step_written {s t : SendSide} {i : Nat} (h : s.step (.written i) = some t) :
    i < s.outstanding.length ∧
      SendSide.handleWrite { s with outstanding := s.outstanding.eraseIdx i } = some t := by
  change (if i < s.outstanding.length then _ else none) = some t at h
  split_ifs at h with hi
  exact ⟨hi, h⟩

theorem step_failed {s t : SendSide} {i : Nat} {closeThrows : Bool}
    (h : s.step (.failed i closeThrows) = some t) :
    i < s.outstanding.length ∧ t =
      SendSide.handleWriteError { s with outstanding := s.outstanding.eraseIdx i } closeThrows := by
  change (if i < s.outstanding.length then _ else none) = some t at h
  split_ifs at h with hi
  exact ⟨hi, (Option.some.inj h).symm⟩

/-! ## The send side is a pipeline -/

/-- The pipeline a send side stands for. -/
def SendSide.abs (s : SendSide) : Pipeline.State SendNode :=
  ⟨s.written, s.sendQue, !s.outstanding.isEmpty, s.failed⟩

/-- What holds in every reachable state. -/
structure SendSide.Ok (s : SendSide) : Prop where
  sound : Pipeline.Sound s.abs
  outstanding : s.outstanding = [] ∨
    ∃ n q, s.sendQue = n :: q ∧ s.outstanding = [⟨n, n.buffer⟩]
  started : s.started = (s.written ++ s.sendQue.take 1).map fun n => ⟨n, n.buffer⟩
  accepted : s.written ++ s.sendQue = s.accepted

theorem ok_empty : SendSide.empty.Ok where
  sound := Pipeline.sound_empty
  outstanding := Or.inl rfl
  started := rfl
  accepted := rfl

theorem SendSide.Ok.nodes {s : SendSide} (h : s.Ok) :
    s.started.map Write.node = s.written ++ s.sendQue.take 1 := by
  rw [h.started, List.map_map]
  exact List.map_id _

/-- An outstanding write is the only one, and it is for the front of the queue. -/
theorem SendSide.Ok.single {s : SendSide} (h : s.Ok) {i : Nat} (hi : i < s.outstanding.length) :
    ∃ n q, s.sendQue = n :: q ∧ s.outstanding = [⟨n, n.buffer⟩] ∧
      s.outstanding.eraseIdx i = [] := by
  rcases h.outstanding with hnone | ⟨n, q, hq, ho⟩
  · rw [hnone] at hi
    exact absurd hi (Nat.not_lt_zero i)
  · rw [ho, List.length_singleton, Nat.lt_one_iff] at hi
    subst hi
    exact ⟨n, q, hq, ho, by rw [ho]; rfl⟩

theorem sendNode_refines {s t : SendSide} {node : Except Fault SendNode} (hs : s.Ok)
    (h : s.sendNode node = some t) :
    t.Ok ∧ ∃ os, run Pipeline.step s.abs os = some t.abs := by
  rcases sendNode_cases h with rfl | ⟨n, -, -, ⟨hne, rfl⟩ | ⟨hnil, rfl⟩⟩
  · exact ⟨hs, [], rfl⟩
  · have hstep : Pipeline.step s.abs (.push n) = some (SendSide.abs
        { s with sendQue := s.sendQue ++ [n], accepted := s.accepted ++ [n] }) := by
      rw [Pipeline.step_push]
      simp [SendSide.abs, hne]
    refine ⟨⟨Pipeline.step_sound _ _ _ hs.sound hstep, ?_, ?_, ?_⟩, [.push n], ?_⟩
    · rcases hs.outstanding with hnone | ⟨m, q, hq, ho⟩
      · exact Or.inl hnone
      · exact Or.inr ⟨m, q ++ [n], by rw [hq, List.cons_append], ho⟩
    · obtain ⟨m, q, hq⟩ := List.exists_cons_of_ne_nil hne
      have := hs.started
      rw [hq] at this
      rw [this, hq]
      rfl
    · rw [← hs.accepted, List.append_assoc]
    · rw [run_cons, hstep]
      rfl
  · -- the queue was empty, so nothing is outstanding and nothing has failed
    have hfree : s.outstanding = [] := by
      rcases hs.outstanding with hnone | ⟨m, q, hq, -⟩
      · exact hnone
      · rw [hnil] at hq
        cases hq
    have hstep : Pipeline.step s.abs (.push n) = some (SendSide.abs (SendSide.asyncWrite
        { s with sendQue := [n], accepted := s.accepted ++ [n] } n)) := by
      rw [Pipeline.step_push]
      simp [SendSide.abs, SendSide.asyncWrite, hnil]
    refine ⟨⟨Pipeline.step_sound _ _ _ hs.sound hstep, ?_, ?_, ?_⟩, [.push n], ?_⟩
    · exact Or.inr ⟨n, [], rfl, by rw [asyncWrite_outstanding, hfree]; rfl⟩
    · have hst := hs.started
      rw [hnil, List.take_nil, List.append_nil] at hst
      show s.started ++ [⟨n, n.buffer⟩] = (s.written ++ [n]).map _
      rw [hst, List.map_append]
      rfl
    · have := hs.accepted
      rw [hnil, List.append_nil] at this
      exact congrArg (· ++ [n]) this
    · rw [run_cons, hstep]
      rfl

theorem handleWrite_refines {s t : SendSide} {i : Nat} (hs : s.Ok)
    (hi : i < s.outstanding.length)
    (h : SendSide.handleWrite { s with outstanding := s.outstanding.eraseIdx i } = some t) :
    t.Ok ∧ ∃ os, run Pipeline.step s.abs os = some t.abs := by
  obtain ⟨n, q, hq, ho, herase⟩ := hs.single hi
  rw [herase] at h
  have hst := hs.started
  have hacc := hs.accepted
  rw [hq] at hst hacc
  obtain ⟨node, rest, hq', hcases⟩ := handleWrite_cases h
  obtain ⟨rfl, rfl⟩ : n = node ∧ q = rest := List.cons.inj (hq.symm.trans hq')
  have hstep : Pipeline.step s.abs .complete = some t.abs := by
    have habs : s.abs = ⟨s.written, n :: q, true, s.failed⟩ := by
      simp [SendSide.abs, hq, ho]
    rw [habs]
    rcases hcases with ⟨rfl, rfl⟩ | ⟨next, more, rfl, rfl⟩
    · rfl
    · rfl
  have hdone : s.written ++ [n] ++ q = s.accepted := by
    rw [← hacc, List.append_assoc, List.singleton_append]
  refine ⟨?_, [.complete], by rw [run_cons, hstep]; rfl⟩
  have hsound := Pipeline.step_sound _ _ _ hs.sound hstep
  rcases hcases with ⟨rfl, rfl⟩ | ⟨next, more, rfl, rfl⟩
  · refine ⟨hsound, Or.inl rfl, ?_, hdone⟩
    show s.started = (s.written ++ [n] ++ []).map _
    rw [List.append_nil]
    exact hst
  · refine ⟨hsound, Or.inr ⟨next, more, rfl, rfl⟩, ?_, hdone⟩
    show s.started ++ [⟨next, next.buffer⟩] = (s.written ++ [n] ++ [next]).map _
    rw [List.map_append]
    exact congrArg (· ++ [_]) hst

theorem handleWriteError_refines {s : SendSide} {i : Nat} (hs : s.Ok)
    (hi : i < s.outstanding.length) (closeThrows : Bool) :
    (SendSide.handleWriteError { s with outstanding := s.outstanding.eraseIdx i }
        closeThrows).Ok ∧
      ∃ os, run Pipeline.step s.abs os = some (SendSide.abs (SendSide.handleWriteError
        { s with outstanding := s.outstanding.eraseIdx i } closeThrows)) := by
  obtain ⟨n, q, hq, ho, herase⟩ := hs.single hi
  rw [herase]
  have hstep : Pipeline.step s.abs .fail =
      some ((SendSide.handleWriteError { s with outstanding := [] } closeThrows).abs) := by
    have habs : s.abs = ⟨s.written, s.sendQue, true, s.failed⟩ := by
      simp [SendSide.abs, ho]
    rw [habs]
    cases closeThrows <;> rfl
  refine ⟨⟨Pipeline.step_sound _ _ _ hs.sound hstep, ?_, ?_, ?_⟩, [.fail], ?_⟩
  · cases closeThrows <;> exact Or.inl rfl
  · cases closeThrows <;> exact hs.started
  · cases closeThrows <;> exact hs.accepted
  · rw [run_cons, hstep]
    rfl

/-- **Each step of the send side is one of the pipeline, or none.** -/
theorem step_refines (s : SendSide) (e : SendEvent) (t : SendSide) (hs : s.Ok)
    (h : s.step e = some t) : t.Ok ∧ ∃ os, run Pipeline.step s.abs os = some t.abs := by
  cases e with
  | send msg maxLength msgid => exact sendNode_refines hs h
  | sendString msg msgid => exact sendNode_refines hs h
  | written i =>
    obtain ⟨hi, h⟩ := step_written h
    exact handleWrite_refines hs hi h
  | failed i closeThrows =>
    obtain ⟨hi, rfl⟩ := step_failed h
    exact handleWriteError_refines hs hi closeThrows

theorem run_ok {es : List SendEvent} {s : SendSide}
    (h : run SendSide.step SendSide.empty es = some s) : s.Ok :=
  (run_refines step_refines ok_empty h).1

/-- A completion finds the queue it pops from not empty. -/
theorem handleWrite_defined {s : SendSide} (hs : s.Ok) {i : Nat}
    (hi : i < s.outstanding.length) : (s.step (.written i)).isSome := by
  obtain ⟨n, q, hq, -, -⟩ := hs.single hi
  change (if i < s.outstanding.length then
    SendSide.handleWrite { s with outstanding := s.outstanding.eraseIdx i } else none).isSome
  rw [if_pos hi]
  unfold SendSide.handleWrite
  simp only [hq]
  cases q <;> rfl

/-- After a failed write no write is started. -/
theorem step_started_of_failed (s : SendSide) (e : SendEvent) (t : SendSide) (hs : s.Ok)
    (hf : s.failed = true) (h : s.step e = some t) :
    t.failed = true ∧ t.started = s.started := by
  have hfree : s.outstanding = [] := by
    by_contra hne
    have hbusy : s.abs.inFlight = true := by simpa [SendSide.abs] using hne
    have hbroken : s.failed = false := (hs.sound.busy.mp hbusy).2
    rw [hf] at hbroken
    cases hbroken
  have hsend : ∀ node, s.sendNode node = some t → t.failed = true ∧ t.started = s.started := by
    intro node hnode
    rcases sendNode_cases hnode with rfl | ⟨n, -, -, ⟨-, rfl⟩ | ⟨hnil, rfl⟩⟩
    · exact ⟨hf, rfl⟩
    · exact ⟨hf, rfl⟩
    · exact absurd hnil (hs.sound.front hf)
  cases e with
  | send msg maxLength msgid => exact hsend _ h
  | sendString msg msgid => exact hsend _ h
  | written i =>
    obtain ⟨hi, -⟩ := step_written h
    rw [hfree] at hi
    exact absurd hi (Nat.not_lt_zero i)
  | failed i closeThrows =>
    obtain ⟨hi, -⟩ := step_failed h
    rw [hfree] at hi
    exact absurd hi (Nat.not_lt_zero i)

/-! ## The accepted messages -/

theorem sendNode_makes {s t : SendSide} {a : SendArgs} {xs : List SendArgs}
    (hxs : List.Forall₂ SendArgs.Makes xs s.accepted)
    (h : s.sendNode (SendNode.new (fun _ => 0) a.msg a.maxLength a.msgid) = some t) :
    List.Forall₂ SendArgs.Makes (xs ++ admitted s.sendQue.length [a]) t.accepted := by
  rw [sendNode_accepted h]
  exact List.rel_append hxs (forall₂_admitted _ _ a)

/-- A step adds to the accepted nodes those of the `Send` it is. -/
theorem step_makes (xs : List SendArgs) (s : SendSide) (e : SendEvent) (t : SendSide)
    (hxs : List.Forall₂ SendArgs.Makes xs s.accepted) (h : s.step e = some t) :
    List.Forall₂ SendArgs.Makes (xs ++ admitted s.sendQue.length e.args) t.accepted := by
  have hnone : admitted s.sendQue.length [] = [] := ite_self []
  cases e with
  | send msg maxLength msgid => exact @sendNode_makes s t ⟨msg, maxLength, msgid⟩ xs hxs h
  | sendString msg msgid => exact @sendNode_makes s t (.ofString msg msgid) xs hxs h
  | written i =>
    obtain ⟨-, h⟩ := step_written h
    rw [SendEvent.args, hnone, List.append_nil]
    obtain ⟨node, rest, -, ⟨-, rfl⟩ | ⟨next, more, -, rfl⟩⟩ := handleWrite_cases h
    · exact hxs
    · exact hxs
  | failed i closeThrows =>
    obtain ⟨-, rfl⟩ := step_failed h
    rw [SendEvent.args, hnone, List.append_nil]
    cases closeThrows <;> exact hxs

/-- **The accepted nodes are those of the accepted messages.** -/
theorem accepted_makes {es : List SendEvent} {s : SendSide}
    (h : run SendSide.step SendSide.empty es = some s) :
    List.Forall₂ SendArgs.Makes (messages es) s.accepted := by
  have hempty : List.Forall₂ SendArgs.Makes [] SendSide.empty.accepted := List.Forall₂.nil
  have hmakes := run_outputs (R := fun xs s => List.Forall₂ SendArgs.Makes xs s.accepted)
    step_makes hempty h
  exact hmakes

/-- **The send pipeline**, in every reachable state. The accepted nodes are made of the accepted
messages, and all of them have been written or are queued, in their order. -/
theorem send_pipeline {es : List SendEvent} {s : SendSide}
    (h : run SendSide.step SendSide.empty es = some s) :
    List.Forall₂ SendArgs.Makes (messages es) s.accepted ∧
    s.outstanding.length ≤ 1 ∧
    (∀ w ∈ s.outstanding, (∃ q, s.sendQue = w.node :: q) ∧
      w.bytes = w.node.data.take (sizeT w.node.totalLen.toInt)) ∧
    (s.failed = false → (s.outstanding ≠ [] ↔ s.sendQue ≠ []) ∧
      s.started.map Write.node ++ s.sendQue.tail = s.accepted) ∧
    (s.failed = true → ∀ fs t, run SendSide.step s fs = some t → t.started = s.started) := by
  have hs := run_ok h
  refine ⟨accepted_makes h, ?_, ?_, fun hf => ⟨?_, ?_⟩, ?_⟩
  · rcases hs.outstanding with hnone | ⟨n, q, -, ho⟩
    · rw [hnone]
      exact Nat.zero_le 1
    · rw [ho]
      exact Nat.le_refl 1
  · intro w hw
    rcases hs.outstanding with hnone | ⟨n, q, hq, ho⟩
    · rw [hnone] at hw
      cases hw
    · rw [ho] at hw
      obtain rfl := List.mem_singleton.mp hw
      exact ⟨⟨q, hq⟩, rfl⟩
  · have hbusy := hs.sound.busy
    constructor
    · intro hne
      exact (hbusy.mp (by simpa [SendSide.abs] using hne)).1
    · intro hne hnone
      have := hbusy.mpr ⟨hne, hf⟩
      rw [SendSide.abs, hnone] at this
      cases this
  · rw [hs.nodes, List.append_assoc, ← hs.accepted]
    cases s.sendQue <;> rfl
  · intro hf fs t hrun
    refine (run_invariant (I := fun r => r.Ok ∧ r.failed = true ∧ r.started = s.started) ?_
      ⟨hs, hf, rfl⟩ hrun).2.2
    rintro r e r' ⟨hr, hrf, hrs⟩ hstep
    obtain ⟨hf', hst⟩ := step_started_of_failed r e r' hr hrf hstep
    exact ⟨(step_refines r e r' hr hstep).1, hf', hst.trans hrs⟩

/-- Two messages, the first write completed and the second failed. -/
theorem send_pipeline_two : ∃ s, run SendSide.step SendSide.empty
      [.sendString [97] 1001, .send [98, 99] 2 1002, .written 0, .failed 0 false] = some s ∧
    s.started.map Write.bytes = [[3, 233, 0, 1, 97], [3, 234, 0, 2, 98, 99]] ∧
    s.written.length = 1 ∧ s.failed = true ∧
    List.Forall₂ SendArgs.Makes [⟨[97, 0], 1, 1001⟩, ⟨[98, 99], 2, 1002⟩] s.accepted ∧
    s.outstanding.length ≤ 1 ∧
    (∀ w ∈ s.outstanding, (∃ q, s.sendQue = w.node :: q) ∧
      w.bytes = w.node.data.take (sizeT w.node.totalLen.toInt)) ∧
    (s.failed = false → (s.outstanding ≠ [] ↔ s.sendQue ≠ []) ∧
      s.started.map Write.node ++ s.sendQue.tail = s.accepted) ∧
    (s.failed = true → ∀ fs t, run SendSide.step s fs = some t → t.started = s.started) :=
  ⟨_, rfl, by decide, rfl, rfl, @send_pipeline [.sendString [97] 1001, .send [98, 99] 2 1002,
    .written 0, .failed 0 false] _ rfl⟩

end AsioLearn.LogicServer
