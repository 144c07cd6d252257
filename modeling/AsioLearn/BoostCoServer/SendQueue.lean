import AsioLearn.MsgNode
import AsioLearn.Lib.Pipeline

/-!
# `BoostCoServer`: the send side of `CSession` (`CSession.cc`)

`Send` and `HandleWrite` as the steps of a transition system. `Send` holds `_send_mutex` to its
end. `HandleWrite` gives it up between taking the next node and writing it, so it is two steps:
`handleWrite`, which leaves the node in `pending`, and `startPending`, its `async_write`; any other
step may come between them.

* `async_write` writes the bytes it is given and completes once. The write `Send` starts is of
  `_total_len` bytes; the write `HandleWrite` starts is of `_cur_len`.
* `accepted`, `written`, `started` and `failed` record the run: the nodes pushed, the nodes popped
  after their write, the writes started, and whether one has completed with an error. `burst` counts
  the nodes pushed since the queue was last empty.
* `heap k` is what the block of the `k`-th node was found to hold.
* A `Send` whose node cannot be built throws to its caller and leaves the queue as it was. After
  undefined behaviour there is no next state.
* `_socket.close()` may throw in the error branch. It has let go of the descriptor by then, so the
  `Close()` of the `catch` block finds nothing to close: the branch ends the same way.

Results:
* `step_refines`: the send side is `Lib.Pipeline`, the window being part of a transmission;
* `one_write_in_flight`: one write at a time, the window included, each for the front node, and no
  stall until a write fails;
* `accepted_makes`: the accepted nodes are what the constructor makes of the arguments of the
  `Send`s that found room, in their order;
* `handed_whole_iff`: the bytes handed to the socket are the accepted frames, in order and whole,
  no written node left out, in every state of a run exactly when every write that completes is of a
  node whose `Send` found the queue empty. `_cur_len` of a `SendNode` is zero, so all writes but the
  first of a burst are empty.
-/

namespace AsioLearn.BoostCoServer

open AsioLearn.Cpp AsioLearn.Wire AsioLearn.Lib AsioLearn.Lib.Lts

/-- The send side of `CSession`, and the record of the run. -/
structure SendSide where
  sendQue : List SendNode
  bClose : Bool
  cleared : Bool
  outstanding : List Write
  /-- Calls of `HandleWrite` between `lock.unlock()` and `async_write`. -/
  pending : List SendNode
  accepted : List SendNode
  written : List SendNode
  started : List Write
  failed : Bool
  burst : Nat
  deriving DecidableEq, Repr

/-- No message sent yet. -/
def SendSide.empty : SendSide := ⟨[], false, false, [], [], [], [], [], false, 0⟩

/-- `async_write(_socket, buffer(node->_data, …), HandleWrite)`. -/
def SendSide.asyncWrite (s : SendSide) (node : SendNode) (bytes : List UInt8) : SendSide :=
  { s with
    outstanding := s.outstanding ++ [⟨node, bytes⟩]
    started := s.started ++ [⟨node, bytes⟩] }

/-- `_send_que.emplace(node)`. -/
def SendSide.emplace (s : SendSide) (node : SendNode) : SendSide :=
  { s with sendQue := s.sendQue ++ [node], accepted := s.accepted ++ [node],
           burst := if s.sendQue = [] then 1 else s.burst + 1 }

/-- `CSession::Send(const char *msg, short max_length, short msgid)`; `msg` is what may be read from
the pointer. -/
def SendSide.send (heap : Nat → Nat → UInt8) (s : SendSide) (msg : List UInt8)
    (maxLength msgid : Int16) : Option SendSide :=
  let sendQueSize := s.sendQue.length
  if maxSendque < sendQueSize then some s
  else
    match SendNode.new (heap s.accepted.length) msg maxLength msgid with
    | .error .badArrayNewLength => some s
    | .error .outOfBounds => none
    | .ok node =>
      let s := s.emplace node
      if 0 < sendQueSize then some s
      else
        match s.sendQue with
        | [] => none
        | msgNode :: _ => some (s.asyncWrite msgNode msgNode.buffer)

/-- `CSession::Send(std::string &msg, short msgid)`: `msg.size()` becomes a `short`, and `c_str()`
ends in a zero. -/
def SendSide.sendString (heap : Nat → Nat → UInt8) (s : SendSide) (msg : List UInt8)
    (msgid : Int16) : Option SendSide :=
  s.send heap (msg ++ [0]) (short msg.length) msgid

/-- `CSession::HandleWrite` called without an error, up to `lock.unlock()` or the end. -/
def SendSide.handleWrite (s : SendSide) : Option SendSide :=
  match s.sendQue with
  | [] => none
  | node :: rest =>
    let s := { s with sendQue := rest, written := s.written ++ [node] }
    match rest with
    | [] => some s
    | msgNode :: _ => some { s with pending := s.pending ++ [msgNode] }

/-- The rest of `HandleWrite`: the write of `_cur_len` bytes. -/
def SendSide.startPending (s : SendSide) (i : Nat) : Option SendSide :=
  match s.pending[i]? with
  | none => none
  | some msgNode =>
    some ({ s with pending := s.pending.eraseIdx i }.asyncWrite msgNode msgNode.received)

/-- `CSession::HandleWrite` called with an error, the `catch` block included. -/
def SendSide.handleWriteError (s : SendSide) : SendSide :=
  { s with failed := true, bClose := true, cleared := true }

/-- A call of one of the `Send`s, the completion of the `i`-th outstanding write, or the rest of the
`i`-th pending `HandleWrite`. -/
inductive SendEvent where
  | send (msg : List UInt8) (maxLength msgid : Int16)
  | sendString (msg : List UInt8) (msgid : Int16)
  | written (i : Nat)
  | startPending (i : Nat)
  | failed (i : Nat)
  deriving DecidableEq, Repr

/-- What the `Send` of an event is given; the other steps are none. -/
def SendEvent.args : SendEvent → List SendArgs
  | .send msg maxLength msgid => [⟨msg, maxLength, msgid⟩]
  | .sendString msg msgid => [.ofString msg msgid]
  | .written _ => []
  | .startPending _ => []
  | .failed _ => []

/-- One step of the send side. -/
def SendSide.step (heap : Nat → Nat → UInt8) (s : SendSide) : SendEvent → Option SendSide
  | .send msg maxLength msgid => s.send heap msg maxLength msgid
  | .sendString msg msgid => s.sendString heap msg msgid
  | .written i =>
    if i < s.outstanding.length then
      { s with outstanding := s.outstanding.eraseIdx i }.handleWrite
    else none
  | .startPending i => s.startPending i
  | .failed i =>
    if i < s.outstanding.length then
      some { s with outstanding := s.outstanding.eraseIdx i }.handleWriteError
    else none

/-- The arguments of the `Send`s of a run that found room and whose node can be built, in order. -/
def messages (heap : Nat → Nat → UInt8) (es : List SendEvent) : List SendArgs :=
  outputs (SendSide.step heap) (fun s e => admitted s.sendQue.length e.args) .empty es

/-- The bytes handed to `async_write` so far. -/
def SendSide.handed (s : SendSide) : List UInt8 := s.started.flatMap Write.bytes

variable {heap : Nat → Nat → UInt8}

/-! ## What one call does -/

@[simp]
theorem asyncWrite_started (s : SendSide) (node : SendNode) (bytes : List UInt8) :
    (s.asyncWrite node bytes).started = s.started ++ [⟨node, bytes⟩] := rfl

@[simp]
theorem asyncWrite_outstanding (s : SendSide) (node : SendNode) (bytes : List UInt8) :
    (s.asyncWrite node bytes).outstanding = s.outstanding ++ [⟨node, bytes⟩] := rfl

@[simp]
theorem emplace_sendQue (s : SendSide) (node : SendNode) :
    (s.emplace node).sendQue = s.sendQue ++ [node] := rfl

@[simp]
theorem emplace_accepted (s : SendSide) (node : SendNode) :
    (s.emplace node).accepted = s.accepted ++ [node] := rfl

theorem emplace_burst (s : SendSide) (node : SendNode) :
    (s.emplace node).burst = if s.sendQue = [] then 1 else s.burst + 1 := rfl

/-- A node as its constructor leaves it: nothing counts as received, and there is a header. -/
structure Fresh (n : SendNode) : Prop where
  curLen : n.curLen = 0
  buffer : n.buffer ≠ []

theorem fresh_of_new {init : Nat → UInt8} {msg : List UInt8} {maxLen msgId : Int16} {n : SendNode}
    (h : SendNode.new init msg maxLen msgId = .ok n) : Fresh n := by
  obtain ⟨-, -, -, hcur, -, hbuf⟩ := sendNode_cases h
  refine ⟨hcur, ?_⟩
  rw [hbuf]
  exact List.cons_ne_nil _ _

/-- The write `HandleWrite` starts has no bytes. -/
theorem Fresh.received {n : SendNode} (h : Fresh n) : n.received = [] := by
  unfold MsgNode.received
  rw [h.curLen]
  rfl

/-- Everything `Send` can do: refuse, or push the node and write it if it is alone. -/
theorem send_cases {s t : SendSide} {msg : List UInt8} {maxLen msgid : Int16}
    (h : s.send heap msg maxLen msgid = some t) :
    t = s ∨ ∃ n, Fresh n ∧ s.sendQue.length ≤ maxSendque ∧
      (s.sendQue ≠ [] ∧ t = s.emplace n ∨
        s.sendQue = [] ∧ t = (s.emplace n).asyncWrite n n.buffer) := by
  unfold SendSide.send at h
  dsimp only at h
  split at h
  · exact Or.inl (Option.some.inj h).symm
  · rename_i hcap
    split at h
    · exact Or.inl (Option.some.inj h).symm
    · cases h
    · rename_i n hn
      refine Or.inr ⟨n, fresh_of_new hn, not_lt.mp hcap, ?_⟩
      split at h
      · rename_i hlen
        exact Or.inl ⟨List.ne_nil_of_length_pos hlen, (Option.some.inj h).symm⟩
      · rename_i hlen
        obtain hnil : s.sendQue = [] := by
          by_contra hne
          exact hlen (List.length_pos_iff.mpr hne)
        refine Or.inr ⟨hnil, ?_⟩
        have hq : (s.emplace n).sendQue = [n] := by rw [emplace_sendQue, hnil]; rfl
        rw [hq] at h
        exact (Option.some.inj h).symm

/-- What `Send` adds to the accepted nodes. -/
theorem send_accepted {s t : SendSide} {msg : List UInt8} {maxLen msgid : Int16}
    (h : s.send heap msg maxLen msgid = some t) :
    t.accepted = s.accepted ++ if maxSendque < s.sendQue.length then []
      else (SendNode.new (heap s.accepted.length) msg maxLen msgid).toOption.toList := by
  unfold SendSide.send at h
  dsimp only at h
  split at h
  · rename_i hfull
    obtain rfl := Option.some.inj h
    rw [if_pos hfull, List.append_nil]
  · rename_i hroom
    rw [if_neg hroom]
    split at h
    · rename_i hn
      obtain rfl := Option.some.inj h
      rw [hn]
      exact (List.append_nil _).symm
    · cases h
    · rename_i n hn
      rw [hn]
      split at h
      · obtain rfl := Option.some.inj h
        rfl
      · split at h
        · cases h
        · obtain rfl := Option.some.inj h
          rfl

/-- Below the limit a node that could be built is pushed. -/
theorem send_push {s : SendSide} {msg : List UInt8} {maxLen msgid : Int16} {n : SendNode}
    (h : s.sendQue.length ≤ maxSendque)
    (hn : SendNode.new (heap s.accepted.length) msg maxLen msgid = .ok n) :
    ∃ t, s.send heap msg maxLen msgid = some t ∧ t.sendQue = s.sendQue ++ [n] := by
  unfold SendSide.send
  rw [if_neg (not_lt.mpr h), hn]
  cases hq : s.sendQue with
  | nil => exact ⟨(s.emplace n).asyncWrite n n.buffer, by simp [hq], congrArg (· ++ [n]) hq⟩
  | cons node rest => exact ⟨s.emplace n, rfl, congrArg (· ++ [n]) hq⟩

/-- Everything `HandleWrite` can do without an error. -/
theorem written_cases {s t : SendSide} {i : Nat} (h : s.step heap (.written i) = some t) :
    i < s.outstanding.length ∧ ∃ node rest, s.sendQue = node :: rest ∧
      (rest = [] ∧ t = { s with outstanding := s.outstanding.eraseIdx i, sendQue := [],
                                written := s.written ++ [node] } ∨
        ∃ next more, rest = next :: more ∧
          t = { s with outstanding := s.outstanding.eraseIdx i, sendQue := next :: more,
                       written := s.written ++ [node], pending := s.pending ++ [next] }) := by
  change (if i < s.outstanding.length then _ else none) = some t at h
  split_ifs at h with hi
  refine ⟨hi, ?_⟩
  unfold SendSide.handleWrite at h
  split at h
  · cases h
  · rename_i node rest hq
    refine ⟨node, rest, hq, ?_⟩
    dsimp only at h
    split at h
    · exact Or.inl ⟨rfl, (Option.some.inj h).symm⟩
    · rename_i next more
      exact Or.inr ⟨next, more, rfl, (Option.some.inj h).symm⟩

theorem startPending_cases {s t : SendSide} {i : Nat} (h : s.startPending i = some t) :
    ∃ n, s.pending[i]? = some n ∧
      t = { s with pending := s.pending.eraseIdx i }.asyncWrite n n.received := by
  unfold SendSide.startPending at h
  split at h
  · cases h
  · rename_i n hn
    exact ⟨n, hn, (Option.some.inj h).symm⟩

theorem failed_cases {s t : SendSide} {i : Nat} (h : s.step heap (.failed i) = some t) :
    i < s.outstanding.length ∧
      t = SendSide.handleWriteError { s with outstanding := s.outstanding.eraseIdx i } := by
  change (if i < s.outstanding.length then _ else none) = some t at h
  split_ifs at h with hi
  exact ⟨hi, (Option.some.inj h).symm⟩

/-! ## The send side is a pipeline -/

/-- The pipeline a send side stands for: a transmission is under way from the push or the pop that
leads to it to its completion. -/
def SendSide.abs (s : SendSide) : Pipeline.State SendNode :=
  ⟨s.written, s.sendQue, !(s.outstanding.isEmpty && s.pending.isEmpty), s.failed⟩

/-- At most one write is under way: outstanding, or about to be started; it is for the front
node. -/
inductive Active (s : SendSide) : Prop
  | idle (ho : s.outstanding = []) (hp : s.pending = [])
  | writing (n : SendNode) (q : List SendNode) (bytes : List UInt8) (hq : s.sendQue = n :: q)
      (ho : s.outstanding = [⟨n, bytes⟩]) (hp : s.pending = [])
  | window (n : SendNode) (q : List SendNode) (hq : s.sendQue = n :: q) (ho : s.outstanding = [])
      (hp : s.pending = [n])

/-- What holds in every reachable state. -/
structure SendSide.Ok (s : SendSide) : Prop where
  sound : Pipeline.Sound s.abs
  active : Active s
  accepted : s.written ++ s.sendQue = s.accepted
  fresh : ∀ n ∈ s.accepted, Fresh n

theorem ok_empty : SendSide.empty.Ok where
  sound := Pipeline.sound_empty
  active := .idle rfl rfl
  accepted := rfl
  fresh n hn := by cases hn

/-- An outstanding write is alone, and it is for the front of the queue. -/
theorem SendSide.Ok.outstanding {s : SendSide} (h : s.Ok) {i : Nat}
    (hi : i < s.outstanding.length) :
    ∃ n q, s.sendQue = n :: q ∧ s.outstanding.eraseIdx i = [] ∧ s.pending = [] ∧
      s.abs = ⟨s.written, n :: q, true, s.failed⟩ := by
  cases h.active with
  | idle ho hp =>
    rw [ho] at hi
    exact absurd hi (Nat.not_lt_zero i)
  | writing n q bytes hq ho hp =>
    rw [ho, List.length_singleton, Nat.lt_one_iff] at hi
    subst hi
    exact ⟨n, q, hq, by rw [ho]; rfl, hp, by simp [SendSide.abs, hq, ho]⟩
  | window n q hq ho hp =>
    rw [ho] at hi
    exact absurd hi (Nat.not_lt_zero i)

/-- A pending write is alone, and it is for the front of the queue. -/
theorem SendSide.Ok.pending {s : SendSide} (h : s.Ok) {i : Nat} {n : SendNode}
    (hi : s.pending[i]? = some n) :
    (∃ q, s.sendQue = n :: q) ∧ s.outstanding = [] ∧ s.pending.eraseIdx i = [] ∧
      s.pending = [n] := by
  cases h.active with
  | idle ho hp =>
    rw [hp] at hi
    cases hi
  | writing m q bytes hq ho hp =>
    rw [hp] at hi
    cases hi
  | window m q hq ho hp =>
    rw [hp] at hi
    cases i with
    | zero =>
      obtain rfl := Option.some.inj hi
      exact ⟨⟨q, hq⟩, ho, by rw [hp]; rfl, hp⟩
    | succ i => cases hi

theorem fresh_append {s : SendSide} (hs : s.Ok) {n : SendNode} (hn : Fresh n) :
    ∀ m ∈ s.accepted ++ [n], Fresh m := by
  intro m hm
  rcases List.mem_append.mp hm with hm | hm
  · exact hs.fresh m hm
  · rw [List.mem_singleton.mp hm]
    exact hn

theorem send_refines {s t : SendSide} {msg : List UInt8} {maxLen msgid : Int16} (hs : s.Ok)
    (h : s.send heap msg maxLen msgid = some t) :
    t.Ok ∧ ∃ os, run Pipeline.step s.abs os = some t.abs := by
  rcases send_cases h with rfl | ⟨n, hn, -, ⟨hne, rfl⟩ | ⟨hnil, rfl⟩⟩
  · exact ⟨hs, [], rfl⟩
  · have hstep : Pipeline.step s.abs (.push n) = some (s.emplace n).abs := by
      rw [Pipeline.step_push]
      simp [SendSide.abs, SendSide.emplace, hne]
    refine ⟨⟨Pipeline.step_sound _ _ _ hs.sound hstep, ?_, ?_, fresh_append hs hn⟩, [.push n], ?_⟩
    · cases hs.active with
      | idle ho hp => exact .idle ho hp
      | writing m q bytes hq ho hp =>
        exact .writing m (q ++ [n]) bytes (by simp [SendSide.emplace, hq]) ho hp
      | window m q hq ho hp =>
        exact .window m (q ++ [n]) (by simp [SendSide.emplace, hq]) ho hp
    · rw [emplace_accepted, emplace_sendQue, ← hs.accepted, List.append_assoc]
      rfl
    · rw [run_cons, hstep]
      rfl
  · -- the queue was empty, so no write is under way
    obtain ⟨ho, hp⟩ : s.outstanding = [] ∧ s.pending = [] := by
      cases hs.active with
      | idle ho hp => exact ⟨ho, hp⟩
      | writing m q bytes hq _ _ =>
        rw [hnil] at hq
        cases hq
      | window m q hq _ _ =>
        rw [hnil] at hq
        cases hq
    have hq : (s.emplace n).sendQue = [n] := by rw [emplace_sendQue, hnil]; rfl
    have hstep : Pipeline.step s.abs (.push n) =
        some ((s.emplace n).asyncWrite n n.buffer).abs := by
      rw [Pipeline.step_push]
      simp [SendSide.abs, SendSide.asyncWrite, SendSide.emplace, hnil]
    refine ⟨⟨Pipeline.step_sound _ _ _ hs.sound hstep, ?_, ?_, fresh_append hs hn⟩, [.push n], ?_⟩
    · refine .writing n [] n.buffer hq ?_ hp
      exact congrArg (· ++ [_]) ho
    · have := hs.accepted
      rw [hnil, List.append_nil] at this
      exact congrArg₂ (· ++ ·) this hq
    · rw [run_cons, hstep]
      rfl

theorem written_refines {s t : SendSide} {i : Nat} (hs : s.Ok)
    (h : s.step heap (.written i) = some t) :
    t.Ok ∧ ∃ os, run Pipeline.step s.abs os = some t.abs := by
  obtain ⟨hi, node, rest, hq', hcases⟩ := written_cases h
  obtain ⟨n, q, hq, herase, hp, habs⟩ := hs.outstanding hi
  obtain ⟨rfl, rfl⟩ : n = node ∧ q = rest := List.cons.inj (hq.symm.trans hq')
  rw [herase, hp] at hcases
  have hacc := hs.accepted
  rw [hq] at hacc
  have hstep : Pipeline.step s.abs .complete = some t.abs := by
    rw [habs]
    rcases hcases with ⟨rfl, rfl⟩ | ⟨next, more, rfl, rfl⟩
    · show some _ = some (SendSide.abs _)
      simp [SendSide.abs]
    · show some _ = some (SendSide.abs _)
      simp [SendSide.abs]
  have hsound := Pipeline.step_sound _ _ _ hs.sound hstep
  refine ⟨?_, [.complete], by rw [run_cons, hstep]; rfl⟩
  rcases hcases with ⟨rfl, rfl⟩ | ⟨next, more, rfl, rfl⟩
  · refine ⟨hsound, .idle rfl rfl, ?_, hs.fresh⟩
    rw [← hacc]
    exact List.append_nil _
  · refine ⟨hsound, .window next more rfl rfl rfl, ?_, hs.fresh⟩
    rw [← hacc]
    exact List.append_assoc _ _ _

theorem startPending_refines {s t : SendSide} {i : Nat} (hs : s.Ok)
    (h : s.startPending i = some t) :
    t.Ok ∧ ∃ os, run Pipeline.step s.abs os = some t.abs := by
  obtain ⟨n, hn, rfl⟩ := startPending_cases h
  obtain ⟨⟨q, hq⟩, ho, herase, hp⟩ := hs.pending hn
  rw [herase]
  have habs : SendSide.abs ({ s with pending := [] }.asyncWrite n n.received) = s.abs := by
    simp [SendSide.abs, SendSide.asyncWrite, ho, hp]
  refine ⟨⟨by rw [habs]; exact hs.sound, ?_, hs.accepted, hs.fresh⟩, [], by rw [habs]; rfl⟩
  refine .writing n q n.received hq ?_ rfl
  rw [asyncWrite_outstanding, ho]
  rfl

theorem failed_refines {s t : SendSide} {i : Nat} (hs : s.Ok)
    (h : s.step heap (.failed i) = some t) :
    t.Ok ∧ ∃ os, run Pipeline.step s.abs os = some t.abs := by
  obtain ⟨hi, rfl⟩ := failed_cases h
  obtain ⟨n, q, hq, herase, hp, habs⟩ := hs.outstanding hi
  rw [herase]
  have hstep : Pipeline.step s.abs .fail =
      some (SendSide.handleWriteError { s with outstanding := [] }).abs := by
    rw [habs]
    show some _ = some (SendSide.abs _)
    simp [SendSide.abs, SendSide.handleWriteError, hp, hq]
  refine ⟨⟨Pipeline.step_sound _ _ _ hs.sound hstep, .idle rfl hp, hs.accepted, hs.fresh⟩, [.fail],
    ?_⟩
  rw [run_cons, hstep]
  rfl

/-- **Each step of the send side is one of the pipeline, or none.** -/
theorem step_refines (s : SendSide) (e : SendEvent) (t : SendSide) (hs : s.Ok)
    (h : s.step heap e = some t) : t.Ok ∧ ∃ os, run Pipeline.step s.abs os = some t.abs := by
  cases e with
  | send msg maxLen msgid => exact send_refines hs h
  | sendString msg msgid => exact send_refines hs h
  | written i => exact written_refines hs h
  | startPending i => exact startPending_refines hs h
  | failed i => exact failed_refines hs h

theorem run_ok {es : List SendEvent} {s : SendSide}
    (h : run (SendSide.step heap) SendSide.empty es = some s) : s.Ok :=
  (run_refines step_refines ok_empty h).1

/-! ## The accepted messages -/

theorem send_makes {s t : SendSide} {a : SendArgs} {xs : List SendArgs}
    (hxs : List.Forall₂ SendArgs.Makes xs s.accepted)
    (h : s.send heap a.msg a.maxLength a.msgid = some t) :
    List.Forall₂ SendArgs.Makes (xs ++ admitted s.sendQue.length [a]) t.accepted := by
  rw [send_accepted h]
  exact List.rel_append hxs (forall₂_admitted _ _ a)

/-- A step adds to the accepted nodes those of the `Send` it is. -/
theorem step_makes (xs : List SendArgs) (s : SendSide) (e : SendEvent) (t : SendSide)
    (hxs : List.Forall₂ SendArgs.Makes xs s.accepted) (h : s.step heap e = some t) :
    List.Forall₂ SendArgs.Makes (xs ++ admitted s.sendQue.length e.args) t.accepted := by
  have hnone : admitted s.sendQue.length [] = [] := ite_self []
  cases e with
  | send msg maxLen msgid => exact @send_makes heap s t ⟨msg, maxLen, msgid⟩ xs hxs h
  | sendString msg msgid => exact @send_makes heap s t (.ofString msg msgid) xs hxs h
  | written i =>
    rw [SendEvent.args, hnone, List.append_nil]
    obtain ⟨-, node, rest, -, ⟨-, rfl⟩ | ⟨next, more, -, rfl⟩⟩ := written_cases h
    · exact hxs
    · exact hxs
  | startPending i =>
    rw [SendEvent.args, hnone, List.append_nil]
    obtain ⟨n, -, rfl⟩ := startPending_cases h
    exact hxs
  | failed i =>
    rw [SendEvent.args, hnone, List.append_nil]
    obtain ⟨-, rfl⟩ := failed_cases h
    exact hxs

/-- **The accepted nodes are those of the accepted messages.** -/
theorem accepted_makes {es : List SendEvent} {s : SendSide}
    (h : run (SendSide.step heap) SendSide.empty es = some s) :
    List.Forall₂ SendArgs.Makes (messages heap es) s.accepted := by
  have hempty : List.Forall₂ SendArgs.Makes [] SendSide.empty.accepted := List.Forall₂.nil
  have hmakes := run_outputs (R := fun xs s => List.Forall₂ SendArgs.Makes xs s.accepted)
    step_makes hempty h
  exact hmakes

/-! ## One write at a time -/

/-- What a step may start: nothing, or a write of the node that is then in front. -/
def StartsFront (s t : SendSide) : Prop :=
  t.started = s.started ∨ ∃ w q, t.started = s.started ++ [w] ∧ t.sendQue = w.node :: q

theorem send_startsFront {s t : SendSide} {msg : List UInt8} {maxLen msgid : Int16}
    (h : s.send heap msg maxLen msgid = some t) : StartsFront s t := by
  rcases send_cases h with rfl | ⟨n, -, -, ⟨-, rfl⟩ | ⟨hnil, rfl⟩⟩
  · exact Or.inl rfl
  · exact Or.inl rfl
  · refine Or.inr ⟨_, [], asyncWrite_started .., ?_⟩
    show (s.emplace n).sendQue = [n]
    rw [emplace_sendQue, hnil]
    rfl

theorem step_startsFront {s t : SendSide} {e : SendEvent} (hs : s.Ok)
    (h : s.step heap e = some t) : StartsFront s t := by
  cases e with
  | send msg maxLen msgid => exact send_startsFront h
  | sendString msg msgid => exact send_startsFront h
  | written i =>
    obtain ⟨-, node, rest, -, ⟨-, rfl⟩ | ⟨next, more, -, rfl⟩⟩ := written_cases h
    · exact Or.inl rfl
    · exact Or.inl rfl
  | startPending i =>
    obtain ⟨n, hn, rfl⟩ := startPending_cases h
    obtain ⟨⟨q, hq⟩, -⟩ := hs.pending hn
    exact Or.inr ⟨_, q, asyncWrite_started .., hq⟩
  | failed i =>
    obtain ⟨-, rfl⟩ := failed_cases h
    exact Or.inl rfl

theorem Active.length_le {s : SendSide} (h : Active s) :
    s.outstanding.length + s.pending.length ≤ 1 := by
  cases h with
  | idle ho hp => simp [ho, hp]
  | writing n q bytes hq ho hp => simp [ho, hp]
  | window n q hq ho hp => simp [ho, hp]

/-- The rest of a pending `HandleWrite` can always be taken, and it starts the write of its node. -/
theorem SendSide.Ok.startPending {s : SendSide} (hs : s.Ok) {n : SendNode} (hn : n ∈ s.pending) :
    ∃ t, s.step heap (.startPending 0) = some t ∧ t.started = s.started ++ [⟨n, n.received⟩] ∧
      t.outstanding = [⟨n, n.received⟩] := by
  obtain ⟨i, hi⟩ := List.mem_iff_getElem?.mp hn
  obtain ⟨-, ho, -, hp⟩ := hs.pending hi
  have hstep : s.startPending 0 =
      some ({ s with pending := s.pending.eraseIdx 0 }.asyncWrite n n.received) := by
    unfold SendSide.startPending
    rw [hp]
    rfl
  refine ⟨_, hstep, asyncWrite_started .., ?_⟩
  rw [asyncWrite_outstanding, ho]
  rfl

/-- **One write in flight**, the stretch of `HandleWrite` behind `unlock` counted. -/
theorem one_write_in_flight {es : List SendEvent} {s : SendSide}
    (h : run (SendSide.step heap) SendSide.empty es = some s) :
    s.outstanding.length + s.pending.length ≤ 1 ∧
    (∀ e t, s.step heap e = some t →
      t.started = s.started ∨ ∃ w q, t.started = s.started ++ [w] ∧ t.sendQue = w.node :: q) ∧
    (s.failed = false → s.sendQue ≠ [] → s.outstanding ≠ [] ∨ s.pending ≠ []) ∧
    ∀ n ∈ s.pending, ∃ t, s.step heap (.startPending 0) = some t ∧
      t.started = s.started ++ [⟨n, n.received⟩] ∧ t.outstanding = [⟨n, n.received⟩] := by
  have hs := run_ok h
  refine ⟨hs.active.length_le, fun e t hstep => step_startsFront hs hstep, ?_,
    fun n hn => hs.startPending hn⟩
  intro hf hq
  have hbusy : (!(s.outstanding.isEmpty && s.pending.isEmpty)) = true :=
    hs.sound.busy.mpr ⟨hq, hf⟩
  by_contra hno
  obtain ⟨ho, hp⟩ := not_or.mp hno
  simp [not_not.mp ho, not_not.mp hp] at hbusy

/-- A message sent in the window of another's write. -/
theorem one_write_in_flight_two : ∃ s, run (SendSide.step fun _ _ => 0) SendSide.empty
      [.sendString [97] 1001, .sendString [98] 1001, .written 0, .sendString [99] 1001] = some s ∧
    s.outstanding.length + s.pending.length ≤ 1 ∧
    (∀ e t, s.step (fun _ _ => 0) e = some t →
      t.started = s.started ∨ ∃ w q, t.started = s.started ++ [w] ∧ t.sendQue = w.node :: q) ∧
    (s.failed = false → s.sendQue ≠ [] → s.outstanding ≠ [] ∨ s.pending ≠ []) ∧
    ∀ n ∈ s.pending, ∃ t, s.step (fun _ _ => 0) (.startPending 0) = some t ∧
      t.started = s.started ++ [⟨n, n.received⟩] ∧ t.outstanding = [⟨n, n.received⟩] :=
  ⟨_, rfl, @one_write_in_flight (fun _ _ => 0) [.sendString [97] 1001, .sendString [98] 1001,
    .written 0, .sendString [99] 1001] _ rfl⟩

/-! ## The bytes handed to the socket -/

/-- The bytes handed over are the whole frames of the nodes accepted first, no written node left
out, and of all of them when the queue is empty. -/
def Whole (s : SendSide) : Prop :=
  (∃ k, s.written.length ≤ k ∧
    s.handed = (s.accepted.take k).flatMap fun n => n.data.take (sizeT n.totalLen.toInt)) ∧
  (s.sendQue = [] → s.handed = s.accepted.flatMap fun n => n.data.take (sizeT n.totalLen.toInt))

/-- A write that completes is of a node whose `Send` found the queue empty: nothing of the burst has
been popped before it. -/
def FirstWritten (s : SendSide) : SendEvent → Prop
  | .written _ => s.sendQue.length = s.burst
  | _ => True

/-- What is handed over: everything accepted before the burst, and of the burst its first frame. No
more than that one node of the burst has been popped. -/
structure Handed (s : SendSide) : Prop where
  ok : s.Ok
  idle : s.sendQue = [] → s.handed = s.accepted.flatMap fun n => n.buffer
  burst : s.sendQue ≠ [] → ∃ old first more, s.accepted = old ++ first :: more ∧
    s.burst = more.length + 1 ∧ s.handed = old.flatMap (fun n => n.buffer) ++ first.buffer ∧
    s.sendQue.length ≤ s.burst ∧ s.burst ≤ s.sendQue.length + 1

theorem handed_asyncWrite (s : SendSide) (node : SendNode) (bytes : List UInt8) :
    (s.asyncWrite node bytes).handed = s.handed ++ bytes := by
  unfold SendSide.handed
  rw [asyncWrite_started, List.flatMap_append, List.flatMap_singleton]

theorem handed_empty : Handed SendSide.empty where
  ok := ok_empty
  idle _ := rfl
  burst h := absurd rfl h

/-- The frames of the messages before the burst, and its first one. -/
theorem flatMap_take_first {α β : Type} (f : α → List β) (old : List α) (first : α)
    (more : List α) :
    ((old ++ first :: more).take (old.length + 1)).flatMap f = old.flatMap f ++ f first := by
  rw [List.take_append, List.take_of_length_le (Nat.le_succ _), Nat.add_sub_cancel_left,
    List.take_succ_cons, List.take_zero, List.flatMap_append, List.flatMap_singleton]

theorem SendSide.Ok.length_accepted {s : SendSide} (hs : s.Ok) :
    s.written.length + s.sendQue.length = s.accepted.length := by
  rw [← hs.accepted, List.length_append]

theorem Handed.whole (s : SendSide) (h : Handed s) : Whole s := by
  refine ⟨?_, h.idle⟩
  have hlen := h.ok.length_accepted
  by_cases hq : s.sendQue = []
  · refine ⟨s.accepted.length, by omega, ?_⟩
    rw [List.take_length]
    exact h.idle hq
  · obtain ⟨old, first, more, hacc, hb, hh, -, hle⟩ := h.burst hq
    rw [hacc, List.length_append, List.length_cons] at hlen
    refine ⟨old.length + 1, by omega, ?_⟩
    rw [hh, hacc]
    exact (flatMap_take_first (fun n => n.buffer) old first more).symm

theorem handed_send {s t : SendSide} {msg : List UInt8} {maxLen msgid : Int16} (hs : Handed s)
    (h : s.send heap msg maxLen msgid = some t) : Handed t := by
  have hok := (send_refines hs.ok h).1
  rcases send_cases h with rfl | ⟨n, -, -, ⟨hne, rfl⟩ | ⟨hnil, rfl⟩⟩
  · exact hs
  · refine ⟨hok, ?_, ?_⟩
    · intro hq
      exact absurd hq (List.append_ne_nil_of_right_ne_nil _ (List.cons_ne_nil n []))
    · intro _
      obtain ⟨old, first, more, hacc, hb, hh, hle, hge⟩ := hs.burst hne
      refine ⟨old, first, more ++ [n], ?_, ?_, hh, ?_⟩
      · rw [emplace_accepted, hacc, List.append_assoc, List.cons_append]
      · rw [emplace_burst, if_neg hne, hb, List.length_append, List.length_singleton]
      · rw [emplace_burst, if_neg hne, emplace_sendQue, List.length_append, List.length_singleton]
        omega
  · have hone : (s.emplace n).burst = 1 := if_pos hnil
    have hque : (s.emplace n).sendQue = [n] := by rw [emplace_sendQue, hnil]; rfl
    refine ⟨hok, ?_, fun _ => ⟨s.accepted, n, [], rfl, hone, ?_, ?_⟩⟩
    · intro hq
      exact absurd hq (List.append_ne_nil_of_right_ne_nil _ (List.cons_ne_nil n []))
    · rw [handed_asyncWrite, ← hs.idle hnil]
      rfl
    · show (s.emplace n).sendQue.length ≤ (s.emplace n).burst ∧
        (s.emplace n).burst ≤ (s.emplace n).sendQue.length + 1
      rw [hone, hque, List.length_singleton]
      omega

theorem handed_step (s : SendSide) (e : SendEvent) (t : SendSide) (hs : Handed s)
    (hC : FirstWritten s e) (h : s.step heap e = some t) : Handed t := by
  have hok := (step_refines s e t hs.ok h).1
  cases e with
  | send msg maxLen msgid => exact handed_send hs h
  | sendString msg msgid => exact handed_send hs h
  | written i =>
    obtain ⟨-, node, rest, hq, hcases⟩ := written_cases h
    obtain ⟨old, first, more, hacc, hb, hh, hle, hge⟩ :=
      hs.burst (by rw [hq]; exact List.cons_ne_nil _ _)
    have hfirst : s.sendQue.length = s.burst := hC
    rw [hq, List.length_cons] at hfirst
    rcases hcases with ⟨rfl, rfl⟩ | ⟨next, rest', rfl, rfl⟩
    · refine ⟨hok, fun _ => ?_, fun hne => absurd rfl hne⟩
      -- a burst of one: its first frame is all of it
      rw [List.length_nil] at hfirst
      obtain rfl : more = [] := List.eq_nil_of_length_eq_zero (by omega)
      show s.handed = s.accepted.flatMap _
      rw [hh, hacc, List.flatMap_append, List.flatMap_singleton]
    · refine ⟨hok, fun hq' => (by cases hq'), fun _ => ⟨old, first, more, hacc, hb, hh, ?_⟩⟩
      show (next :: rest').length ≤ s.burst ∧ s.burst ≤ (next :: rest').length + 1
      omega
  | startPending i =>
    obtain ⟨n, hn, rfl⟩ := startPending_cases h
    obtain ⟨⟨q, hq⟩, -⟩ := hs.ok.pending hn
    have hfresh : Fresh n := by
      refine hs.ok.fresh n ?_
      rw [← hs.ok.accepted, hq]
      exact List.mem_append_right _ List.mem_cons_self
    have hhanded : (SendSide.asyncWrite { s with pending := s.pending.eraseIdx i } n
        n.received).handed = s.handed := by
      rw [handed_asyncWrite, hfresh.received, List.append_nil]
      rfl
    refine ⟨hok, ?_, ?_⟩
    · intro hnil
      rw [hhanded]
      exact hs.idle hnil
    · intro hne
      rw [hhanded]
      exact hs.burst hne
  | failed i =>
    obtain ⟨-, rfl⟩ := failed_cases h
    exact ⟨hok, hs.idle, hs.burst⟩

/-- Popping a second node of a burst leaves its frame out. -/
theorem not_whole_of_second (s : SendSide) (e : SendEvent) (t : SendSide) (hs : Handed s)
    (hC : ¬ FirstWritten s e) (h : s.step heap e = some t) : ¬ Whole t := by
  cases e with
  | written i =>
    have hC : s.sendQue.length ≠ s.burst := hC
    obtain ⟨-, node, rest, hq, hcases⟩ := written_cases h
    obtain ⟨old, first, more, hacc, hb, hh, hle, hge⟩ :=
      hs.burst (by rw [hq]; exact List.cons_ne_nil _ _)
    have hlen := hs.ok.length_accepted
    rw [hacc, List.length_append, List.length_cons] at hlen
    obtain ⟨hacc', hhanded, hwritten⟩ : t.accepted = s.accepted ∧ t.handed = s.handed ∧
        t.written.length = old.length + 2 := by
      rcases hcases with ⟨-, rfl⟩ | ⟨next, rest', -, rfl⟩
      · refine ⟨rfl, rfl, ?_⟩
        rw [List.length_append, List.length_singleton]
        omega
      · refine ⟨rfl, rfl, ?_⟩
        rw [List.length_append, List.length_singleton]
        omega
    rintro ⟨⟨k, hk, hwhole⟩, -⟩
    have hwhole : t.handed = (t.accepted.take k).flatMap fun n => n.buffer := hwhole
    cases more with
    | nil =>
      rw [hq, List.length_cons] at hC hle
      exact hC (by rw [List.length_nil] at hb; omega)
    | cons second more =>
      -- of the second node there is a frame, and none of it was handed over
      have htake : (old ++ first :: second :: more).take k =
          old ++ first :: second :: more.take (k - (old.length + 2)) := by
        rw [List.take_append, List.take_of_length_le (by omega),
          show k - old.length = k - (old.length + 2) + 1 + 1 by omega, List.take_succ_cons,
          List.take_succ_cons]
      rw [hhanded, hh, hacc', hacc, htake, List.flatMap_append, List.flatMap_cons,
        List.append_right_inj, List.flatMap_cons] at hwhole
      have hnone := List.self_eq_append_right.mp hwhole
      refine (hs.ok.fresh second ?_).buffer (List.append_eq_nil_iff.mp hnone).1
      rw [hacc]
      exact List.mem_append_right _ (List.mem_cons_of_mem _ List.mem_cons_self)
  | send _ _ _ => exact absurd trivial hC
  | sendString _ _ => exact absurd trivial hC
  | startPending _ => exact absurd trivial hC
  | failed _ => exact absurd trivial hC

/-- **When the bytes handed over are the accepted frames**: in every state of a run, exactly when
every write that completes in it is of a node whose `Send` found the queue empty. The accepted nodes
are always those of the accepted messages. -/
theorem handed_whole_iff {es : List SendEvent} {s : SendSide}
    (h : run (SendSide.step heap) SendSide.empty es = some s) :
    List.Forall₂ SendArgs.Makes (messages heap es) s.accepted ∧
    ((∀ es₁ es₂ t, es = es₁ ++ es₂ → run (SendSide.step heap) SendSide.empty es₁ = some t →
      Whole t) ↔ Meets (SendSide.step heap) FirstWritten SendSide.empty es) :=
  ⟨accepted_makes h, meets_iff handed_step Handed.whole not_whole_of_second handed_empty h⟩

/-- Two messages, each sent when the queue is empty, and their writes. -/
theorem handed_whole_two : ∃ s, run (SendSide.step fun _ _ => 0) SendSide.empty
      [.sendString [97] 1001, .written 0, .send [98, 99] 2 1002, .written 0] = some s ∧
    s.handed = [3, 233, 0, 1, 97, 3, 234, 0, 2, 98, 99] ∧
    List.Forall₂ SendArgs.Makes [⟨[97, 0], 1, 1001⟩, ⟨[98, 99], 2, 1002⟩] s.accepted ∧
    ((∀ es₁ es₂ t, ([.sendString [97] 1001, .written 0, .send [98, 99] 2 1002, .written 0] :
        List SendEvent) = es₁ ++ es₂ →
      run (SendSide.step fun _ _ => 0) SendSide.empty es₁ = some t → Whole t) ↔
      Meets (SendSide.step fun _ _ => 0) FirstWritten SendSide.empty
        [.sendString [97] 1001, .written 0, .send [98, 99] 2 1002, .written 0]) :=
  ⟨_, rfl, by decide, @handed_whole_iff (fun _ _ => 0)
    [.sendString [97] 1001, .written 0, .send [98, 99] 2 1002, .written 0] _ rfl⟩

/-- Two messages sent before the first write completes: the second is never handed over. -/
theorem handed_lost : ¬ ∀ (heap : Nat → Nat → UInt8) (es : List SendEvent) (s : SendSide),
    run (SendSide.step heap) SendSide.empty es = some s → Whole s := by
  intro h
  have hwhole := h (fun _ _ => 0) [.sendString [97] 1001, .sendString [98] 1001, .written 0,
    .startPending 0, .written 0] _ rfl
  exact absurd (hwhole.2 rfl) (by decide)

end AsioLearn.BoostCoServer
