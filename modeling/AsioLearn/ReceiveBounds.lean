import AsioLearn.LogicServer.Chunking
import AsioLearn.BoostCoServer.Refine

/-!
# Receive-side bounds of both servers

The model's memory accesses are checked: one outside its block is `Outcome.undefined`. What is
shown here for a stream is that no delivery of it ends there, together with what the code's bounds
rest on: every message node is of a length from `0` to `maxLength` with one byte more in its block,
and at every head of `HandleRead`'s loop `copy_len + bytes_transferred` is the length of the read.

* `NodesOk` is an invariant of every statement of both receive loops, proved by the rules of
  `Lib.Hoare`, whatever else the session holds. A node `logicServer` has posted is full as well.
* `head_spec`: the sum at the loop heads, from the loop invariant `LoopInv`.
* `receiveSafe_iff`, for either server: one delivery to `logicServer`, or one stream to
  `BoostCoServer`, is safe exactly when the decoder does not stop at a header with the length `-1`
  (behind messages that all have a payload, for `BoostCoServer`).
* `receive_bounds_iff`: both servers stay within their bounds, on every delivery of a stream, if
  and only if the stream has no four bytes that read as a header with the length `-1`. The length
  is checked from above only; at `-1` the block has no bytes and the terminator goes in front of
  it, below `-1` the allocation throws.
-/

namespace AsioLearn

open AsioLearn.Cpp AsioLearn.Wire AsioLearn.Lib AsioLearn.Lib.Hoare AsioLearn.Lib.Transducer

/-- The bounds do not see the contents of a block, nor `_cur_len`. -/
theorem RecvNode.InBounds.congr {n m : RecvNode} (h : n.InBounds) (ht : m.totalLen = n.totalLen)
    (hl : m.data.length = n.data.length) : m.InBounds :=
  ⟨ht ▸ h.nonneg, ht ▸ h.le, hl.trans (ht ▸ h.length)⟩

/-- A node within the bounds has as many bytes as its length says. -/
theorem RecvNode.InBounds.holds {n : RecvNode} (h : n.InBounds) :
    0 ≤ n.totalLen.toInt ∧ n.totalLen.toInt ≤ n.data.length := by
  have h0 := h.nonneg
  have hlen := h.length
  omega

theorem store_length {mem mem' : List UInt8} {i : Int} {b : UInt8}
    (h : store mem i b = .ok mem') : mem'.length = mem.length := by
  unfold store at h
  split at h
  · obtain rfl := Except.ok.inj h
    exact List.length_set
  · cases h

namespace LogicServer

/-! ## `logicServer`: the nodes -/

/-- Every message node of the session is within the bounds, and one that has been posted is full. -/
structure NodesOk (s : Session) : Prop where
  current : ∀ n, s.recvMsgNode = some n → n.InBounds
  posted : ∀ n ∈ s.posted, n.InBounds
  full : ∀ n ∈ s.posted, n.curLen = n.totalLen

/-- What both ways out of a statement keep. -/
abbrev KeepsNodes (r : Except Exit Cursor) : Prop :=
  Ends (fun c => NodesOk c.session) (fun e => NodesOk e.session) r

theorem attempt_ends {α : Type} {Q : α → Prop} {s : Session} {r : Except Fault α}
    (hs : NodesOk s) (hr : ∀ a, r = .ok a → Q a) :
    Ends Q (fun e => NodesOk e.session) (s.attempt r) := by
  match r, hr with
  | .ok a, hr => exact hr a rfl
  | .error .badArrayNewLength, _ => exact hs
  | .error .outOfBounds, _ => exact hs

theorem NodesOk.congr {s t : Session} (h : NodesOk s) (hn : t.recvMsgNode = s.recvMsgNode)
    (hp : t.posted = s.posted) : NodesOk t :=
  ⟨hn ▸ h.current, hp ▸ h.posted, hp ▸ h.full⟩

theorem NodesOk.setNode {s : Session} {n : RecvNode} (h : NodesOk s) (hn : n.InBounds)
    (data : List UInt8) (cur : Int16) (hl : data.length = n.data.length) :
    NodesOk { s with recvMsgNode := some { n with data, curLen := cur } } where
  current _ hm := Option.some.inj hm ▸ hn.congr rfl hl
  posted := h.posted
  full := h.full

theorem asyncReadSome_nodes {s t : Session} (hs : NodesOk s) (h : s.asyncReadSome = .ok t) :
    NodesOk t := by
  unfold Session.asyncReadSome at h
  cases hm : memset s.data maxLength with
  | error e =>
    rw [hm] at h
    cases h
  | ok data =>
    rw [hm] at h
    obtain rfl := Except.ok.inj h
    exact hs.congr rfl rfl

theorem finish_nodes {s : Session} {node : RecvNode} {copyLen : Int} {bytes : Nat}
    (hs : NodesOk s) (hn : node.InBounds) (hfull : node.curLen = node.totalLen) :
    KeepsNodes (finish s node copyLen bytes) := by
  have hs' : NodesOk { s with posted := s.posted ++ [node], bHeadParse := false } := by
    refine ⟨hs.current, ?_, ?_⟩
    · exact List.forall_mem_append.mpr ⟨hs.posted, List.forall_mem_singleton.mpr hn⟩
    · exact List.forall_mem_append.mpr ⟨hs.full, List.forall_mem_singleton.mpr hfull⟩
  unfold finish
  refine ends_bind (attempt_ends (Q := fun _ => True) hs' fun _ _ => trivial) fun head _ => ?_
  have hs'' := NodesOk.congr (t := { s with
    posted := s.posted ++ [node], bHeadParse := false, recvHeadNode := head }) hs' rfl rfl
  refine ends_ite (fun _ => ?_) fun _ => hs''
  exact ends_bind (attempt_ends hs'' fun _ ht => asyncReadSome_nodes hs'' ht) fun _ ht => ht

/-- The last bytes of a payload, its terminator, and the message posted. -/
theorem complete_nodes {s : Session} {node : RecvNode} {dst src last copyLen : Int} {n bytes : Nat}
    {curLen : Int16} (hs : NodesOk s) (hn : node.InBounds) (hfull : curLen = node.totalLen) :
    KeepsNodes (do
      let data ← s.attempt (memcpy node.data dst s.data src n)
      let data ← s.attempt (store data last 0)
      finish { s with recvMsgNode := some { node with data, curLen } } { node with data, curLen }
        copyLen bytes) := by
  refine ends_bind (attempt_ends (Q := fun data => data.length = node.data.length) hs
    fun _ hd => memcpy_length hd) fun data hdata => ?_
  refine ends_bind (attempt_ends (Q := fun data' => data'.length = node.data.length) hs
    fun _ hd => (store_length hd).trans hdata) fun data' hdata' => ?_
  exact finish_nodes (hs.setNode hn data' _ hdata') (hn.congr rfl hdata') hfull

/-- A copy into a node, and the node written back: the read goes on or is over. -/
theorem openMsg_nodes {s : Session} {msgId msgLen : Int16} {copyLen : Int} {bytes : Nat}
    (hs : NodesOk s) (hle : msgLen.toInt ≤ maxLength) :
    KeepsNodes (openMsg s msgId msgLen copyLen bytes) := by
  unfold openMsg
  refine ends_bind (attempt_ends (Q := fun n => n.InBounds ∧ n.curLen = 0 ∧ n.totalLen = msgLen) hs
    fun _ hn => RecvNode.inBounds_of_new hle hn) fun node ⟨hnode, hcur, htot⟩ => ?_
  refine ends_ite (fun _ => ?_) fun _ => ?_
  · refine ends_bind (attempt_ends (Q := fun data => data.length = node.data.length) hs
      fun _ hd => memcpy_length hd) fun data hdata => ?_
    refine ends_bind (attempt_ends hs
      fun _ ht => asyncReadSome_nodes (hs.setNode hnode data _ hdata) ht) fun t ht => ?_
    exact NodesOk.congr ht rfl rfl
  · refine complete_nodes hs hnode ?_
    rw [hcur, htot]
    exact (congrArg short (Int.zero_add _)).trans (short_of_toInt msgLen)

theorem readHead_nodes {c : Cursor} (hs : NodesOk c.session) : KeepsNodes (readHead c) := by
  unfold readHead
  refine ends_ite (fun _ => ?_) fun _ => ?_
  · refine ends_bind (attempt_ends (Q := fun _ => True) hs fun _ _ => trivial) fun data _ => ?_
    have hs' := NodesOk.congr (t := { c.session with
      recvHeadNode := { c.session.recvHeadNode with data } }) hs rfl rfl
    exact ends_bind (attempt_ends hs fun _ ht => asyncReadSome_nodes hs' ht) fun _ ht => ht
  · refine ends_bind (attempt_ends (Q := fun _ => True) hs fun _ _ => trivial) fun data _ => ?_
    have hs' := NodesOk.congr (t := { c.session with
      recvHeadNode := { c.session.recvHeadNode with data } }) hs rfl rfl
    refine ends_bind (attempt_ends (Q := fun _ => True) hs' fun _ _ => trivial) fun msgId _ => ?_
    refine ends_ite (fun _ => hs'.congr rfl rfl) fun _ => ?_
    refine ends_bind (attempt_ends (Q := fun _ => True) hs' fun _ _ => trivial) fun msgLen _ => ?_
    exact ends_ite (fun _ => hs'.congr rfl rfl) fun hle => openMsg_nodes hs' (not_lt.mp hle)

theorem readBody_nodes {c : Cursor} (hs : NodesOk c.session) : KeepsNodes (readBody c) := by
  unfold readBody
  dsimp only
  cases hn : c.session.recvMsgNode with
  | none => exact hs
  | some node =>
    have hnode := hs.current node hn
    refine ends_ite (fun _ => ?_) fun _ => ?_
    · refine ends_bind (attempt_ends (Q := fun data => data.length = node.data.length) hs
        fun _ hd => memcpy_length hd) fun data hdata => ?_
      exact ends_bind (attempt_ends hs
        fun _ ht => asyncReadSome_nodes (hs.setNode hnode data _ hdata) ht) fun _ ht => ht
    · refine complete_nodes hs hnode ?_
      exact (congrArg short (by omega)).trans (short_of_toInt node.totalLen)

/-- **Every way through the loop body keeps the nodes within the bounds.** -/
theorem loopBody_nodes {c : Cursor} (hs : NodesOk c.session) : KeepsNodes (loopBody c) := by
  unfold loopBody
  exact ends_ite (fun _ => readBody_nodes hs) fun _ => readHead_nodes hs

theorem handleRead_nodes {s : Session} {bytes : Nat} {e : Exit} (hs : NodesOk s)
    (h : handleRead s bytes = some e) : NodesOk e.session := by
  unfold handleRead at h
  cases hr : Loop.iterate loopCond loopBody (bytes + 1) ⟨s, 0, bytes⟩ with
  | none =>
    rw [hr] at h
    cases h
  | some r =>
    have hends := Loop.iterate_ends (fun _ => loopBody_nodes) hs hr
    rw [hr] at h
    cases r with
    | ok c =>
      obtain rfl := Option.some.inj h
      exact hends
    | error e' =>
      obtain rfl := Option.some.inj h
      exact hends

theorem runReads_nodes {s : Session} {reads : List (List UInt8)} {e : Exit} (hs : NodesOk s)
    (h : runReads s reads = some e) : NodesOk e.session := by
  induction reads generalizing s with
  | nil =>
    obtain rfl := Option.some.inj h
    exact hs
  | cons xs rest ih =>
    unfold runReads at h
    split at h
    · obtain rfl := Option.some.inj h
      exact hs
    · have hdel : NodesOk (s.deliver xs) := hs.congr rfl rfl
      split at h
      · cases h
      · rename_i s' hh
        obtain rfl := Option.some.inj h
        exact handleRead_nodes hdel hh
      · rename_i s' hh
        exact ih (handleRead_nodes hdel hh) h
      · rename_i s' hh
        exact ih (handleRead_nodes hdel hh) h

theorem fresh_nodes : NodesOk Session.fresh where
  current n hn := by cases hn
  posted n hn := by cases hn
  full n hn := by cases hn

/-! ## `logicServer`: the loop heads -/

/-- `c` is a loop head of the call of `HandleRead` that a run over `reads` makes for the read
`xs`. -/
def HeadOf (reads : List (List UInt8)) (xs : List UInt8) (c : Cursor) : Prop :=
  ∃ before after e, reads = before ++ xs :: after ∧
    runReads Session.fresh before = some e ∧ (∀ s, e ≠ .undefined s) ∧ e.session.armed ≠ 0 ∧
    Loop.Heads loopCond loopBody ⟨e.session.deliver xs, 0, xs.length⟩ c

/-- At a loop head the nodes are within the bounds, and what is copied and what is left add up to
the read. -/
theorem head_spec {s : List UInt8} {c : Cutting s} {xs : List UInt8} {cur : Cursor}
    (h : HeadOf c.reads xs cur) :
    cur.copyLen + cur.bytesTransferred = xs.length ∧ NodesOk cur.session := by
  obtain ⟨before, after, e, hreads, hrun, -, harmed, hheads⟩ := h
  have hmem : ∀ r ∈ before, r ∈ c.reads := fun r hr => by
    rw [hreads]
    exact List.mem_append_left _ hr
  have hxs : xs ∈ c.reads := by
    rw [hreads]
    exact List.mem_append_right _ List.mem_cons_self
  obtain ⟨e', he', hends⟩ := runReads_refines live_fresh (fun r hr => c.nonempty r (hmem r hr))
    fun r hr => c.bounded r (hmem r hr)
  obtain rfl := Option.some.inj (hrun.symm.trans he')
  obtain ⟨t, rfl, hlive⟩ :=
    hends.live fun h' hst => harmed (hends.dead ⟨h', hst⟩)
  constructor
  · have hinv := Loop.heads_invariant (loopInv_deliver hlive (c.nonempty xs hxs) (c.bounded xs hxs))
      (fun a b hI _ hb => ?_) hheads
    · obtain ⟨pre, ys, d, hat, -, hcat, -⟩ := hinv
      rw [hat.copyLen, hat.left, ← hcat, List.length_append]
      omega
    · rcases loopBody_spec hI with ⟨e', he', -⟩ | ⟨b', hb', hI', -⟩
      · rw [he'] at hb
        cases hb
      · rw [hb'] at hb
        obtain rfl := Except.ok.inj hb
        exact hI'
  · have hnodes := runReads_nodes fresh_nodes hrun
    refine Loop.heads_invariant (I := fun a => NodesOk a.session) (hnodes.congr rfl rfl)
      (fun a b ha _ hb => ?_) hheads
    have hends := loopBody_nodes ha
    rw [hb] at hends
    exact hends

/-- `HandleRead` stays within its bounds on one delivery. -/
structure ReceiveSafe {s : List UInt8} (c : Cutting s) : Prop where
  ends : ∃ e, runReads Session.fresh c.reads = some e ∧ e.outcome ≠ .undefined ∧
    NodesOk e.session
  heads : ∀ xs cur, HeadOf c.reads xs cur →
    cur.copyLen + cur.bytesTransferred = xs.length ∧ NodesOk cur.session

theorem decOutcome_undefined_iff {d : DecState} :
    decOutcome d = .undefined ↔ ∃ hd, d = .stopped hd ∧ hd.IdOk ∧ hd.len.toInt = -1 := by
  constructor
  · intro h
    cases d with
    | header _ => cases h
    | payload _ _ _ => cases h
    | stopped hd => exact ⟨hd, rfl, stopOutcome_undefined_iff.mp h⟩
  · rintro ⟨hd, rfl, hlen⟩
    exact stopOutcome_undefined_iff.mpr hlen

/-- **One delivery** is safe exactly when its decoding does not stop at a header with the length
`-1`. -/
theorem receiveSafe_iff {s : List UInt8} (c : Cutting s) :
    ReceiveSafe c ↔ ∀ hd, (decodeReads (.header []) c.reads).1 = .stopped hd → hd.IdOk →
      hd.len.toInt ≠ -1 := by
  obtain ⟨e, he, hends⟩ := runReads_fresh c
  constructor
  · rintro ⟨⟨e', he', hdef, -⟩, -⟩ hd hst hid hlen
    obtain rfl := Option.some.inj (he.symm.trans he')
    exact hdef (hends.outcome.trans (decOutcome_undefined_iff.mpr ⟨hd, hst, hid, hlen⟩))
  · intro h
    refine ⟨⟨e, he, ?_, runReads_nodes fresh_nodes he⟩, fun _ _ => head_spec⟩
    rw [hends.outcome]
    intro hundef
    obtain ⟨hd, hst, hid, hlen⟩ := decOutcome_undefined_iff.mp hundef
    exact h hd hst hid hlen

end LogicServer

namespace BoostCoServer

/-! ## `BoostCoServer` -/

/-- Every message node of the session is within the bounds. -/
structure NodesOk (s : Session) : Prop where
  current : ∀ n, s.recvMsgNode = some n → n.InBounds
  posted : ∀ n ∈ s.posted, n.InBounds

theorem NodesOk.congr {s t : Session} (h : NodesOk s) (hn : t.recvMsgNode = s.recvMsgNode)
    (hp : t.posted = s.posted) : NodesOk t :=
  ⟨hn ▸ h.current, hp ▸ h.posted⟩

theorem catchBlock_nodes {closeThrows : Bool} {s : Session} (h : NodesOk s) :
    NodesOk (s.catchBlock closeThrows).session := by
  cases closeThrows with
  | false => exact h.congr rfl rfl
  | true => exact h

theorem peerClosed_nodes {s : Session} (h : NodesOk s) : NodesOk s.peerClosed.session :=
  h.congr rfl rfl

theorem attempt_ends {α : Type} {Q : α → Prop} {closeThrows : Bool} {s : Session}
    {r : Except Fault α} (hs : NodesOk s) (hr : ∀ a, r = .ok a → Q a) :
    Ends Q (fun e => NodesOk e.session) (s.attempt closeThrows r) := by
  match r, hr with
  | .ok a, hr => exact hr a rfl
  | .error .badArrayNewLength, _ => exact catchBlock_nodes hs
  | .error .outOfBounds, _ => exact hs

/-- The block an `async_read` filled, or has filled in part. -/
def ReadResult.mem : ReadResult → List UInt8
  | .done mem _ _ => mem
  | .waiting mem => mem

theorem asyncRead_length {mem input : List UInt8} {n : Nat} {r : ReadResult}
    (h : asyncRead mem n input = .ok r) : r.mem.length = mem.length := by
  unfold asyncRead at h
  split_ifs at h with h1 h2
  · obtain rfl := Except.ok.inj h
    simp only [ReadResult.mem, List.length_append, List.length_take, List.length_drop]
    omega
  · obtain rfl := Except.ok.inj h
    simp only [ReadResult.mem, List.length_append, List.length_drop]
    omega

variable {heap : Nat → Nat → UInt8} {closeThrows : Bool}

theorem readPayload_nodes {s : Session} {msgId msgLen : Int16} {input : List UInt8}
    (hs : NodesOk s) (hle : msgLen.toInt ≤ maxLength) :
    Ends (fun c => NodesOk c.session) (fun e => NodesOk e.session)
      (readPayload heap closeThrows s msgId msgLen input) := by
  unfold readPayload
  refine ends_bind (attempt_ends (Q := RecvNode.InBounds) hs
    fun _ hn => (RecvNode.inBounds_of_new hle hn).1) fun node hnode => ?_
  refine ends_bind (attempt_ends (Q := fun r => r.mem.length = node.data.length) hs
    fun _ hr => asyncRead_length hr) fun r hr => ?_
  have hset : ∀ data : List UInt8, data.length = node.data.length →
      NodesOk { s with recvMsgNode := some { node with data } } := fun data hdata =>
    ⟨fun m hm => Option.some.inj hm ▸ hnode.congr rfl hdata, hs.posted⟩
  cases r with
  | waiting data => exact hset data hr
  | done data n input =>
    refine ends_ite (fun _ => peerClosed_nodes (hset data hr)) fun _ => ?_
    refine ends_bind (attempt_ends (Q := fun data' => data'.length = node.data.length)
      (hset data hr) fun _ hd => (store_length hd).trans hr) fun data' hdata' => ?_
    have hnode' : RecvNode.InBounds { node with data := data' } := hnode.congr rfl hdata'
    refine ⟨(hset data' hdata').current, ?_⟩
    exact List.forall_mem_append.mpr ⟨hs.posted, List.forall_mem_singleton.mpr hnode'⟩

/-- **Every way through a pass keeps the nodes within the bounds.** -/
theorem loopBody_nodes {c : Conn} (hs : NodesOk c.session) :
    Ends (fun c => NodesOk c.session) (fun e => NodesOk e.session)
      (loopBody heap closeThrows c) := by
  unfold loopBody
  refine ends_bind (attempt_ends (Q := fun _ => True) hs fun _ _ => trivial) fun head _ => ?_
  have hset : ∀ n, NodesOk { c.session with recvHeadNode := n } := fun _ => hs.congr rfl rfl
  refine ends_bind (attempt_ends (Q := fun _ => True) (hset head) fun _ _ => trivial)
    fun r _ => ?_
  cases r with
  | waiting data => exact hset _
  | done data n input =>
    refine ends_ite (fun _ => peerClosed_nodes (hset _)) fun _ => ?_
    refine ends_bind (attempt_ends (Q := fun _ => True) (hset _) fun _ _ => trivial)
      fun msgId _ => ?_
    have hclear : ∀ n, NodesOk { c.session with recvHeadNode := n }.clearSession :=
      fun _ => hs.congr rfl rfl
    refine ends_ite (fun _ => hclear _) fun _ => ?_
    refine ends_bind (attempt_ends (Q := fun _ => True) (hset _) fun _ _ => trivial)
      fun msgLen _ => ?_
    exact ends_ite (fun _ => hclear _)
      fun hle => readPayload_nodes (hset _) (not_lt.mp hle)

theorem start_nodes {s : Session} {input : List UInt8} {e : Exit} (hs : NodesOk s)
    (h : start heap closeThrows s input = some e) : NodesOk e.session := by
  unfold start at h
  cases hr : Loop.iterate loopCond (loopBody heap closeThrows) (input.length + 1) ⟨s, input⟩ with
  | none =>
    rw [hr] at h
    cases h
  | some r =>
    have hends := Loop.iterate_ends (fun _ => loopBody_nodes) hs hr
    rw [hr] at h
    cases r with
    | ok c =>
      obtain rfl := Option.some.inj h
      exact hends
    | error e' =>
      obtain rfl := Option.some.inj h
      exact hends

theorem new_nodes {init : Nat → UInt8} {t : Session} (h : Session.new init = .ok t) :
    NodesOk t := by
  obtain ⟨n, hn, -⟩ := @head_new init
  unfold Session.new at h
  rw [hn] at h
  obtain rfl := Except.ok.inj h
  exact ⟨fun _ hm => (by cases hm), fun _ hm => (by cases hm)⟩

/-- `Start` stays within its bounds on a stream. -/
def ReceiveSafe (init : Nat → UInt8) (heap : Nat → Nat → UInt8) (closeThrows : Bool)
    (s : List UInt8) : Prop :=
  ∃ t e, Session.new init = .ok t ∧ start heap closeThrows t s = some e ∧
    e.outcome ≠ .undefined ∧ NodesOk e.session

theorem stopOutcome_undefined_iff {hd : Header} :
    stopOutcome closeThrows hd = .undefined ↔ hd.IdOk ∧ hd.len.toInt = -1 := by
  unfold stopOutcome
  constructor
  · intro h
    split_ifs at h with h1 h2
    · exact ⟨not_not.mp (not_or.mp h1).1, h2⟩
    · cases closeThrows <;> cases h
  · rintro ⟨hid, hlen⟩
    have hok : ¬ (¬ hd.IdOk ∨ (maxLength : Int) < hd.len.toInt) := by
      rintro (hc | hc)
      · exact hc hid
      · omega
    rw [if_neg hok, if_pos hlen]

/-- **One stream** is safe exactly when its decoding does not stop at a header with the length `-1`
behind messages that all have a payload. -/
theorem receiveSafe_iff {init : Nat → UInt8} {s : List UInt8} :
    ReceiveSafe init heap closeThrows s ↔ ∀ hd, (decode s).1 = .stopped hd →
      (decode s).2.all solid = true → hd.IdOk → hd.len.toInt ≠ -1 := by
  obtain ⟨t, ht, hlive, hnone⟩ := new_live init
  obtain ⟨e, hrun, hf⟩ := @start_refines heap closeThrows t hlive s
  constructor
  · rintro ⟨t', e', ht', hrun', hdef, -⟩ hd hst hsolid hid hlen
    obtain rfl := Except.ok.inj (ht.symm.trans ht')
    obtain rfl := Option.some.inj (hrun.symm.trans hrun')
    refine hdef ?_
    rw [hf.outcome, if_pos hsolid, hst]
    exact stopOutcome_undefined_iff.mpr ⟨hid, hlen⟩
  · intro h
    refine ⟨t, e, ht, hrun, ?_, start_nodes (new_nodes ht) hrun⟩
    intro hundef
    rw [hf.outcome] at hundef
    split_ifs at hundef with hsolid
    cases hd : (decode s).1 with
    | header _ =>
      rw [hd] at hundef
      cases hundef
    | payload _ _ _ =>
      rw [hd] at hundef
      cases hundef
    | stopped hs =>
      rw [hd] at hundef
      obtain ⟨hid, hlen⟩ := stopOutcome_undefined_iff.mp hundef
      exact h hs hd hsolid hid hlen

end BoostCoServer

/-! ## Both servers -/

/-- **When the receive sides stay within their bounds**: on every delivery, exactly when the stream
has no four bytes that read as a header with a good id and the length `-1`. One delivery does, and
the stream to the other server, when the decoder stops at no such header. -/
theorem receive_bounds_iff (s : List UInt8) :
    (((∀ c : Cutting s, LogicServer.ReceiveSafe c) ∧
      ∀ init heap closeThrows, BoostCoServer.ReceiveSafe init heap closeThrows s) ↔
    ∀ h, Window s h → h.IdOk → h.len.toInt ≠ -1) ∧
    (∀ c : Cutting s, LogicServer.ReceiveSafe c ↔
      ∀ h, (decodeReads (.header []) c.reads).1 = .stopped h → h.IdOk → h.len.toInt ≠ -1) ∧
    ∀ init heap closeThrows, BoostCoServer.ReceiveSafe init heap closeThrows s ↔
      ∀ h, (decode s).1 = .stopped h → (decode s).2.all BoostCoServer.solid = true → h.IdOk →
        h.len.toInt ≠ -1 := by
  refine ⟨?_, LogicServer.receiveSafe_iff, fun _ _ _ => BoostCoServer.receiveSafe_iff⟩
  constructor
  · rintro ⟨hsafe, -⟩ h hw hid hlen
    obtain ⟨pre, b₀, b₁, b₂, b₃, post, rfl, rfl⟩ := hw
    -- one byte a read up to the header, which is then read whole
    refine (LogicServer.receiveSafe_iff _).mp
      (hsafe (LogicServer.Cutting.around pre b₀ b₁ b₂ b₃ post)) _ ?_ hid hlen
    have hround : decodeReads (.header [])
        (LogicServer.Cutting.around pre b₀ b₁ b₂ b₃ post).reads =
        decodeReads (.header []) ([b₀, b₁, b₂, b₃] :: post.map fun b => [b]) :=
      LogicServer.decodeReads_bytewise pre _
    have hna : ¬ (Header.ofBytes b₀ b₁ b₂ b₃).Accepted := fun ha => by
      have := ha.2.1
      omega
    rw [hround, LogicServer.decodeReads_cons, feed_header, enter_stopped hna, feed_stopped]
    show (decodeReads (.stopped _) _).1 = .stopped _
    rw [LogicServer.decodeReads_stopped]
  · intro h
    constructor
    · intro c
      refine (LogicServer.receiveSafe_iff c).mpr fun hd hst => ?_
      have hw := exists_window_of_stopped hst
      rw [c.flatten_eq] at hw
      exact h hd hw
    · intro init heap closeThrows
      refine BoostCoServer.receiveSafe_iff.mpr fun hd hst _ => h hd ?_
      have hw := @exists_window_of_stopped [s] hd (congrArg DecState.forget hst)
      rwa [List.flatten_singleton] at hw

/-- The header `(1001, -1)` writes outside its block. -/
theorem receive_minus_one : ¬ ∀ (s : List UInt8) (c : Cutting s), LogicServer.ReceiveSafe c := by
  intro h
  exact (LogicServer.receiveSafe_iff _).mp
    (h [3, 233, 255, 255] ⟨[[3, 233, 255, 255]], rfl, by decide, by decide⟩)
    ⟨1001, -1⟩ (by decide) (by decide) (by decide)

end AsioLearn
