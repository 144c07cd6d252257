import AsioLearn.JsonClient
import AsioLearn.Settling
import AsioLearn.SameProtocol
import AsioLearn.ReceiveBounds

/-!
# The two sides of a session

What a client can rely on in the session it talks to, for either server. `Receives` is the receive
side: reads of any size, and the messages they come to. `Streams` is the send side: the bytes its
writes put on the wire.

* Each names what must not happen for it (`clean`, `clear`): a read of `logicServer` must not end
  inside a header, and a session of `BoostCoServer` must not be sent a reply while another is being
  written.
* What a session has handed to `async_write` may be read by its client before the write completes.

Results:
* `LogicServer.receives`, `BoostCoServer.receives`: both receive sides post what the wire decoder
  makes of the bytes so far;
* `LogicServer.streams`, `BoostCoServer.streams`: both send sides hand whole nodes to the socket, in
  the order in which they were accepted, and all of them when no completion is left.
-/

namespace AsioLearn

open AsioLearn.Cpp AsioLearn.Wire AsioLearn.LogicSystem AsioLearn.Lib.Lts

variable {κ ε ρ : Type} {S : Server κ ε}

/-! ## The two sides -/

/-- What the logic worker gets from a node. -/
def Server.post (S : Server κ ε) (n : RecvNode) : Post := (n.msgId, S.payload n)

/-- Both servers take the stream: no header is rejected, and no payload is empty. -/
def Wholesome (s : List UInt8) : Prop :=
  (∀ hd, (decode s).1 ≠ .stopped hd) ∧ ∀ p ∈ (decode s).2, p.2 ≠ []

theorem Wholesome.before {s t : List UInt8} (h : Wholesome (s ++ t)) : Wholesome s := by
  obtain ⟨hstop, hposts⟩ := h
  rw [decode_append] at hstop hposts
  refine ⟨fun hd hst => ?_, fun p hp => hposts p (List.mem_append_left _ hp)⟩
  rw [hst, feed_stopped] at hstop
  exact hstop hd rfl

/-- The receive side of a session, with states `ρ`. -/
structure Receives (S : Server κ ε) (ρ : Type) where
  fresh : ρ
  /-- A read of these bytes completes; the messages it takes to `PostMsgToQue`. -/
  read : ρ → List UInt8 → Option (ρ × List RecvNode)
  /-- A read may end behind these bytes. -/
  clean : List UInt8 → Prop
  /-- The session has read these bytes. -/
  holds : List UInt8 → ρ → Prop
  fresh_holds : holds [] fresh
  clean_frames : ∀ fs : List Frame, clean (fs.flatMap Frame.bytes)
  read_holds : ∀ {s r xs}, holds s r → xs ≠ [] → xs.length ≤ maxLength → Wholesome (s ++ xs) →
    clean (s ++ xs) → ∃ r' nodes, read r xs = some (r', nodes) ∧ holds (s ++ xs) r' ∧
      (decode (s ++ xs)).2 = (decode s).2 ++ nodes.map S.post ∧ ∀ n ∈ nodes, S.Holds n

/-- The send side of a session as its client sees it. -/
structure Streams (S : Server κ ε) extends Completes S where
  /-- The bytes handed to the socket. -/
  handed : κ → List UInt8
  /-- How many writes have been started. -/
  started : κ → Nat
  /-- `Send` may be called. -/
  clear : κ → Prop
  /-- A write completes. -/
  written : ε → Prop
  /-- No write has failed, and each has been of a whole node. -/
  whole : κ → Prop
  completion_of_written : ∀ {e}, written e → completion e
  whole_empty : whole empty
  handed_eq : ∀ {s}, ok s → whole s →
    handed s = ((accepted s).take (started s)).flatMap fun n => n.buffer
  queue_le : ∀ {s}, ok s → whole s → S.sendQueSize s + started s ≤ (accepted s).length + 1
  started_le : ∀ {s}, ok s → whole s → started s ≤ (accepted s).length
  send_whole : ∀ {s t msg msgid}, ok s → whole s → clear s → S.send s msg msgid = .ok t →
    whole t ∧ started s ≤ started t
  written_whole : ∀ {s e t}, ok s → whole s → written e → S.sessionStep s e = some t →
    whole t ∧ started s ≤ started t
  rest_started : ∀ {s}, ok s → whole s → (∀ e, written e → S.sessionStep s e = none) →
    started s = (accepted s).length ∧ clear s

/-! ### `logicServer` -/

/-- One call of `HandleRead`. -/
def LogicServer.Session.read (s : LogicServer.Session) (xs : List UInt8) :
    Option (LogicServer.Session × List RecvNode) :=
  if s.armed = 0 then none
  else
    match LogicServer.handleRead (s.deliver xs) xs.length with
    | some (.returned t) | some (.caught t) => some (t, t.posted.drop s.posted.length)
    | some (.undefined _) | none => none

/-- A decoder inside a frame or between two has come there from what it has read. -/
theorem LogicServer.live_read {s : List UInt8} {r : LogicServer.Session} {xs : List UInt8}
    (h : LogicServer.Live r (decode s).1) (hnodes : LogicServer.NodesOk r) (hne : xs ≠ [])
    (hlen : xs.length ≤ maxLength) (hstop : ∀ hd, (decode (s ++ xs)).1 ≠ .stopped hd)
    (hmid : ¬ (decode (s ++ xs)).1.MidHeader) :
    ∃ r' nodes, r.read xs = some (r', nodes) ∧
      (LogicServer.Live r' (decode (s ++ xs)).1 ∧ LogicServer.NodesOk r') ∧
      (decode (s ++ xs)).2 = (decode s).2 ++ nodes.map LogicServer.view ∧
      ∀ n ∈ nodes, logicServer.Holds n := by
  obtain ⟨e, he, hl⟩ := LogicServer.handleRead_refines h hne hlen
  rw [decode_append] at hstop hmid ⊢
  obtain ⟨t, rfl, hlive⟩ := hl.live hstop
  rw [forget_eq_self hmid] at hlive
  have hposts : t.posts = r.posts ++ _ := hl.posts
  have hnodes' : LogicServer.NodesOk t :=
    LogicServer.handleRead_nodes (s := r.deliver xs) (hnodes.congr rfl rfl) he
  refine ⟨t, t.posted.drop r.posted.length, ?_, ⟨hlive, hnodes'⟩, ?_, fun n hn => ?_⟩
  · unfold LogicServer.Session.read
    rw [if_neg (by rw [h.armed]; exact one_ne_zero), he]
  · unfold LogicServer.Session.posts at hposts
    rw [List.map_drop, hposts, List.drop_left' (List.length_map _)]
  · have hposted := List.mem_of_mem_drop hn
    show 0 ≤ n.curLen.toInt ∧ n.curLen.toInt ≤ n.data.length
    rw [hnodes'.full n hposted]
    exact (hnodes'.posted n hposted).holds

/-- `logicServer`: a read must not end inside a header. -/
def LogicServer.receives : Receives logicServer LogicServer.Session where
  fresh := LogicServer.Session.fresh
  read := LogicServer.Session.read
  clean s := ¬ (decode s).1.MidHeader
  holds s r := LogicServer.Live r (decode s).1 ∧ LogicServer.NodesOk r
  fresh_holds := ⟨LogicServer.live_fresh, LogicServer.fresh_nodes⟩
  clean_frames fs := by
    rw [feed_frames]
    exact fun h => h rfl
  read_holds h hne hlen hwhole hclean := LogicServer.live_read h.1 h.2 hne hlen hwhole.1 hclean

/-- The completions of `logicServer` without an error. -/
def LogicServer.SendEvent.isWritten : LogicServer.SendEvent → Prop
  | .written _ => True
  | _ => False

theorem LogicServer.whole_sendNode {s t : LogicServer.SendSide} {node : Except Fault SendNode}
    (hw : s.failed = false) (h : s.sendNode node = some t) :
    t.failed = false ∧ s.started.length ≤ t.started.length := by
  rcases LogicServer.sendNode_cases h with rfl | ⟨n, -, -, ⟨-, rfl⟩ | ⟨-, rfl⟩⟩
  · exact ⟨hw, le_rfl⟩
  · exact ⟨hw, le_rfl⟩
  · refine ⟨hw, ?_⟩
    rw [asyncWrite_started, List.length_append]
    exact Nat.le_add_right _ _

theorem LogicServer.whole_written {s t : LogicServer.SendSide} {i : Nat} (hw : s.failed = false)
    (h : s.step (.written i) = some t) :
    t.failed = false ∧ s.started.length ≤ t.started.length := by
  obtain ⟨-, h⟩ := LogicServer.step_written h
  obtain ⟨node, rest, -, ⟨-, rfl⟩ | ⟨next, more, -, rfl⟩⟩ := LogicServer.handleWrite_cases h
  · exact ⟨hw, le_rfl⟩
  · refine ⟨hw, ?_⟩
    rw [asyncWrite_started, List.length_append]
    exact Nat.le_add_right _ _

/-- The writes started are of the first nodes that were accepted, each whole. -/
theorem LogicServer.started_take {s : LogicServer.SendSide} (h : s.Ok) :
    s.started = (s.accepted.take s.started.length).map fun n => ⟨n, n.buffer⟩ := by
  have hlen := congrArg List.length h.started
  rw [List.length_map, List.length_append] at hlen
  have htake : s.accepted.take s.started.length = s.written ++ s.sendQue.take 1 := by
    rw [← h.accepted, hlen, List.take_length_add_append, List.length_take]
    congr 1
    cases s.sendQue <;> rfl
  rw [htake]
  exact h.started

/-- `logicServer`. -/
def LogicServer.streams : Streams logicServer where
  toCompletes := LogicServer.completes
  handed s := s.started.flatMap Write.bytes
  started s := s.started.length
  clear _ := True
  written := LogicServer.SendEvent.isWritten
  whole s := s.failed = false
  completion_of_written {e} he := by
    cases e with
    | written i => trivial
    | _ => exact he.elim
  whole_empty := rfl
  handed_eq {s} hs _ := by
    have hbytes := congrArg (List.flatMap Write.bytes) (LogicServer.started_take hs)
    rwa [List.flatMap_map] at hbytes
  queue_le {s} hs _ := by
    have hst := congrArg List.length hs.started
    have hacc := congrArg List.length hs.accepted
    rw [List.length_map, List.length_append, List.length_take] at hst
    rw [List.length_append] at hacc
    show s.sendQue.length + s.started.length ≤ s.accepted.length + 1
    omega
  started_le {s} hs _ := by
    have hst := congrArg List.length (LogicServer.started_take hs)
    rw [List.length_map, List.length_take] at hst
    exact (le_of_eq hst).trans (min_le_right _ _)
  send_whole hs hw _ h := by
    rcases callerView_cases h with rfl | hafter
    · exact ⟨hw, le_rfl⟩
    · exact LogicServer.whole_sendNode hw hafter
  written_whole {s e t} hs hw he h := by
    cases e with
    | written i => exact LogicServer.whole_written hw h
    | _ => exact he.elim
  rest_started {s} hs hw hrest := by
    refine ⟨?_, trivial⟩
    have hfree : s.outstanding = [] := by
      by_contra hne
      have hsome := LogicServer.handleWrite_defined hs (List.length_pos_iff.mpr hne)
      have hnone : s.step (.written 0) = none := hrest (.written 0) trivial
      rw [hnone] at hsome
      cases hsome
    have hq : s.sendQue = [] := by
      by_contra hne
      have hbusy : (!s.outstanding.isEmpty) = true := hs.sound.busy.mpr ⟨hne, hw⟩
      rw [hfree] at hbusy
      cases hbusy
    have hst := congrArg List.length hs.started
    rw [hq, List.take_nil, List.append_nil, List.length_map] at hst
    show s.started.length = s.accepted.length
    rw [hst, ← hs.accepted, hq, List.append_nil]

/-! ### `BoostCoServer` -/

/-- The coroutine on the bytes that have come, and the messages it has posted. -/
def BoostCoServer.nodes (heap : Nat → Nat → UInt8) (closeThrows : Bool) (s : BoostCoServer.Session)
    (input : List UInt8) : List RecvNode :=
  match BoostCoServer.start heap closeThrows s input with
  | some e => e.session.posted
  | none => []

/-- More bytes come to the coroutine; its state is what the bytes so far have made of it. -/
def BoostCoServer.read (heap : Nat → Nat → UInt8) (closeThrows : Bool) (s : BoostCoServer.Session)
    (input xs : List UInt8) : Option (List UInt8 × List RecvNode) :=
  match BoostCoServer.start heap closeThrows s input with
  | some (.reading t) =>
    some (input ++ xs,
      (BoostCoServer.nodes heap closeThrows s (input ++ xs)).drop t.posted.length)
  | _ => none

theorem BoostCoServer.start_wholesome {heap : Nat → Nat → UInt8} {closeThrows : Bool}
    {t : BoostCoServer.Session} (ht : BoostCoServer.Live t) (hnone : t.posted = [])
    {s : List UInt8} (h : Wholesome s) :
    ∃ u, BoostCoServer.start heap closeThrows t s = some (.reading u) ∧
      u.posts = (decode s).2 := by
  obtain ⟨e, he, hf⟩ := @BoostCoServer.start_refines heap closeThrows t ht s
  have hsolid : ∀ p ∈ (decode s).2, BoostCoServer.solid p = true := by
    intro p hp
    unfold BoostCoServer.solid
    rw [List.isEmpty_eq_false_iff.mpr (h.2 p hp)]
    rfl
  have hout := hf.outcome
  have hposts := hf.posts
  have hempty : t.posts = [] := by
    unfold BoostCoServer.Session.posts
    rw [hnone]
    rfl
  rw [if_pos (List.all_eq_true.mpr hsolid)] at hout
  rw [hempty, List.nil_append, List.takeWhile_eq_self_iff.mpr hsolid] at hposts
  have hreading : e.outcome = .reading := by
    rw [hout]
    unfold BoostCoServer.decOutcome
    split
    · rename_i hd hst
      exact absurd hst (h.1 hd)
    · rfl
  obtain ⟨u, rfl⟩ := BoostCoServer.exit_reading hreading
  exact ⟨u, he, hposts⟩

theorem BoostCoServer.live_of_new {init : Nat → UInt8} {t : BoostCoServer.Session}
    (h : BoostCoServer.Session.new init = .ok t) : BoostCoServer.Live t ∧ t.posted = [] := by
  obtain ⟨s, hs, hlive, hnone⟩ := BoostCoServer.new_live init
  obtain rfl := Except.ok.inj (h.symm.trans hs)
  exact ⟨hlive, hnone⟩

/-- `BoostCoServer`: the state is the bytes that have come. `async_read` takes them in any parts. -/
def BoostCoServer.receives (heap heap' : Nat → Nat → UInt8) (closeThrows : Bool)
    {init : Nat → UInt8} {t : BoostCoServer.Session}
    (ht : BoostCoServer.Session.new init = .ok t) :
    Receives (boostCoServer heap') (List UInt8) where
  fresh := []
  read := BoostCoServer.read heap closeThrows t
  clean _ := True
  holds s r := r = s
  fresh_holds := rfl
  clean_frames _ := trivial
  read_holds {s r xs} h _ _ hwhole _ := by
    obtain rfl : r = s := h
    obtain ⟨hlive, hnone⟩ := BoostCoServer.live_of_new ht
    obtain ⟨u, hu, hposts⟩ :=
      @BoostCoServer.start_wholesome heap closeThrows t hlive hnone r hwhole.before
    obtain ⟨v, hv, hposts'⟩ :=
      @BoostCoServer.start_wholesome heap closeThrows t hlive hnone (r ++ xs) hwhole
    have hnodes : BoostCoServer.nodes heap closeThrows t (r ++ xs) = v.posted := by
      unfold BoostCoServer.nodes
      rw [hv]
      rfl
    have hbounds : BoostCoServer.NodesOk v :=
      BoostCoServer.start_nodes (BoostCoServer.new_nodes ht) hv
    refine ⟨r ++ xs, v.posted.drop u.posted.length, ?_, rfl, ?_, fun n hn =>
      (hbounds.posted n (List.mem_of_mem_drop hn)).holds⟩
    · unfold BoostCoServer.read
      rw [hu, ← hnodes]
    · show (decode (r ++ xs)).2 = (decode r).2 ++ (v.posted.drop _).map BoostCoServer.view
      have hlen : u.posted.length = (decode r).2.length := by
        rw [← hposts]
        exact (List.length_map _).symm
      have hview : v.posted.map BoostCoServer.view = (decode (r ++ xs)).2 := hposts'
      rw [List.map_drop, hview, hlen, decode_append, List.drop_left]

/-- With at most one node in the queue, each node accepted has been written whole at once. -/
structure BoostCoServer.SendSide.Whole (s : BoostCoServer.SendSide) : Prop where
  queue : s.sendQue.length ≤ 1
  pending : s.pending = []
  failed : s.failed = false
  started : s.started = s.accepted.map fun n => Write.mk n n.buffer

/-- The completions of `BoostCoServer` without an error, and the rest of a `HandleWrite`. -/
def BoostCoServer.SendEvent.isWritten : BoostCoServer.SendEvent → Prop
  | .written _ | .startPending _ => True
  | _ => False

theorem BoostCoServer.whole_send {heap : Nat → Nat → UInt8} {s t : BoostCoServer.SendSide}
    {msg : List UInt8} {maxLen msgid : Int16} (hw : s.Whole) (hclear : s.sendQue = [])
    (h : s.send heap msg maxLen msgid = some t) :
    t.Whole ∧ s.started.length ≤ t.started.length := by
  rcases BoostCoServer.send_cases h with rfl | ⟨n, -, -, ⟨hne, -⟩ | ⟨-, rfl⟩⟩
  · exact ⟨hw, le_rfl⟩
  · exact absurd hclear hne
  · refine ⟨⟨?_, hw.pending, hw.failed, ?_⟩, ?_⟩
    · show (s.sendQue ++ [n]).length ≤ 1
      rw [hclear]
      exact le_rfl
    · show s.started ++ [⟨n, n.buffer⟩] = (s.accepted ++ [n]).map _
      rw [hw.started, List.map_append]
      rfl
    · show s.started.length ≤ (s.started ++ [Write.mk n n.buffer]).length
      rw [List.length_append]
      exact Nat.le_add_right _ _

theorem BoostCoServer.whole_written {heap : Nat → Nat → UInt8} {s t : BoostCoServer.SendSide}
    {e : BoostCoServer.SendEvent} (hw : s.Whole) (he : e.isWritten) (h : s.step heap e = some t) :
    t.Whole ∧ s.started.length ≤ t.started.length := by
  cases e with
  | written i =>
    obtain ⟨-, node, rest, hq, ⟨-, rfl⟩ | ⟨next, more, rfl, -⟩⟩ := BoostCoServer.written_cases h
    · exact ⟨⟨Nat.zero_le 1, hw.pending, hw.failed, hw.started⟩, le_rfl⟩
    · have hlen := hw.queue
      rw [hq] at hlen
      exact absurd hlen (by simp)
  | startPending i =>
    obtain ⟨n, hn, -⟩ := BoostCoServer.startPending_cases h
    rw [hw.pending] at hn
    cases hn
  | _ => exact he.elim

/-- `BoostCoServer`: `Send` may be called when the queue is empty. -/
def BoostCoServer.streams (heap : Nat → Nat → UInt8) : Streams (boostCoServer heap) where
  toCompletes := BoostCoServer.completes heap
  handed s := s.handed
  started s := s.started.length
  clear s := s.sendQue = []
  written := BoostCoServer.SendEvent.isWritten
  whole := BoostCoServer.SendSide.Whole
  completion_of_written {e} he := by
    cases e with
    | written i => trivial
    | startPending i => trivial
    | _ => exact he.elim
  whole_empty := ⟨Nat.zero_le 1, rfl, rfl, rfl⟩
  handed_eq {s} _ hw := by
    show s.started.flatMap Write.bytes = (s.accepted.take s.started.length).flatMap _
    rw [hw.started, List.length_map, List.take_length, List.flatMap_map]
  queue_le {s} _ hw := by
    have hlen := congrArg List.length hw.started
    have hqueue := hw.queue
    rw [List.length_map] at hlen
    show s.sendQue.length + s.started.length ≤ s.accepted.length + 1
    omega
  started_le {s} _ hw := by
    have hlen := congrArg List.length hw.started
    rw [List.length_map] at hlen
    exact le_of_eq hlen
  send_whole _ hw hclear h := by
    rcases callerView_cases h with rfl | hafter
    · exact ⟨hw, le_rfl⟩
    · exact BoostCoServer.whole_send hw hclear hafter
  written_whole _ hw he h := BoostCoServer.whole_written hw he h
  rest_started {s} hs hw hrest := by
    have hlen := congrArg List.length hw.started
    rw [List.length_map] at hlen
    refine ⟨hlen, ?_⟩
    show s.sendQue = []
    have hfree : s.outstanding = [] := by
      by_contra hne
      have hnone : s.step heap (.written 0) = none := hrest (.written 0) trivial
      have hpos := List.length_pos_iff.mpr hne
      obtain ⟨n, q, hq, -, -, -⟩ := hs.outstanding hpos
      cases q <;> simp [BoostCoServer.SendSide.step, BoostCoServer.SendSide.handleWrite, hpos, hq]
        at hnone
    by_contra hne
    have hbusy : (!(s.outstanding.isEmpty && s.pending.isEmpty)) = true :=
      hs.sound.busy.mpr ⟨hne, hw.failed⟩
    rw [hfree, hw.pending] at hbusy
    cases hbusy

end AsioLearn
