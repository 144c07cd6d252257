import AsioLearn.Endpoints
import AsioLearn.LogicServer.Replies
import Mathlib.Algebra.BigOperators.Ring.Finset

/-!
# The clients and their server

Either server together with the threads of its client: requests on their way to a session, its
reads, the logic worker with its queue, the callbacks, the send queues, and the bytes on their way
back. Nothing else connects, and the server is not shut down.

* A session has one read armed, or is still posting the messages of the last one (`Conn.todo`). A
  read gives it any part of what has been written to it.
* `Smooth` is what the two sides of a session ask for (`Endpoints`), and that no write fails.

Results:
* `looping_step`: each request is on its way in one place, and each client has read one reply for
  each request but the last; every step lowers `Net.work`;
* `closed_loop`: the clients and the server come to rest after a bounded number of steps, in
  whatever order, and then each client has all its replies.
-/

namespace AsioLearn

open AsioLearn.Cpp AsioLearn.Wire AsioLearn.LogicSystem AsioLearn.Lib.Lts

variable {κ ε ρ : Type} {S : Server κ ε} {J : JsonCpp}

/-! ## The system -/

/-- A client and its session. -/
structure Conn (ρ : Type) where
  client : Client
  /-- What the client has written and the session has not read. -/
  up : List UInt8
  /-- What the session has read. -/
  received : List UInt8
  session : ρ
  /-- The messages of the last read that have not been posted. -/
  todo : List RecvNode

/-- The clients and the server. -/
structure Net (κ ρ : Type) where
  conns : Nat → Conn ρ
  world : World κ

/-- Who takes the next step. -/
inductive NetEvent (ε : Type) where
  /-- The next call of client `i`. -/
  | client (i : Nat)
  /-- A read of session `i` completes. -/
  | read (i : Nat) (xs : List UInt8)
  /-- The handler of session `i` calls `PostMsgToQue`. -/
  | post (i : Nat)
  /-- A step of the server's own. -/
  | server (e : WorldEvent ε)

/-- All clients have connected; client `i` has `passes i` requests to make. -/
def Net.init (R : Receives S ρ) (T : Streams S) (passes : Nat → Nat) : Net κ ρ :=
  ⟨fun i => ⟨.start (passes i), [], [], R.fresh, []⟩, Sys.init, fun _ => T.empty⟩

/-- The session waits for a read, and these bytes are next. -/
def Net.Readable (n : Net κ ρ) (i : Nat) (xs : List UInt8) : Prop :=
  (n.conns i).todo = [] ∧ n.world.logic.posters i = .idle ∧ n.world.logic.over = false ∧
    xs ≠ [] ∧ xs.length ≤ maxLength ∧ xs <+: (n.conns i).up

instance (n : Net κ ρ) (i : Nat) (xs : List UInt8) : Decidable (n.Readable i xs) :=
  inferInstanceAs (Decidable (_ ∧ _ ∧ _ ∧ _ ∧ _ ∧ _))

def Net.set (n : Net κ ρ) (i : Nat) (c : Conn ρ) : Net κ ρ :=
  { n with conns := Function.update n.conns i c }

/-- One step of the clients or the server. -/
def Net.step (R : Receives S ρ) (T : Streams S) (J : JsonCpp) (request : List UInt8)
    (n : Net κ ρ) : NetEvent ε → Option (Net κ ρ)
  | .client i =>
    ((n.conns i).client.step J request (T.handed (n.world.sends i))).map fun r =>
      n.set i { n.conns i with client := r.1, up := (n.conns i).up ++ r.2 }
  | .read i xs =>
    if n.Readable i xs then
      (R.read (n.conns i).session xs).map fun r =>
        n.set i { n.conns i with up := (n.conns i).up.drop xs.length,
                                 received := (n.conns i).received ++ xs,
                                 session := r.1, todo := r.2 }
    else none
  | .post i =>
    match (n.conns i).todo with
    | [] => none
    | node :: rest =>
      (n.world.step S J (.logic (.post i ⟨i, node⟩))).map fun w =>
        { n.set i { n.conns i with todo := rest } with world := w }
  | .server e =>
    if e.internal then (n.world.step S J e).map fun w => { n with world := w } else none

/-- What the two sides of the sessions ask for. -/
def Smooth (R : Receives S ρ) (T : Streams S) (n : Net κ ρ) : NetEvent ε → Prop
  | .read i xs => R.clean ((n.conns i).received ++ xs)
  | .server .callback => ∀ draining m, n.world.logic.worker = .deal draining m →
      T.clear (n.world.sends m.session)
  | .server (.session _ e) => T.written e
  | _ => True

/-- A request of the client that both sides can carry: it fits the array it is sent from, the
callback can read it, and the reply fits the array it is read into. -/
structure Exchange (J : JsonCpp) where
  request : List UInt8
  nonempty : request ≠ []
  request_le : request.length + headTotalLen ≤ maxLength
  readable : Readable J request
  reply_le : (replyText J request).length ≤ maxLength

/-- What `toStyledString` makes of an object is parsed to a value with members again. -/
def JsonCpp.RoundTrips (J : JsonCpp) : Prop :=
  ∀ v, J.type v = .objectValue → J.HasMembers (J.parse (J.toStyledString v))

/-- The request on the wire. -/
def Exchange.frame (X : Exchange J) : Frame :=
  helloFrame X.request ((Nat.le_add_right _ _).trans X.request_le)

/-- The text of the reply. -/
def Exchange.text (X : Exchange J) : List UInt8 := replyText J X.request

/-- The reply on the wire. -/
def Exchange.reply (X : Exchange J) : List UInt8 :=
  hostToNetworkShort (replyId J X.request) ++ hostToNetworkShort (short X.text.length) ++ X.text

theorem Exchange.frame_length (X : Exchange J) :
    X.frame.bytes.length = X.request.length + headTotalLen := by
  rw [X.frame.bytes_length, Nat.add_comm]
  rfl

theorem Exchange.reply_length (X : Exchange J) :
    X.reply.length = headTotalLen + X.text.length := by
  unfold Exchange.reply
  simp only [List.length_append, hostToNetworkShort_length]
  rfl

/-- The length field of the reply. -/
theorem Exchange.textLen (X : Exchange J) :
    (short X.text.length).toInt = X.text.length := by
  have hle : X.text.length ≤ 2048 := X.reply_le
  exact short_toInt (by omega) (by omega)

/-- `Send` can carry the reply. -/
theorem Exchange.sendable (X : Exchange J) : Sendable X.text.length := by
  have hle : X.text.length ≤ 2048 := X.reply_le
  have h4 : (headTotalLen : Int) = 4 := rfl
  unfold Sendable
  rw [X.textLen]
  omega

/-- The client can print the reply. -/
theorem Exchange.prints (hJ : J.Documented) (hR : J.RoundTrips) (X : Exchange J) :
    prints J X.text = true := by
  obtain ⟨root, hroot, htype, -⟩ := replyRoot_ok hJ X.readable
  have htext : X.text = J.toStyledString root := by
    unfold Exchange.text replyText
    rw [hroot]
  obtain ⟨v, hv, hobject, -⟩ := subscript_ok hJ (hR root htype) "id"
  obtain ⟨v', hv', -, -⟩ := subscript_ok hJ (Or.inr hobject) "data"
  unfold AsioLearn.prints
  rw [htext, hv]
  dsimp only
  rw [hv']
  rfl

/-- A node that replies to the request. -/
theorem Exchange.buffer_of_reply (X : Exchange J) {m : LogicNode} {n : SendNode}
    (hm : S.payload m.recvNode = X.request) (h : RepliesTo S J m n) : n.buffer = X.reply := by
  have hbuf := h.buffer
  have hlen : (short (replyText J X.request).length).toInt = (replyText J X.request).length :=
    X.textLen
  rw [hm, hlen, Int.toNat_natCast, List.take_length] at hbuf
  exact hbuf

/-! ## What a step can do -/

/-- `Net.step` as a relation. -/
inductive NetMoves (R : Receives S ρ) (T : Streams S) (J : JsonCpp) (request : List UInt8)
    (n : Net κ ρ) : NetEvent ε → Net κ ρ → Prop where
  | client (i : Nat) (c : Client) (bytes : List UInt8)
      (hc : (n.conns i).client.step J request (T.handed (n.world.sends i)) = some (c, bytes)) :
      NetMoves R T J request n (.client i)
        (n.set i { n.conns i with client := c, up := (n.conns i).up ++ bytes })
  | read (i : Nat) (xs : List UInt8) (r : ρ) (nodes : List RecvNode) (hxs : n.Readable i xs)
      (hr : R.read (n.conns i).session xs = some (r, nodes)) :
      NetMoves R T J request n (.read i xs)
        (n.set i { n.conns i with up := (n.conns i).up.drop xs.length,
                                  received := (n.conns i).received ++ xs,
                                  session := r, todo := nodes })
  | post (i : Nat) (node : RecvNode) (rest : List RecvNode) (w : World κ)
      (htodo : (n.conns i).todo = node :: rest)
      (hw : n.world.step S J (.logic (.post i ⟨i, node⟩)) = some w) :
      NetMoves R T J request n (.post i)
        { n.set i { n.conns i with todo := rest } with world := w }
  | server (e : WorldEvent ε) (w : World κ) (he : e.internal = true)
      (hw : n.world.step S J e = some w) :
      NetMoves R T J request n (.server e) { n with world := w }

theorem net_moves {R : Receives S ρ} {T : Streams S} {request : List UInt8} {n t : Net κ ρ}
    {e : NetEvent ε} (h : n.step R T J request e = some t) : NetMoves R T J request n e t := by
  cases e with
  | client i =>
    obtain ⟨⟨c, bytes⟩, hc, rfl⟩ := Option.map_eq_some_iff.mp h
    exact .client i c bytes hc
  | read i xs =>
    unfold Net.step at h
    dsimp only at h
    split_ifs at h with hxs
    obtain ⟨⟨r, nodes⟩, hr, rfl⟩ := Option.map_eq_some_iff.mp h
    exact .read i xs r nodes hxs hr
  | post i =>
    unfold Net.step at h
    dsimp only at h
    split at h
    · cases h
    · rename_i node rest htodo
      obtain ⟨w, hw, rfl⟩ := Option.map_eq_some_iff.mp h
      exact .post i node rest w htodo hw
  | server e =>
    unfold Net.step at h
    dsimp only at h
    split_ifs at h with he
    obtain ⟨w, hw, rfl⟩ := Option.map_eq_some_iff.mp h
    exact .server e w he hw

/-! ## What holds in the runs -/

/-- One, if the client waits for a reply. -/
def Client.asked (c : Client) : Nat :=
  match c.pc with
  | .head | .body _ => 1
  | .write | .ended => 0

/-- The requests it has written. -/
def Client.sent (c : Client) : Nat := c.replies.length + c.asked

/-- The bytes it has read of the reply it waits for. -/
def Client.half (c : Client) : Nat :=
  match c.pc with
  | .body _ => headTotalLen
  | _ => 0

/-- How far connection `i` has come. -/
structure Paced (R : Receives S ρ) (T : Streams S) (X : Exchange J) (passes i : Nat) (c : Conn ρ)
    (w : World κ) : Prop where
  passes : c.client.replies.length + c.client.left = passes
  replies : c.client.replies = List.replicate c.client.replies.length X.text
  pc : match c.client.pc with
    | .write => True
    | .head => 0 < c.client.left
    | .body msglen => 0 < c.client.left ∧ msglen = short X.text.length
    | .ended => False
  taken : c.client.taken = c.client.replies.length * X.reply.length + c.client.half
  within : c.client.taken ≤ T.started (w.sends i) * X.reply.length
  stream : c.received ++ c.up = requests X.frame c.client.sent
  session : R.holds c.received c.session
  posted : (arrived w.logic i ++ c.todo.map (LogicNode.mk i)).map
    (fun m => S.post m.recvNode) = (decode c.received).2
  held : ∀ m ∈ arrived w.logic i ++ c.todo.map (LogicNode.mk i), S.Holds m.recvNode
  whole : T.whole (w.sends i)
  answered : unanswered T.toAccepts i w = 0

/-- What holds in the runs. From connection `K` on there are no requests. -/
structure Looping (R : Receives S ρ) (T : Streams S) (X : Exchange J) (passes : Nat → Nat)
    (K : Nat) (n : Net κ ρ) : Prop where
  steady : Steady T.toCompletes J n.world
  inv : Inv S.leaves LogicNode.registered n.world.logic
  dtor : n.world.logic.dtor = .idle
  running : n.world.logic.over = false
  within : Within T.toCompletes K n.world
  paced : ∀ i, Paced R T X (passes i) i (n.conns i) n.world

theorem looping_init (R : Receives S ρ) (T : Streams S) (X : Exchange J) (passes : Nat → Nat)
    (K : Nat) : Looping R T X passes K (Net.init R T passes) where
  steady := steady_init T.toCompletes
  inv := inv_init
  dtor := rfl
  running := rfl
  within := ⟨fun _ _ => ⟨rfl, T.load_empty⟩, fun m hm => absurd hm List.not_mem_nil⟩
  paced i :=
    { passes := Nat.zero_add _
      replies := rfl
      pc := trivial
      taken := (Nat.zero_mul _).symm
      within := Nat.zero_le _
      stream := rfl
      session := R.fresh_holds
      posted := rfl
      held := fun m hm => absurd hm List.not_mem_nil
      whole := T.whole_empty
      answered := by
        unfold unanswered
        exact Nat.zero_sub _ }

/-- What has been handled has come before. -/
theorem handled_sublist {w : World κ} (h : InOrder w.logic) (i : Nat) :
    (w.handled i).Sublist (arrived w.logic i) := by
  unfold World.handled
  rw [ofSession_filter]
  refine List.filter_sublist.trans (List.Sublist.trans ?_ (List.sublist_append_left _ _))
  exact h.done_prefix.sublist.filter _

/-- The message the callback is about has come before. -/
theorem dealt_mem {w : World κ} (h : InOrder w.logic) {draining : Bool} {m : LogicNode}
    (hpc : w.logic.worker = .deal draining m) : m ∈ arrived w.logic m.session := by
  have hfront := h.front
  rw [hpc] at hfront
  have hpushed : m ∈ w.logic.pushed := by
    rw [← h.order]
    exact List.mem_append_right _ (List.mem_of_mem_head? (Option.mem_def.mpr hfront.1))
  refine List.mem_append_left _ (List.mem_filter.mpr ⟨hpushed, ?_⟩)
  exact beq_self_eq_true m.session

section

variable {R : Receives S ρ} {T : Streams S} {X : Exchange J} {p i : Nat} {c : Conn ρ}
  {w : World κ}

/-- Some of the requests have come whole. -/
theorem Paced.decoded (h : Paced R T X p i c w) :
    ∃ m ≤ c.client.sent, (decode c.received).2 = List.replicate m X.frame.post :=
  (decode_prefix_requests ⟨c.up, h.stream⟩).2

/-- All messages of a session are the request. -/
theorem Paced.post_eq (h : Paced R T X p i c w) {m : LogicNode} (hm : m ∈ arrived w.logic i) :
    S.post m.recvNode = X.frame.post := by
  obtain ⟨k, -, hk⟩ := h.decoded
  refine List.eq_of_mem_replicate (?_ : _ ∈ List.replicate k X.frame.post)
  rw [← hk, ← h.posted]
  exact List.mem_map_of_mem (List.mem_append_left _ hm)

theorem Paced.payload_eq (h : Paced R T X p i c w) {m : LogicNode} (hm : m ∈ arrived w.logic i) :
    S.payload m.recvNode = X.request :=
  congrArg Prod.snd (h.post_eq hm)

/-- A request has a callback. -/
theorem Paced.registered (h : Paced R T X p i c w) {m : LogicNode} (hm : m ∈ arrived w.logic i) :
    m.registered = true := by
  have hid : m.recvNode.msgId = msgHelloWord := congrArg Prod.fst (h.post_eq hm)
  unfold LogicNode.registered registerCallBack
  rw [hid]
  rfl

/-- All a session has been sent are replies to the request. -/
theorem Paced.buffers (h : Paced R T X p i c w) (hs : Steady T.toCompletes J w) :
    (T.accepted (w.sends i)).map (fun n => n.buffer) =
      List.replicate (T.accepted (w.sends i)).length X.reply := by
  obtain ⟨answered, hsub, hall⟩ := hs.answering.inReply i
  have hmem : ∀ m ∈ answered, S.payload m.recvNode = X.request := fun m hm =>
    h.payload_eq ((hsub.trans (handled_sublist hs.answering.inOrder i)).subset hm)
  clear hsub
  generalize T.accepted (w.sends i) = nodes at hall ⊢
  induction hall with
  | nil => rfl
  | cons hreply _ ih =>
    rw [List.map_cons, X.buffer_of_reply (hmem _ List.mem_cons_self) hreply,
      ih fun m hm => hmem m (List.mem_cons_of_mem _ hm)]
    rfl

/-- The bytes on their way to the client, and those it has read. -/
theorem Paced.handed_eq (h : Paced R T X p i c w) (hs : Steady T.toCompletes J w) :
    T.handed (w.sends i) = (List.replicate (T.started (w.sends i)) X.reply).flatten := by
  have hle := T.started_le (hs.ok i) h.whole
  rw [T.handed_eq (hs.ok i) h.whole, List.flatMap_def, List.map_take, h.buffers hs,
    List.take_replicate, Nat.min_eq_left hle]

/-- Where the requests of a connection are. -/
structure Counts (T : Streams S) (i : Nat) (c : Conn ρ) (w : World κ) : Prop where
  read : c.client.replies.length ≤ T.started (w.sends i)
  started : T.started (w.sends i) ≤ (T.accepted (w.sends i)).length
  accepted : (T.accepted (w.sends i)).length = (w.handled i).length
  handled : (w.handled i).length ≤ (arrived w.logic i).length
  posted : (arrived w.logic i).length + c.todo.length = (decode c.received).2.length
  decoded : (decode c.received).2.length ≤ c.client.sent
  sent : c.client.sent ≤ c.client.replies.length + 1

theorem Exchange.reply_pos (X : Exchange J) : 0 < X.reply.length := by
  rw [X.reply_length]
  exact Nat.lt_of_lt_of_le (by decide) (Nat.le_add_right _ _)

theorem Paced.counts (h : Paced R T X p i c w) (hs : Steady T.toCompletes J w) :
    Counts T i c w where
  read := by
    refine Nat.le_of_mul_le_mul_right ?_ X.reply_pos
    have htaken := h.taken
    have hwithin := h.within
    omega
  started := T.started_le (hs.ok i) h.whole
  accepted := by
    have hle := (hs.answering.inReply i).length_le
    have hnone := h.answered
    unfold unanswered at hnone
    omega
  handled := (handled_sublist hs.answering.inOrder i).length_le
  posted := by
    have hlen := congrArg List.length h.posted
    rwa [List.length_map, List.length_append, List.length_map] at hlen
  decoded := by
    obtain ⟨m, hm, hdec⟩ := h.decoded
    rw [hdec, List.length_replicate]
    exact hm
  sent := by
    unfold Client.sent Client.asked
    split
    · exact le_rfl
    · exact le_rfl
    · exact Nat.le_succ _
    · exact Nat.le_succ _

/-- At most two replies are in the queue. -/
theorem Paced.queue_le (h : Paced R T X p i c w) (hs : Steady T.toCompletes J w) :
    S.sendQueSize (w.sends i) ≤ 2 := by
  have hsize := T.queue_le (hs.ok i) h.whole
  obtain ⟨hread, -, haccepted, hhandled, hposted, hdecoded, hsent⟩ := h.counts hs
  omega

theorem Paced.findsRoom (h : Paced R T X p i c w) (hs : Steady T.toCompletes J w)
    (e : WorldEvent ε) : FindsRoom S J i w e := by
  cases e with
  | callback =>
    intro _ _ _ _ _
    have hmax : maxSendque = 1000 := rfl
    have hle := h.queue_le hs
    omega
  | _ => trivial

/-- The callback returns for each message of the session. -/
theorem Paced.harmless (hJ : J.Documented) (h : Paced R T X p i c w) {m : LogicNode}
    (hm : m ∈ arrived w.logic i) : Harmless S J w m where
  holds := h.held m (List.mem_append_left _ hm)
  readable := by
    rw [h.payload_eq hm]
    exact X.readable
  sendable := by
    rw [h.payload_eq hm, ← replyText_eq hJ X.readable]
    exact Or.inr X.sendable

end

/-! ## Steps of the server -/

/-- Outside the callbacks the process does not end, as long as nothing is popped off an empty
queue. -/
theorem over_moves {leaves : Bool} {s t : Sys LogicNode} {e : Event LogicNode}
    (h : s.over = false) (hI : Inv leaves LogicNode.registered t)
    (hcallback : ∀ returns, e ≠ .callback returns)
    (hmoves : Moves leaves LogicNode.registered s e t) : t.over = false := by
  have hs : s.worker ≠ .terminated := by
    intro hpc
    unfold Sys.over at h
    rw [hpc] at h
    cases h
  have hnotified : s.notifyOne.worker ≠ .terminated := by
    rcases notifyOne_worker s with hw | ⟨-, hw⟩
    · rw [hw]
      exact hs
    · rw [hw]
      nofun
  have hfault := hI.noEmptyAccess.2
  have hterm : t.worker ≠ .terminated := by
    cases hmoves with
    | callback returns _ _ _ => exact absurd rfl (hcallback returns)
    | drained _ _ => cases leaves <;> nofun
    | pop draining _ _ _ _ => cases draining <;> nofun
    | unlock exit _ => cases exit <;> nofun
    | post _ _ _ | posterLock _ _ _ _ | posterPush _ _ _ | posterTest _ _ | posterUnlock _ _ _
    | dtorStop _ | dtorJoin _ _ => exact hs
    | posterNotify _ _ | dtorNotify _ => exact hnotified
    | _ => nofun
  unfold Sys.over
  split
  · next hpc => exact absurd hpc hfault
  · next hpc => exact absurd hpc hterm
  · rfl

/-- The steps of the server here: its own, and the posts of the handlers. -/
def WorldEvent.ByServer (e : WorldEvent ε) : Prop :=
  e.internal = true ∨ ∃ i m, e = .logic (.post i m) ∧ m.session = i

/-- What a step of the server keeps. -/
structure ServerKeeps (T : Streams S) (J : JsonCpp) (w t : World κ) : Prop where
  steady : Steady T.toCompletes J t
  inv : Inv S.leaves LogicNode.registered t.logic
  dtor : t.logic.dtor = .idle
  running : t.logic.over = false
  sends : ∀ i, T.whole (t.sends i) ∧ T.started (w.sends i) ≤ T.started (t.sends i)
  answered : ∀ i, unanswered T.toAccepts i t = 0

theorem serverKeeps_step (hJ : J.Documented) {R : Receives S ρ} {T : Streams S} {X : Exchange J}
    {passes : Nat → Nat} {K : Nat} {n : Net κ ρ} {e : WorldEvent ε} {t : World κ}
    (hn : Looping R T X passes K n) (he : WorldEvent.ByServer e)
    (hsmooth : Smooth R T n (.server e)) (h : n.world.step S J e = some t) :
    ServerKeeps T J n.world t := by
  have hin := hn.steady.answering.inOrder
  have hown : e.Own := by
    rcases he with he | ⟨i, m, rfl, hm⟩
    · exact (WorldEvent.posts_internal he).1
    · exact hm
  have hquiet : T.Quiet e := by
    cases e with
    | session i e => exact T.completion_of_written hsmooth
    | _ => trivial
  have hdtor : t.logic.dtor = .idle := by
    rcases he with he | ⟨i, m, rfl, -⟩
    · exact (dtor_internal he h).trans hn.dtor
    · cases world_moves h with
      | logic _ l _ hl =>
        cases step_moves hl
        exact hn.dtor
  have hanswered : ∀ i, unanswered T.toAccepts i t = 0 := fun i =>
    ((answering_step hJ T.toAccepts n.world e t hn.steady.answering hquiet h).2 i).1
      ((hn.paced i).findsRoom hn.steady e) |>.trans (hn.paced i).answered
  have hsteady := steady_step hJ T.toCompletes n.world e t hn.steady ⟨hown, hquiet⟩ h
  have hsame : ∀ i, T.whole (n.world.sends i) ∧
      T.started (n.world.sends i) ≤ T.started (n.world.sends i) :=
    fun i => ⟨(hn.paced i).whole, le_rfl⟩
  -- the send side of one session goes on
  have hupdate : ∀ i s, T.whole s ∧ T.started (n.world.sends i) ≤ T.started s → ∀ j,
      T.whole (Function.update n.world.sends i s j) ∧
        T.started (n.world.sends j) ≤ T.started (Function.update n.world.sends i s j) := by
    intro i s hs j
    by_cases hj : j = i
    · rw [hj, Function.update_self]
      exact hs
    · rw [Function.update_of_ne hj]
      exact hsame j
  cases world_moves h with
  | logic e l hcallback hl =>
    have hunstopped : StopUnseen n.world.logic e := by
      cases e with
      | worker => exact fun _ => (hn.steady.unstopped hn.dtor).bStop
      | _ => trivial
    have hI := step_inv _ e _ hn.inv (Or.inr hunstopped) hl
    exact ⟨hsteady, hI, hdtor, over_moves hn.running hI hcallback (step_moves hl), hsame,
      hanswered⟩
  | answer draining m s hpc hs =>
    have hcleared : T.clear (n.world.sends m.session) := hsmooth draining m hpc
    refine ⟨hsteady, hn.inv.callback hpc true, hdtor, rfl, ?_, hanswered⟩
    exact hupdate m.session s (T.send_whole (hn.steady.ok m.session)
      (hn.paced m.session).whole hcleared (returns_send hJ hs).2)
  | harmful draining m pc hpc _ hs =>
    obtain ⟨s, hs'⟩ := (harmless_iff hJ).mp ((hn.paced m.session).harmless hJ (dealt_mem hin hpc))
    exact absurd hs' (hs s)
  | session i e s hs =>
    refine ⟨hsteady, hn.inv, hdtor, hn.running, ?_, hanswered⟩
    exact hupdate i s (T.written_whole (hn.steady.ok i) (hn.paced i).whole hsmooth hs)

/-- A step of the server, as one connection sees it. -/
theorem Paced.served {R : Receives S ρ} {T : Streams S} {X : Exchange J} {p i : Nat}
    {c : Conn ρ} {w t : World κ} (h : Paced R T X p i c w) (hs : ServerKeeps T J w t)
    {todo : List RecvNode}
    (hposted : arrived t.logic i ++ todo.map (LogicNode.mk i) =
      arrived w.logic i ++ c.todo.map (LogicNode.mk i)) :
    Paced R T X p i { c with todo } t where
  passes := h.passes
  replies := h.replies
  pc := h.pc
  taken := h.taken
  within := h.within.trans (Nat.mul_le_mul_right _ (hs.sends i).2)
  stream := h.stream
  session := h.session
  posted := by
    dsimp only
    rw [hposted]
    exact h.posted
  held := by
    dsimp only
    rw [hposted]
    exact h.held
  whole := (hs.sends i).1
  answered := hs.answered i

/-! ## Steps of a client -/

/-- A reply that lies in the bytes of several. -/
theorem drop_replies (reply : List UInt8) {r k : Nat} (h : r < k) :
    ∃ rest, (List.replicate k reply).flatten.drop (r * reply.length) = reply ++ rest := by
  obtain ⟨j, rfl⟩ := Nat.exists_eq_add_of_lt h
  refine ⟨(List.replicate j reply).flatten, ?_⟩
  have hlen : (List.replicate r reply).flatten.length = r * reply.length := by simp
  rw [Nat.add_assoc, List.replicate_add, List.flatten_append, List.drop_left' hlen,
    List.replicate_succ, List.flatten_cons]

section

variable {R : Receives S ρ} {T : Streams S} {X : Exchange J} {p i : Nat} {c : Conn ρ}
  {w : World κ}

/-- No more requests are written than there are to be. -/
theorem Paced.sent_le (h : Paced R T X p i c w) : c.client.sent ≤ p := by
  have hpasses := h.passes
  have hpc := h.pc
  unfold Client.sent Client.asked
  split
  · next heq =>
    rw [heq] at hpc
    omega
  · next heq =>
    rw [heq] at hpc
    have := hpc.1
    omega
  · omega
  · omega

/-- What the client finds when it reads: the reply it waits for, and those behind it. -/
theorem Paced.read_reply (h : Paced R T X p i c w) (hs : Steady T.toCompletes J w) {m : Nat}
    (hm : 0 < c.client.half + m) {xs : List UInt8}
    (hread : c.client.read (T.handed (w.sends i)) m = some xs) :
    c.client.taken + m ≤ T.started (w.sends i) * X.reply.length ∧
      ∃ rest, xs = ((X.reply ++ rest).drop c.client.half).take m := by
  unfold Client.read at hread
  split_ifs at hread with hle
  obtain rfl := Option.some.inj hread
  have hlen : (List.replicate (T.started (w.sends i)) X.reply).flatten.length =
      T.started (w.sends i) * X.reply.length := by simp
  rw [h.handed_eq hs] at hle ⊢
  rw [hlen] at hle
  have htaken := h.taken
  have hlt : c.client.replies.length < T.started (w.sends i) := by
    by_contra hge
    have := Nat.mul_le_mul_right X.reply.length (not_lt.mp hge)
    omega
  obtain ⟨rest, hrest⟩ := drop_replies X.reply hlt
  refine ⟨hle, rest, ?_⟩
  rw [← hrest, List.drop_drop, htaken]

/-- The length field in the head of the reply. -/
theorem Exchange.load_head (X : Exchange J) (rest : List UInt8) :
    loadShort ((X.reply ++ rest).take headTotalLen) headIdLen = .ok (short X.text.length) := by
  have hback := @networkToHostShort_hostToNetworkShort (short X.text.length) _ _ rfl
  exact congrArg Except.ok hback

/-- How long the text is. -/
theorem Exchange.body_length (X : Exchange J) :
    min (sizeT (short X.text.length).toInt) maxLength = X.text.length := by
  have hle : X.text.length ≤ maxLength := X.reply_le
  have hmax : maxLength = 2048 := rfl
  rw [X.textLen, sizeT_of_nonneg (Int.natCast_nonneg _) (by omega), Int.toNat_natCast]
  exact Nat.min_eq_left hle

/-- The client writes a request. -/
theorem Paced.write (h : Paced R T X p i c w) (hpc : c.client.pc = .write)
    (hleft : 0 < c.client.left) :
    Paced R T X p i { c with client := { c.client with pc := .head },
                             up := c.up ++ X.frame.bytes } w := by
  refine ⟨h.passes, h.replies, hleft, ?_, h.within, ?_, h.session, h.posted, h.held, h.whole,
    h.answered⟩
  · have htaken := h.taken
    unfold Client.half at htaken ⊢
    rw [hpc] at htaken
    exact htaken
  · have hstream := h.stream
    unfold Client.sent Client.asked at hstream ⊢
    rw [hpc] at hstream
    dsimp only at hstream ⊢
    rw [requests_snoc, ← List.append_assoc, hstream]
    rfl

/-- The client reads the head of a reply. -/
theorem Paced.head (h : Paced R T X p i c w) (hpc : c.client.pc = .head)
    (hle : c.client.taken + headTotalLen ≤ T.started (w.sends i) * X.reply.length) :
    Paced R T X p i { c with client := { c.client with
      pc := .body (short X.text.length), taken := c.client.taken + headTotalLen } } w := by
  refine ⟨h.passes, h.replies, ⟨?_, rfl⟩, ?_, hle, ?_, h.session, h.posted, h.held, h.whole,
    h.answered⟩
  · have hleft := h.pc
    rw [hpc] at hleft
    exact hleft
  · have htaken := h.taken
    unfold Client.half at htaken ⊢
    rw [hpc] at htaken
    dsimp only at htaken ⊢
    omega
  · have hstream := h.stream
    unfold Client.sent Client.asked at hstream ⊢
    rw [hpc] at hstream
    exact hstream

/-- The client reads the text of a reply, and prints it. -/
theorem Paced.body (h : Paced R T X p i c w) {msglen : Int16}
    (hpc : c.client.pc = .body msglen)
    (hle : c.client.taken + X.text.length ≤ T.started (w.sends i) * X.reply.length) :
    Paced R T X p i { c with client := { c.client with
      left := c.client.left - 1, pc := .write, taken := c.client.taken + X.text.length,
      replies := c.client.replies ++ [X.text] } } w := by
  have hleft := h.pc
  rw [hpc] at hleft
  refine ⟨?_, ?_, trivial, ?_, hle, ?_, h.session, h.posted, h.held, h.whole,
    h.answered⟩
  · have hpasses := h.passes
    have := hleft.1
    dsimp only
    rw [List.length_append, List.length_singleton]
    omega
  · dsimp only
    rw [List.length_append, List.length_singleton, List.replicate_succ', ← h.replies]
  · have htaken := h.taken
    have hlen := X.reply_length
    unfold Client.half at htaken ⊢
    rw [hpc] at htaken
    dsimp only at htaken ⊢
    rw [List.length_append, List.length_singleton, Nat.succ_mul]
    omega
  · have hstream := h.stream
    unfold Client.sent Client.asked at hstream ⊢
    rw [hpc] at hstream
    dsimp only at hstream ⊢
    rw [List.length_append]
    exact hstream

/-! ### The work that is left -/

/-- The calls of a client that are left, and the bytes it will write; `len` is the length of a
request. -/
def Client.work (len : Nat) (c : Client) : Nat :=
  match c.pc with
  | .write => (len + 7) * c.left
  | .head => (len + 7) * (c.left - 1) + 2
  | .body _ => (len + 7) * (c.left - 1) + 1
  | .ended => 0

theorem Client.work_write (len left : Nat) :
    (len + 7) * (left + 1) = (len + 7) * left + len + 7 := by
  rw [Nat.mul_succ, ← Nat.add_assoc]

/-- **A call of the client**: it goes on as it should, with a call less to make. -/
theorem Paced.client_step (hJ : J.Documented) (hR : J.RoundTrips) (h : Paced R T X p i c w)
    (hs : Steady T.toCompletes J w) {d : Client} {bytes : List UInt8}
    (hd : c.client.step J X.request (T.handed (w.sends i)) = some (d, bytes)) :
    Paced R T X p i { c with client := d, up := c.up ++ bytes } w ∧ 0 < c.client.left ∧
      bytes.length + d.work X.request.length < c.client.work X.request.length := by
  have hleft := h.pc
  have h4 : headTotalLen = 4 := rfl
  unfold Client.step at hd
  split at hd
  · next hpc =>
    split at hd
    · next left bytes' hl hsend =>
      have hbytes : Except.ok bytes' = .ok X.frame.bytes :=
        hsend.symm.trans (sendData_frame X.request_le)
      obtain rfl := Except.ok.inj hbytes
      obtain ⟨rfl, rfl⟩ := Prod.mk.inj (Option.some.inj hd)
      have hpos : 0 < c.client.left := by omega
      refine ⟨h.write hpc hpos, hpos, ?_⟩
      have hwork := Client.work_write X.request.length left
      unfold Client.work
      rw [X.frame_length, hpc, hl]
      dsimp only
      rw [Nat.succ_eq_add_one, Nat.add_sub_cancel]
      omega
    · cases hd
  · next hpc =>
    rw [hpc] at hleft
    split at hd
    · cases hd
    · next replyHead hread =>
      obtain ⟨hle, rest, hrest⟩ := h.read_reply hs (by omega) hread
      have hhalf : c.client.half = 0 := by
        unfold Client.half
        rw [hpc]
      rw [hhalf, List.drop_zero] at hrest
      rw [hrest, X.load_head] at hd
      obtain ⟨rfl, rfl⟩ := Prod.mk.inj (Option.some.inj hd)
      rw [List.append_nil]
      refine ⟨h.head hpc hle, hleft, ?_⟩
      unfold Client.work
      rw [hpc]
      exact Nat.lt_of_le_of_lt (Nat.zero_add _).le (Nat.lt_succ_self _)
  · next msglen hpc =>
    rw [hpc] at hleft
    obtain ⟨hpos, rfl⟩ := hleft
    rw [X.body_length] at hd
    obtain ⟨text, hread, hprint⟩ := Option.map_eq_some_iff.mp hd
    obtain ⟨rfl, rfl⟩ := Prod.mk.inj hprint
    have hhalf : c.client.half = headTotalLen := by
      unfold Client.half
      rw [hpc]
    obtain ⟨hle, rest, hrest⟩ := h.read_reply hs (by omega) hread
    obtain rfl : text = X.text := by
      have htext : (X.reply ++ rest).drop headTotalLen = X.text ++ rest := rfl
      rw [hrest, hhalf, htext, List.take_left]
    have hprint : c.client.print J X.text = { c.client with
        left := c.client.left - 1, pc := .write, taken := c.client.taken + X.text.length,
        replies := c.client.replies ++ [X.text] } := if_pos (X.prints hJ hR)
    rw [hprint, List.append_nil]
    refine ⟨h.body hpc hle, hpos, ?_⟩
    unfold Client.work
    rw [hpc]
    exact Nat.lt_of_le_of_lt (Nat.zero_add _).le (Nat.lt_succ_self _)
  · cases hd

/-- What has come of the requests suits both servers. -/
theorem Paced.wholesome (h : Paced R T X p i c w) {xs : List UInt8} (hxs : xs <+: c.up) :
    Wholesome (c.received ++ xs) := by
  have hpre : c.received ++ xs <+: requests X.frame c.client.sent := by
    rw [← h.stream]
    exact (List.prefix_append_right_inj c.received).mpr hxs
  obtain ⟨hstop, m, -, hm⟩ := decode_prefix_requests hpre
  refine ⟨hstop, fun q hq => ?_⟩
  rw [hm] at hq
  rw [List.eq_of_mem_replicate hq]
  exact X.nonempty

/-- A read of the session. -/
theorem Paced.read (h : Paced R T X p i c w) {xs : List UInt8} {r : ρ} {nodes : List RecvNode}
    (htodo : c.todo = []) (hne : xs ≠ []) (hlen : xs.length ≤ maxLength) (hxs : xs <+: c.up)
    (hclean : R.clean (c.received ++ xs)) (hr : R.read c.session xs = some (r, nodes)) :
    Paced R T X p i { c with up := c.up.drop xs.length, received := c.received ++ xs,
                             session := r, todo := nodes } w ∧
      (decode (c.received ++ xs)).2.length = (decode c.received).2.length + nodes.length := by
  obtain ⟨r', nodes', hr', hholds, hdec, hnodes⟩ :=
    R.read_holds h.session hne hlen (h.wholesome hxs) hclean
  obtain ⟨rfl, rfl⟩ := Prod.mk.inj (Option.some.inj (hr.symm.trans hr'))
  have hposted := h.posted
  have hheld := h.held
  rw [htodo, List.map_nil, List.append_nil] at hposted hheld
  obtain ⟨rest, hup⟩ := hxs
  refine ⟨⟨h.passes, h.replies, h.pc, h.taken, h.within, ?_, hholds, ?_, ?_, h.whole, h.answered⟩,
    ?_⟩
  · dsimp only
    rw [← h.stream, ← hup, List.drop_left, List.append_assoc]
  · dsimp only
    rw [hdec, List.map_append, hposted, List.map_map]
    rfl
  · refine List.forall_mem_append.mpr ⟨hheld, fun m hm => ?_⟩
    obtain ⟨n, hn, rfl⟩ := List.mem_map.mp hm
    exact hnodes n hn
  · rw [hdec, List.length_append, List.length_map]

/-- The reads, posts and calls of a connection that are left. -/
def Conn.work (X : Exchange J) (passes : Nat) (c : Conn ρ) : Nat :=
  42 * c.todo.length + 43 * (passes - (decode c.received).2.length) + c.up.length +
    c.client.work X.request.length

end

/-- A bound on the steps that are left. -/
def Net.work (T : Streams S) (X : Exchange J) (passes : Nat → Nat) (K : Nat) (n : Net κ ρ) : Nat :=
  n.world.work T.toCompletes K + ∑ i ∈ Finset.range K, (n.conns i).work X (passes i)

section

variable {R : Receives S ρ} {T : Streams S} {X : Exchange J} {passes : Nat → Nat} {K : Nat}
  {n : Net κ ρ}

/-- The sum after a step of one connection. -/
theorem Net.sum_set (n : Net κ ρ) (X : Exchange J) (passes : Nat → Nat) {i : Nat} (hi : i < K)
    (c : Conn ρ) :
    (∑ k ∈ Finset.range K, ((n.set i c).conns k).work X (passes k)) +
        (n.conns i).work X (passes i) =
      (∑ k ∈ Finset.range K, (n.conns k).work X (passes k)) + c.work X (passes i) := by
  have h := sum_range_change (f := fun k => (n.conns k).work X (passes k))
    (g := fun k => ((n.set i c).conns k).work X (passes k)) hi fun k hk => by
      unfold Net.set
      dsimp only
      rw [Function.update_of_ne hk]
  have hself : (n.set i c).conns i = c := Function.update_self ..
  rwa [hself] at h

/-- A step of one connection alone. -/
theorem Looping.set (hn : Looping R T X passes K n) {i : Nat} {c : Conn ρ}
    (hc : Paced R T X (passes i) i c n.world) : Looping R T X passes K (n.set i c) where
  steady := hn.steady
  inv := hn.inv
  dtor := hn.dtor
  running := hn.running
  within := hn.within
  paced j := by
    unfold Net.set
    dsimp only
    by_cases hj : j = i
    · subst hj
      rwa [Function.update_self]
    · rw [Function.update_of_ne hj]
      exact hn.paced j

/-- A connection with something to do is one of those that make requests. -/
theorem Looping.lt (hn : Looping R T X passes K n) (hK : ∀ i, K ≤ i → passes i = 0) {i : Nat}
    (h : 0 < (n.conns i).client.left ∨ 0 < (n.conns i).client.sent) : i < K := by
  by_contra hge
  have hnone := hK i (not_lt.mp hge)
  have hpasses := (hn.paced i).passes
  have hsent := (hn.paced i).sent_le
  omega

/-- The work of a handler that calls `PostMsgToQue`. -/
theorem post_work {C : Completes S} {w t : World κ} {i : Nat} {m : LogicNode} (hi : i < K)
    (h : w.step S J (.logic (.post i m)) = some t) :
    t.work C K = w.work C K + 41 := by
  cases world_moves h with
  | logic e l _ hl =>
    cases step_moves hl with
    | post _ _ hpc =>
      have hsum := posters_work hi hpc (.lock m)
      change _ + 0 = _ + 41 at hsum
      unfold World.work Sys.work
      dsimp only
      omega

theorem post_within {C : Completes S} {w t : World κ} {i : Nat} {m : LogicNode} (hi : i < K)
    (hw : Within C K w) (h : w.step S J (.logic (.post i m)) = some t) : Within C K t := by
  cases world_moves h with
  | logic e l _ hl =>
    cases step_moves hl with
    | post _ _ hpc =>
      refine ⟨fun j hj => ⟨?_, (hw.idle j hj).2⟩, hw.que⟩
      exact (Function.update_of_ne (Nat.ne_of_gt (lt_of_lt_of_le hi hj)) ..).trans (hw.idle j hj).1

/-- **Every step keeps what holds, and takes some work off.** -/
theorem looping_step (hJ : J.Documented) (hR : J.RoundTrips) (hK : ∀ i, K ≤ i → passes i = 0)
    (n : Net κ ρ) (e : NetEvent ε) (t : Net κ ρ) (hn : Looping R T X passes K n)
    (hsmooth : Smooth R T n e) (h : n.step R T J X.request e = some t) :
    Looping R T X passes K t ∧ t.work T X passes K < n.work T X passes K := by
  unfold Net.work
  cases net_moves h with
  | client i d bytes hd =>
    obtain ⟨hpaced, hleft, hwork⟩ := (hn.paced i).client_step hJ hR hn.steady hd
    have hsum := n.sum_set X passes (hn.lt hK (Or.inl hleft))
      { n.conns i with client := d, up := (n.conns i).up ++ bytes }
    have hless : Conn.work X (passes i)
        { n.conns i with client := d, up := (n.conns i).up ++ bytes } <
          (n.conns i).work X (passes i) := by
      unfold Conn.work
      dsimp only
      rw [List.length_append]
      omega
    exact ⟨hn.set hpaced, Nat.add_lt_add_left (by omega) _⟩
  | read i xs r nodes hxs hr =>
    obtain ⟨htodo, -, -, hne, hlen, hpre⟩ := hxs
    obtain ⟨hpaced, hdec⟩ := (hn.paced i).read htodo hne hlen hpre hsmooth hr
    have hpos := List.length_pos_iff.mpr hne
    have hup := hpre.length_le
    have hasked : 0 < (n.conns i).client.sent := by
      have hstream := congrArg List.length (hn.paced i).stream
      rw [List.length_append, requests_length] at hstream
      by_contra hzero
      rw [Nat.eq_zero_of_not_pos hzero, Nat.zero_mul] at hstream
      omega
    have hsum := n.sum_set X passes (hn.lt hK (Or.inr hasked))
      { n.conns i with up := (n.conns i).up.drop xs.length,
                       received := (n.conns i).received ++ xs, session := r, todo := nodes }
    have hless : Conn.work X (passes i)
        { n.conns i with up := (n.conns i).up.drop xs.length,
                         received := (n.conns i).received ++ xs, session := r, todo := nodes } <
          (n.conns i).work X (passes i) := by
      have hle := (hpaced.counts hn.steady).decoded.trans hpaced.sent_le
      unfold Conn.work
      dsimp only at hle ⊢
      rw [htodo, hdec, List.length_drop, List.length_nil]
      omega
    exact ⟨hn.set hpaced, Nat.add_lt_add_left (by omega) _⟩
  | post i node rest w htodo hw =>
    have hkeeps := serverKeeps_step hJ hn (Or.inr ⟨i, ⟨i, node⟩, rfl, rfl⟩) trivial hw
    have hown : WorldEvent.Own (.logic (.post i ⟨i, node⟩) : WorldEvent ε) := rfl
    have harrived := (arrived_step n.world _ w hn.steady.ownHands hown hw).2
    have hasked : 0 < (n.conns i).client.sent := by
      obtain ⟨-, -, -, -, hposted, hdecoded, -⟩ := (hn.paced i).counts hn.steady
      rw [htodo, List.length_cons] at hposted
      omega
    have hi := hn.lt hK (Or.inr hasked)
    have hsum := n.sum_set X passes hi { n.conns i with todo := rest }
    have hmore := @post_work _ _ _ _ _ T.toCompletes _ _ _ _ hi hw
    have hless : Conn.work X (passes i) { n.conns i with todo := rest } + 42 =
        (n.conns i).work X (passes i) := by
      unfold Conn.work
      dsimp only
      rw [htodo, List.length_cons]
      omega
    refine ⟨⟨hkeeps.steady, hkeeps.inv, hkeeps.dtor, hkeeps.running,
      post_within hi hn.within hw, fun j => ?_⟩, ?_⟩
    · unfold Net.set
      dsimp only
      by_cases hj : j = i
      · subst hj
        rw [Function.update_self]
        refine (hn.paced j).served hkeeps ?_
        rw [harrived j, htodo, List.map_cons, List.append_assoc]
        exact congrArg _ (congrArg (· ++ _) (if_pos rfl))
      · rw [Function.update_of_ne hj]
        refine (hn.paced j).served hkeeps ?_
        rw [harrived j, show WorldEvent.posts j (.logic (.post i ⟨i, node⟩) : WorldEvent ε) = []
          from if_neg (Ne.symm hj), List.append_nil]
    · show w.work T.toCompletes K + ∑ k ∈ Finset.range K,
        ((n.set i { n.conns i with todo := rest }).conns k).work X (passes k) < _
      omega
  | server e w he hw =>
    have hkeeps := serverKeeps_step hJ hn (Or.inl he) hsmooth hw
    obtain ⟨hown, hposts⟩ := WorldEvent.posts_internal he
    have harrived := (arrived_step n.world e w hn.steady.ownHands hown hw).2
    have hquiet : T.Quiet e := by
      cases e with
      | session i e => exact T.completion_of_written hsmooth
      | _ => trivial
    obtain ⟨hwithin, hless⟩ := internal_step hJ hn.steady hn.within he hquiet hw
    refine ⟨⟨hkeeps.steady, hkeeps.inv, hkeeps.dtor, hkeeps.running, hwithin, fun j => ?_⟩,
      Nat.add_lt_add_right hless _⟩
    refine (hn.paced j).served hkeeps ?_
    rw [harrived j, hposts j, List.append_nil]

/-! ## Where nothing can go on -/

/-- With its reply on the way the client can go on. -/
theorem Paced.client_goes_on {p i : Nat} {c : Conn ρ} {w : World κ} (h : Paced R T X p i c w)
    (hs : Steady T.toCompletes J w) (hall : c.client.sent ≤ T.started (w.sends i))
    (hleft : 0 < c.client.left) :
    c.client.step J X.request (T.handed (w.sends i)) ≠ none := by
  have hpc := h.pc
  have htaken := h.taken
  have hlen : (T.handed (w.sends i)).length = T.started (w.sends i) * X.reply.length := by
    rw [h.handed_eq hs]
    simp
  have hreply := X.reply_length
  have hread : ∀ m, 0 < c.client.asked → c.client.half + m ≤ X.reply.length →
      ∃ xs, c.client.read (T.handed (w.sends i)) m = some xs := by
    intro m hasked hm
    refine ⟨_, if_pos ?_⟩
    have hle := Nat.mul_le_mul_right X.reply.length hall
    have hsent : (c.client.replies.length + 1) * X.reply.length ≤
        c.client.sent * X.reply.length := Nat.mul_le_mul_right _ (Nat.add_le_add_left hasked _)
    rw [Nat.succ_mul] at hsent
    omega
  cases hc : c.client.pc with
  | ended =>
    rw [hc] at hpc
    exact hpc.elim
  | write =>
    obtain ⟨left, hl⟩ := Nat.exists_eq_add_one.mpr hleft
    unfold Client.step
    rw [hc, hl, sendData_frame X.request_le]
    nofun
  | head =>
    have hhalf : c.client.half = 0 := by
      unfold Client.half
      rw [hc]
    have hasked : 0 < c.client.asked := by
      unfold Client.asked
      rw [hc]
      exact Nat.one_pos
    obtain ⟨xs, hxs⟩ := hread headTotalLen hasked (by omega)
    obtain ⟨-, rest, hrest⟩ := h.read_reply hs (by rw [hhalf]; decide) hxs
    rw [hhalf, List.drop_zero] at hrest
    unfold Client.step
    rw [hc]
    dsimp only
    rw [hxs, hrest]
    dsimp only
    rw [X.load_head]
    nofun
  | body msglen =>
    rw [hc] at hpc
    obtain ⟨-, rfl⟩ := hpc
    have hhalf : c.client.half = headTotalLen := by
      unfold Client.half
      rw [hc]
    have hasked : 0 < c.client.asked := by
      unfold Client.asked
      rw [hc]
      exact Nat.one_pos
    obtain ⟨xs, hxs⟩ := hread X.text.length hasked (by omega)
    unfold Client.step
    rw [hc]
    dsimp only
    rw [X.body_length, hxs]
    nofun

/-- The last read, if all before it has been decoded: what is left fits the buffer. -/
theorem Paced.up_le {p i : Nat} {c : Conn ρ} {w : World κ} (h : Paced R T X p i c w)
    (hs : Steady T.toCompletes J w) : c.up.length ≤ maxLength := by
  obtain ⟨hread, hstarted, haccepted, hhandled, hposted, -, hsent⟩ := h.counts hs
  have hlow : c.client.replies.length * X.frame.bytes.length ≤ c.received.length := by
    by_contra hlt
    have := decode_requests_lt ⟨c.up, h.stream⟩ (not_le.mp hlt)
    omega
  have hstream := congrArg List.length h.stream
  rw [List.length_append, requests_length] at hstream
  have hle := Nat.mul_le_mul_right X.frame.bytes.length hsent
  rw [Nat.succ_mul] at hle
  have hframe := X.frame_length
  have hmax := X.request_le
  omega

/-- All that came has been handled, if the queue is empty and the handler is not posting. -/
theorem handled_all {w : World κ} (h : InOrder w.logic) (hq : w.logic.que = []) {i : Nat}
    (hidle : w.logic.posters i = .idle)
    (hreg : ∀ m ∈ arrived w.logic i, m.registered = true) :
    w.handled i = arrived w.logic i := by
  have hdone : done w.logic = w.logic.pushed := by
    rw [← h.order, hq]
    unfold done
    rw [hq]
    split <;> rfl
  have hcome : arrived w.logic i = ofSession i w.logic.pushed := by
    unfold arrived
    rw [hidle]
    exact List.append_nil _
  unfold World.handled
  rw [ofSession_filter, hdone, ← hcome]
  exact List.filter_eq_self.mpr hreg

theorem Net.server_none {request : List UInt8} {e : WorldEvent ε} (he : e.internal = true)
    (h : n.step R T J request (.server e) = none) : n.world.step S J e = none := by
  unfold Net.step at h
  dsimp only at h
  rw [if_pos he] at h
  exact Option.map_eq_none_iff.mp h

/-- Where the server cannot go on, all that came has been handled, and all replies are on the
way. -/
theorem Looping.server_rested (hJ : J.Documented) (hn : Looping R T X passes K n)
    (hrest : ∀ e, Smooth R T n e → n.step R T J X.request e = none) :
    n.world.logic.worker = .blocked ∧ ∀ i, n.world.logic.posters i = .idle ∧
      T.started (n.world.sends i) = (arrived n.world.logic i).length := by
  have hs := hn.steady
  have hin := hs.answering.inOrder
  have hsends : ∀ j, T.started (n.world.sends j) = (T.accepted (n.world.sends j)).length ∧
      T.clear (n.world.sends j) := by
    intro j
    refine T.rest_started (hs.ok j) (hn.paced j).whole fun e he => ?_
    have hnone := Net.server_none rfl (hrest (.server (.session j e)) he)
    unfold World.step at hnone
    dsimp only at hnone
    rw [hn.running, if_neg Bool.false_ne_true] at hnone
    exact Option.map_eq_none_iff.mp hnone
  have hdeal : ∀ draining m, n.world.logic.worker ≠ .deal draining m := by
    intro draining m hpc
    obtain ⟨s, hcall⟩ := callback_harmless hJ hpc
      ((hn.paced m.session).harmless hJ (dealt_mem hin hpc))
    have hnone := Net.server_none rfl (hrest (.server .callback) fun _ m _ => (hsends m.session).2)
    cases hcall.symm.trans hnone
  obtain ⟨hque, hblocked, hidle⟩ := (hs.unstopped hn.dtor).settled_logic hs.attended hs.owned
    hn.running hdeal
    (Option.map_eq_none_iff.mp (Net.server_none rfl (hrest (.server (.logic .worker)) trivial)))
    fun j => Option.map_eq_none_iff.mp
      (Net.server_none rfl (hrest (.server (.logic (.poster j))) trivial))
  refine ⟨hblocked, fun i => ⟨hidle i, ?_⟩⟩
  have hcounts := (hn.paced i).counts hs
  rw [(hsends i).1, hcounts.accepted,
    handled_all hin hque (hidle i) fun m hm => (hn.paced i).registered hm]

/-- Where no handler and no read can go on either, all requests have come. -/
theorem Looping.reads_rested (hn : Looping R T X passes K n)
    (hrest : ∀ e, Smooth R T n e → n.step R T J X.request e = none) {i : Nat}
    (hidle : n.world.logic.posters i = .idle) :
    (arrived n.world.logic i).length = (n.conns i).client.sent := by
  have h := hn.paced i
  have hcounts := h.counts hn.steady
  have htodo : (n.conns i).todo = [] := by
    by_contra hne
    obtain ⟨node, rest, htodo⟩ := List.exists_cons_of_ne_nil hne
    have hnone := hrest (.post i) trivial
    simp [Net.step, htodo, World.step, Sys.step, hn.running, hidle] at hnone
  have hup : (n.conns i).up = [] := by
    by_contra hne
    have hclean : R.clean ((n.conns i).received ++ (n.conns i).up) := by
      rw [h.stream]
      exact R.clean_frames _
    have hpre := List.prefix_refl (n.conns i).up
    obtain ⟨r, nodes, hr, -⟩ :=
      R.read_holds h.session hne (h.up_le hn.steady) (h.wholesome hpre) hclean
    have hnone := hrest (.read i (n.conns i).up) hclean
    unfold Net.step at hnone
    dsimp only at hnone
    rw [if_pos ⟨htodo, hidle, hn.running, hne, h.up_le hn.steady, hpre⟩, hr] at hnone
    cases hnone
  have hstream := h.stream
  rw [hup, List.append_nil] at hstream
  have hposted := hcounts.posted
  rw [htodo, hstream, decode_requests, List.length_replicate] at hposted
  exact hposted

/-- **Where nothing can go on, each client has all its replies.** -/
theorem Looping.rested (hJ : J.Documented) (hn : Looping R T X passes K n)
    (hrest : ∀ e, Smooth R T n e → n.step R T J X.request e = none) (i : Nat) :
    (n.conns i).client.replies = List.replicate (passes i) X.text := by
  obtain ⟨-, hserver⟩ := hn.server_rested hJ hrest
  obtain ⟨hidle, hstarted⟩ := hserver i
  have hcame := hn.reads_rested hrest hidle
  have h := hn.paced i
  have hleft : (n.conns i).client.left = 0 := by
    by_contra hne
    refine h.client_goes_on hn.steady (by omega) (Nat.pos_of_ne_zero hne) ?_
    exact Option.map_eq_none_iff.mp (hrest (.client i) trivial)
  have hpasses := h.passes
  rw [hleft, Nat.add_zero] at hpasses
  rw [h.replies, hpasses]

end

/-! ## Whole runs -/

/-- The clients of a server, each with a number of requests to make: in runs in which nothing
happens that the sessions do not stand. -/
def ServesAll (R : Receives S ρ) (T : Streams S) (J : JsonCpp) : Prop :=
  ∀ (X : Exchange J) (passes : Nat → Nat) (K : Nat), (∀ i, K ≤ i → passes i = 0) →
    ∀ es n, run (Net.step R T J X.request) (Net.init R T passes) es = some n →
      Meets (Net.step R T J X.request) (Smooth R T) (Net.init R T passes) es →
      es.length ≤ (X.request.length + 50) * ∑ i ∈ Finset.range K, passes i + 15 ∧
      (∀ i, ∃ k ≤ passes i, (n.conns i).client.replies = List.replicate k X.text ∧
        S.sendQueSize (n.world.sends i) ≤ 2) ∧
      ((∀ e, Smooth R T n e → n.step R T J X.request e = none) →
        ∀ i, (n.conns i).client.replies = List.replicate (passes i) X.text)

theorem init_work (R : Receives S ρ) (T : Streams S) (X : Exchange J) (passes : Nat → Nat)
    (K : Nat) : (Net.init R T passes).work T X passes K =
      (X.request.length + 50) * ∑ i ∈ Finset.range K, passes i + 15 := by
  have hconn : ∀ i, ((Net.init R T passes).conns i).work X (passes i) =
      (X.request.length + 50) * passes i := by
    intro i
    show 42 * 0 + 43 * (passes i - 0) + 0 + (X.request.length + 7) * passes i = _
    rw [show X.request.length + 50 = X.request.length + 7 + 43 from rfl,
      Nat.add_mul (X.request.length + 7)]
    omega
  have hserver : (Net.init R T passes).world.work T.toCompletes K = 15 := by
    show 15 + 20 * 0 + (∑ i ∈ Finset.range K, 0) + ∑ i ∈ Finset.range K, T.load T.empty = 15
    rw [T.load_empty, Finset.sum_const_zero]
    rfl
  unfold Net.work
  rw [Finset.sum_congr rfl fun i _ => hconn i, ← Finset.mul_sum, hserver]
  exact Nat.add_comm _ _

theorem servesAll (hJ : J.Documented) (hR : J.RoundTrips) (R : Receives S ρ) (T : Streams S) :
    ServesAll R T J := by
  intro X passes K hK es n hrun hsmooth
  obtain ⟨hn, hlen⟩ := run_ranked_of_meets (looping_step hJ hR hK)
    (looping_init R T X passes K) hsmooth hrun
  rw [init_work] at hlen
  refine ⟨le_trans (Nat.le_add_right _ _) hlen, fun i => ?_, hn.rested hJ⟩
  have h := hn.paced i
  have hpasses := h.passes
  exact ⟨_, by omega, h.replies, h.queue_le hn.steady⟩

/-- **Both servers serve their clients**: `logicServer` unless a read ends inside a header,
`BoostCoServer` unless a reply is sent before the one before it has been written. -/
theorem closed_loop (hJ : J.Documented) (hR : J.RoundTrips) (heap heap' : Nat → Nat → UInt8)
    (closeThrows : Bool) {init : Nat → UInt8} {t : BoostCoServer.Session}
    (ht : BoostCoServer.Session.new init = .ok t) :
    ServesAll LogicServer.receives LogicServer.streams J ∧
      ServesAll (BoostCoServer.receives heap heap' closeThrows ht)
        (BoostCoServer.streams heap') J :=
  ⟨servesAll hJ hR _ _, servesAll hJ hR _ _⟩

/-- `sampleJson`, with the reply to the request as one more document. -/
def echoJson : JsonCpp :=
  { sampleJson with
    parse := fun document =>
      if document = replyText sampleJson helloText then
        .object fun key =>
          if key = "id" then .int 1001
          else if key = "data" then .string (greeting ++ "hi".toUTF8.toList)
          else .null
      else sampleJson.parse document }

theorem echoJson_documented : echoJson.Documented :=
  LogicServer.documented_parse sampleJson_documented _

theorem echoJson_roundTrips : echoJson.RoundTrips := by
  intro v _
  have hbrace : ∀ u : SampleValue, sampleJson.toStyledString u ≠ poisonText := by
    intro u h
    obtain ⟨rest, hrest⟩ : ∃ rest, sampleJson.toStyledString u =
        "\x7b\n   \"data\" : ".toUTF8.toList ++ rest := by
      refine ⟨_, (List.append_assoc ..).trans ((List.append_assoc ..).trans
        ((List.append_assoc ..).trans rfl))⟩
    have hfirst : "\x7b\n   \"data\" : ".toUTF8.toList.head? = some 123 := by decide +kernel
    have hpoison : poisonText.head? = some 91 := by decide +kernel
    rw [← h, hrest, List.head?_append, hfirst] at hpoison
    cases hpoison
  by_cases hreply : sampleJson.toStyledString v = replyText sampleJson helloText
  · have hparse : echoJson.parse (echoJson.toStyledString v) = .object _ := if_pos hreply
    rw [hparse]
    exact Or.inr rfl
  · have hparse : echoJson.parse (echoJson.toStyledString v) =
        sampleJson.parse (sampleJson.toStyledString v) := if_neg hreply
    rw [hparse]
    by_cases hhello : sampleJson.toStyledString v = helloText
    · rw [hhello, parse_hello]
      exact Or.inr rfl
    · have hnull : sampleJson.parse (sampleJson.toStyledString v) = .null :=
        (if_neg hhello).trans (if_neg (hbrace v))
      rw [hnull]
      exact Or.inl rfl

/-- The request and its reply. -/
def helloExchange : Exchange echoJson where
  request := helloText
  nonempty := by decide +kernel
  request_le := by decide +kernel
  readable := by
    have hparse : echoJson.parse helloText = sampleJson.parse helloText :=
      if_neg (by decide +kernel)
    constructor
    · rw [hparse]
      exact readable_hello.root
    · rw [hparse]
      exact readable_hello.id
    · rw [hparse]
      exact readable_hello.data
  reply_le := by decide +kernel

/-- Served clients come to rest. -/
theorem ServesAll.rests {R : Receives S ρ} {T : Streams S} (h : ServesAll R T J) (X : Exchange J)
    {passes : Nat → Nat} {K : Nat} (hK : ∀ i, K ≤ i → passes i = 0) : ∃ es n,
      run (Net.step R T J X.request) (Net.init R T passes) es = some n ∧
      Meets (Net.step R T J X.request) (Smooth R T) (Net.init R T passes) es ∧
      ∀ e, Smooth R T n e → n.step R T J X.request e = none :=
  exists_rest fun es n hrun hsmooth => (h X passes K hK es n hrun hsmooth).1

/-- Two clients, each with one request. -/
def twoClients (i : Nat) : Nat := if i < 2 then 1 else 0

/-- Two clients of either server, until nothing can go on: each has read the reply. -/
theorem closed_loop_hello :
    (∃ es n, run (Net.step LogicServer.receives LogicServer.streams echoJson helloText)
        (Net.init LogicServer.receives LogicServer.streams twoClients) es = some n ∧
      es.length ≤ (helloText.length + 50) * 2 + 15 ∧
      (∀ e, Smooth LogicServer.receives LogicServer.streams n e →
        n.step LogicServer.receives LogicServer.streams echoJson helloText e = none) ∧
      (n.conns 0).client.replies = [helloExchange.text] ∧
      (n.conns 1).client.replies = [helloExchange.text]) ∧
    ∃ t, ∃ ht : BoostCoServer.Session.new (fun _ => 0) = .ok t,
      ∃ es n, run (Net.step (BoostCoServer.receives (fun _ _ => 0) (fun _ _ => 0) false ht)
          (BoostCoServer.streams fun _ _ => 0) echoJson helloText)
          (Net.init (BoostCoServer.receives (fun _ _ => 0) (fun _ _ => 0) false ht)
            (BoostCoServer.streams fun _ _ => 0) twoClients) es = some n ∧
        es.length ≤ (helloText.length + 50) * 2 + 15 ∧
        (∀ e, Smooth (BoostCoServer.receives (fun _ _ => 0) (fun _ _ => 0) false ht)
            (BoostCoServer.streams fun _ _ => 0) n e →
          n.step (BoostCoServer.receives (fun _ _ => 0) (fun _ _ => 0) false ht)
            (BoostCoServer.streams fun _ _ => 0) echoJson helloText e = none) ∧
        (n.conns 0).client.replies = [helloExchange.text] ∧
        (n.conns 1).client.replies = [helloExchange.text] := by
  obtain ⟨t, ht, -⟩ := BoostCoServer.new_live fun _ => 0
  have hK : ∀ i, 2 ≤ i → twoClients i = 0 := fun i hi => if_neg (not_lt.mpr hi)
  obtain ⟨hlogic, hboost⟩ := closed_loop echoJson_documented echoJson_roundTrips (fun _ _ => 0)
    (fun _ _ => 0) false ht
  refine ⟨?_, t, ht, ?_⟩
  · obtain ⟨es, n, hrun, hsmooth, hrest⟩ := hlogic.rests helloExchange hK
    obtain ⟨hlen, -, hreplies⟩ := hlogic helloExchange twoClients 2 hK es n hrun hsmooth
    exact ⟨es, n, hrun, hlen, hrest, hreplies hrest 0, hreplies hrest 1⟩
  · obtain ⟨es, n, hrun, hsmooth, hrest⟩ := hboost.rests helloExchange hK
    obtain ⟨hlen, -, hreplies⟩ := hboost helloExchange twoClients 2 hK es n hrun hsmooth
    exact ⟨es, n, hrun, hlen, hrest, hreplies hrest 0, hreplies hrest 1⟩

end AsioLearn
