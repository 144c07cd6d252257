import AsioLearn.WebSocket.Delivery
import AsioLearn.WebSocket.HandleRequest

/-!
# The chat server from its first connection on (`listener.cc`, `http_session.cc`)

The `listener` accepts connections, each of which an `http_session` reads until it ends or asks for
an upgrade; then its socket is released to a `websocket_session`, and the rest is the `Chat`. A step
is a handler of the listener or of an `http_session`, or a step of the chat.

* Connections are numbered as they are accepted; `sockets` lists the connection whose socket each
  `websocket_session` has.
* An `async_read` gives what the parser made of the connection (`Parsed`). `is_upgrade` is beast's,
  so the answer comes with the request. A request is answered from the files as they are then.
* `answered` and `written` record the responses handed to `async_write` and those it has completed.

Results:
* `run_chat`: the chat of the server is a run of `Chat`, so what holds of every run of the one holds
  in the other;
* `answers_in_order`: the requests of a connection are answered each once and in order, one at a
  time, until a response closes the connection, an operation fails or the socket is handed over;
* `sockets_owned_once`: every accepted socket has one owner.
-/

namespace AsioLearn.WebSocket

open Lib Lib.Lts

/-- What `http::async_read` ends with. -/
inductive Parsed where
  | endOfStream
  | error
  | request (req : Request) (isUpgrade : Bool)

/-- The operation of an `http_session` that is pending. -/
inductive Pending where
  | none
  | read
  /-- The write of `msg`; its handler has captured `keepAlive`. -/
  | write (msg : Response) (keepAlive : Bool)
  deriving DecidableEq, Repr

/-- `http_session`, and the record of its run. -/
structure HttpSession where
  pending : Pending
  shutdown : Bool
  released : Bool
  answered : List Response
  written : List Response
  deriving DecidableEq, Repr

/-- `run`, which is `do_read`. -/
def HttpSession.run : HttpSession := ⟨.read, false, false, [], []⟩

/-- `on_read`. -/
def HttpSession.onRead (version docRoot : List Char) (fs : FileSystem) (h : HttpSession) :
    Parsed → HttpSession
  | .endOfStream => { h with pending := .none, shutdown := true }
  | .error => { h with pending := .none }
  | .request req isUpgrade =>
    if isUpgrade then { h with pending := .none, released := true }
    else
      let msg := handleRequest version fs docRoot req
      { h with pending := .write msg msg.keepAlive, answered := h.answered ++ [msg] }

/-- `on_write`, of the write of `msg`. -/
def HttpSession.onWrite (h : HttpSession) (msg : Response) (keepAlive ec : Bool) : HttpSession :=
  if ec then { h with pending := .none }
  else
    let h := { h with written := h.written ++ [msg] }
    if keepAlive then { h with pending := .read } else { h with pending := .none, shutdown := true }

/-- The server. -/
structure Server where
  /-- The `async_accept` is pending. -/
  accepting : Bool
  conns : List HttpSession
  chat : Chat
  sockets : List Nat

/-- `main` up to `ioc.run()`. -/
def Server.init : Server := ⟨true, [], .init, []⟩

/-- What completes. -/
inductive ServerEvent where
  | onAccept (ec : Bool)
  /-- `on_read` of connection `k`, with the files as they are. -/
  | onRead (k : Nat) (parsed : Parsed) (fs : FileSystem)
  | onWrite (k : Nat) (ec : Bool)
  | chat (e : Event)

/-- `listener::on_accept`, which returns on an error. -/
def Server.onAccept (s : Server) (ec : Bool) : Option Server :=
  if s.accepting then
    if ec then some { s with accepting := false }
    else some { s with conns := s.conns ++ [HttpSession.run] }
  else none

/-- `http_session::on_read` of connection `k`. -/
def Server.onRead (version docRoot : List Char) (s : Server) (k : Nat) (parsed : Parsed)
    (fs : FileSystem) : Option Server :=
  s.conns[k]?.bind fun h =>
    if h.pending = .read then
      let s := { s with conns := s.conns.set k (h.onRead version docRoot fs parsed) }
      match parsed with
      | .request _ true => some { s with chat := s.chat.upgrade, sockets := s.sockets ++ [k] }
      | _ => some s
    else none

/-- `http_session::on_write` of connection `k`. -/
def Server.onWrite (s : Server) (k : Nat) (ec : Bool) : Option Server :=
  s.conns[k]?.bind fun h =>
    match h.pending with
    | .write msg keepAlive => some { s with conns := s.conns.set k (h.onWrite msg keepAlive ec) }
    | _ => none

/-- One step; sessions of the chat are made by `on_read` only. -/
def Server.step (version docRoot : List Char) (s : Server) : ServerEvent → Option Server
  | .onAccept ec => s.onAccept ec
  | .onRead k parsed fs => s.onRead version docRoot k parsed fs
  | .onWrite k ec => s.onWrite k ec
  | .chat e => if e = .upgrade then none else (s.chat.step e).map fun chat => { s with chat }

variable {version docRoot : List Char}

/-! ## What a step can do -/

/-- `Server.step` as a relation. -/
inductive ServerMoves (version docRoot : List Char) (s : Server) : ServerEvent → Server → Prop where
  | acceptFailed (ha : s.accepting = true) :
      ServerMoves version docRoot s (.onAccept true) { s with accepting := false }
  | accepted (ha : s.accepting = true) :
      ServerMoves version docRoot s (.onAccept false)
        { s with conns := s.conns ++ [HttpSession.run] }
  | onRead (k : Nat) (h : HttpSession) (parsed : Parsed) (fs : FileSystem)
      (hk : s.conns[k]? = some h) (hp : h.pending = .read)
      (hu : ∀ req, parsed ≠ .request req true) :
      ServerMoves version docRoot s (.onRead k parsed fs)
        { s with conns := s.conns.set k (h.onRead version docRoot fs parsed) }
  | upgrade (k : Nat) (h : HttpSession) (req : Request) (fs : FileSystem)
      (hk : s.conns[k]? = some h) (hp : h.pending = .read) :
      ServerMoves version docRoot s (.onRead k (.request req true) fs)
        { s with conns := s.conns.set k { h with pending := .none, released := true },
                 chat := s.chat.upgrade, sockets := s.sockets ++ [k] }
  | onWrite (k : Nat) (h : HttpSession) (msg : Response) (keepAlive ec : Bool)
      (hk : s.conns[k]? = some h) (hp : h.pending = .write msg keepAlive) :
      ServerMoves version docRoot s (.onWrite k ec)
        { s with conns := s.conns.set k (h.onWrite msg keepAlive ec) }
  | chat (e : Event) (chat : Chat) (he : e ≠ .upgrade) (hs : s.chat.step e = some chat) :
      ServerMoves version docRoot s (.chat e) { s with chat }

theorem server_moves {s s' : Server} {e : ServerEvent}
    (h : s.step version docRoot e = some s') : ServerMoves version docRoot s e s' := by
  cases e with
  | onAccept ec =>
    simp only [Server.step, Server.onAccept] at h
    split_ifs at h with ha hec
    · obtain rfl := Option.some.inj h
      subst hec
      exact .acceptFailed ha
    · obtain rfl := Option.some.inj h
      obtain rfl := Bool.eq_false_iff.mpr hec
      exact .accepted ha
  | onRead k parsed fs =>
    obtain ⟨conn, hk, h⟩ := Option.bind_eq_some_iff.mp h
    dsimp only at h
    split_ifs at h with hp
    split at h
    · next req _ =>
      obtain rfl := Option.some.inj h
      exact .upgrade k conn req fs hk hp
    · next hu =>
      obtain rfl := Option.some.inj h
      exact .onRead k conn parsed fs hk hp hu
  | onWrite k ec =>
    obtain ⟨conn, hk, h⟩ := Option.bind_eq_some_iff.mp h
    split at h
    · next msg keepAlive hp =>
      obtain rfl := Option.some.inj h
      exact .onWrite k conn msg keepAlive ec hk hp
    · cases h
  | chat e =>
    simp only [Server.step] at h
    split_ifs at h with he
    obtain ⟨chat, hs, rfl⟩ := Option.map_eq_some_iff.mp h
    exact .chat e chat he hs

/-! ## The chat of the server -/

/-- The steps of the chat in a run of the server. -/
def ServerEvent.chatEvent : ServerEvent → Option Event
  | .onRead _ (.request _ true) _ => some .upgrade
  | .chat e => some e
  | _ => none

theorem step_chat {s s' : Server} {e : ServerEvent} (h : ServerMoves version docRoot s e s') :
    run Chat.step s.chat e.chatEvent.toList = some s'.chat := by
  cases h with
  | upgrade k conn req fs hk hp => rfl
  | chat e chat he hs =>
    show run Chat.step s.chat [e] = some chat
    rw [run_cons, hs]
    rfl
  | onRead k conn parsed fs hk hp hu =>
    cases parsed with
    | request req isUpgrade =>
      cases isUpgrade with
      | true => exact absurd rfl (hu req)
      | false => rfl
    | _ => rfl
  | _ => rfl

/-- **The chat of the server is a chat.** -/
theorem run_chat {s₀ s : Server} {es : List ServerEvent}
    (h : run (Server.step version docRoot) s₀ es = some s) :
    run Chat.step s₀.chat (es.filterMap ServerEvent.chatEvent) = some s.chat := by
  induction es generalizing s₀ with
  | nil =>
    obtain rfl := Option.some.inj h
    rfl
  | cons e es ih =>
    obtain ⟨s₁, h1, h2⟩ := run_cons_eq_some.mp h
    have hstep := step_chat (server_moves h1)
    rw [List.filterMap_cons]
    cases he : e.chatEvent with
    | none =>
      rw [he] at hstep
      rw [Option.some.inj hstep]
      exact ih h2
    | some ce =>
      rw [he] at hstep
      have hall := ih h2
      show run Chat.step s₀.chat ([ce] ++ _) = some s.chat
      rw [run_append, show run Chat.step s₀.chat [ce] = some s₁.chat from hstep]
      exact hall

/-! ## The responses of a connection -/

/-- One response at a time: all but the last keep the connection alive, and the last one has been
written unless its write is pending or has failed. -/
structure Orderly (h : HttpSession) : Prop where
  one : h.answered = h.written ∨ ∃ msg, h.answered = h.written ++ [msg]
  alive : ∀ m ∈ h.answered.dropLast, m.keepAlive = true
  reading : h.pending = .read → h.answered = h.written ∧ h.shutdown = false ∧ h.released = false ∧
    ∀ m ∈ h.written, m.keepAlive = true
  writing : ∀ msg keepAlive, h.pending = .write msg keepAlive →
    h.answered = h.written ++ [msg] ∧ keepAlive = msg.keepAlive ∧ h.shutdown = false ∧
      h.released = false ∧ ∀ m ∈ h.written, m.keepAlive = true
  closed : ∀ m ∈ h.written, m.keepAlive = false → h.shutdown = true ∧ h.pending = .none
  released : h.released = true → h.answered = h.written ∧ h.shutdown = false ∧ h.pending = .none

theorem orderly_run : Orderly HttpSession.run where
  one := Or.inl rfl
  alive m hm := by cases hm
  reading _ := ⟨rfl, rfl, rfl, fun m hm => by cases hm⟩
  writing msg keepAlive h := by cases h
  closed m hm := by cases hm
  released h := by cases h

/-- A read that ends the reading. -/
theorem Orderly.ended {h : HttpSession} (ho : Orderly h) (hp : h.pending = .read)
    {shutdown released : Bool} (hsr : released = true → shutdown = false) :
    Orderly { h with pending := .none, shutdown, released } := by
  obtain ⟨hw, hs, hr, halive⟩ := ho.reading hp
  refine ⟨Or.inl hw, ho.alive, nofun, nofun, fun m hm hk => ?_, fun hrel => ⟨hw, hsr hrel, rfl⟩⟩
  rw [halive m hm] at hk
  cases hk

theorem Orderly.onRead {h : HttpSession} (ho : Orderly h) (hp : h.pending = .read)
    (fs : FileSystem) (parsed : Parsed) : Orderly (h.onRead version docRoot fs parsed) := by
  obtain ⟨hw, hs, hr, halive⟩ := ho.reading hp
  cases parsed with
  | endOfStream => exact ho.ended hp fun hrel => by rw [hr] at hrel; cases hrel
  | error => exact ho.ended hp fun _ => hs
  | request req isUpgrade =>
    cases isUpgrade with
    | true => exact ho.ended hp fun _ => hs
    | false =>
      have hanswered : h.answered ++ [handleRequest version fs docRoot req] =
        h.written ++ [handleRequest version fs docRoot req] := by rw [hw]
      refine ⟨Or.inr ⟨_, hanswered⟩, ?_, nofun, ?_, fun m hm hk => ?_, fun hrel => ?_⟩
      · intro m hm
        have hlast : m ∈ (h.answered ++ [handleRequest version fs docRoot req]).dropLast := hm
        rw [List.dropLast_concat, hw] at hlast
        exact halive m hlast
      · intro msg keepAlive heq
        obtain ⟨rfl, rfl⟩ := Pending.write.inj heq
        exact ⟨hanswered, rfl, hs, hr, halive⟩
      · rw [halive m hm] at hk
        cases hk
      · rw [show h.released = true from hrel] at hr
        cases hr

theorem Orderly.onWrite {h : HttpSession} (ho : Orderly h) {msg : Response} {keepAlive : Bool}
    (hp : h.pending = .write msg keepAlive) (ec : Bool) :
    Orderly (h.onWrite msg keepAlive ec) := by
  obtain ⟨hw, hka, hs, hr, halive⟩ := ho.writing msg keepAlive hp
  have hrel : h.released ≠ true := fun hrel => by
    rw [hr] at hrel
    cases hrel
  have hall : ∀ m ∈ h.written ++ [msg], m.keepAlive = false → keepAlive = false := by
    intro m hm hk
    rcases List.mem_append.mp hm with hm | hm
    · rw [halive m hm] at hk
      cases hk
    · rw [hka, ← hk, List.mem_singleton.mp hm]
  unfold HttpSession.onWrite
  cases ec with
  | true =>
    refine ⟨ho.one, ho.alive, nofun, nofun, fun m hm hk => ?_, fun h => absurd h hrel⟩
    rw [halive m hm] at hk
    cases hk
  | false =>
    cases keepAlive with
    | true =>
      refine ⟨Or.inl hw, ho.alive, fun _ => ⟨hw, hs, hr, fun m hm => ?_⟩, nofun, fun m hm hk => ?_,
        fun h => absurd h hrel⟩
      · by_contra hk
        cases hall m hm (Bool.eq_false_iff.mpr hk)
      · cases hall m hm hk
    | false =>
      exact ⟨Or.inl hw, ho.alive, nofun, nofun, fun m _ _ => ⟨rfl, rfl⟩, fun h => absurd h hrel⟩

/-- The answers to the requests read from connection `k`. -/
def answersTo (version docRoot : List Char) (k : Nat) (es : List ServerEvent) : List Response :=
  es.filterMap fun
    | .onRead j (.request req false) fs =>
      if j = k then some (handleRequest version fs docRoot req) else none
    | _ => none

/-- The responses of connection `k`, if there is one. -/
def responses (conns : List HttpSession) (k : Nat) : List Response :=
  (conns[k]?.map HttpSession.answered).getD []

/-- A handler of connection `j`. -/
theorem responses_set {conns : List HttpSession} {j : Nat} {h h' : HttpSession}
    {ms : List Response} (hj : conns[j]? = some h) (ha : h'.answered = h.answered ++ ms) (k : Nat) :
    responses (conns.set j h') k = responses conns k ++ if j = k then ms else [] := by
  unfold responses
  rw [List.getElem?_set]
  obtain ⟨hlt, -⟩ := List.getElem?_eq_some_iff.mp hj
  by_cases hk : j = k
  · subst hk
    rw [if_pos rfl, if_pos hlt, if_pos rfl, hj]
    exact ha
  · rw [if_neg hk, if_neg hk, List.append_nil]

theorem responses_append (conns : List HttpSession) (k : Nat) :
    responses (conns ++ [HttpSession.run]) k = responses conns k := by
  unfold responses
  rw [List.getElem?_append]
  split_ifs with hk
  · rfl
  · rw [List.getElem?_eq_none (Nat.le_of_not_lt hk)]
    cases hc : [HttpSession.run][k - conns.length]? with
    | none => rfl
    | some c =>
      obtain rfl := List.mem_singleton.mp (List.mem_of_getElem? hc)
      rfl

theorem step_responses {s s' : Server} {e : ServerEvent} (h : ServerMoves version docRoot s e s')
    (k : Nat) :
    responses s'.conns k = responses s.conns k ++ answersTo version docRoot k [e] := by
  have same : ∀ {j : Nat} {h h' : HttpSession}, s.conns[j]? = some h → h'.answered = h.answered →
      responses (s.conns.set j h') k = responses s.conns k ++ [] := fun hj ha => by
    rw [responses_set hj (ha.trans (List.append_nil _).symm), ite_self]
  cases h with
  | acceptFailed _ | chat _ _ _ _ => exact (List.append_nil _).symm
  | accepted ha => exact (responses_append s.conns k).trans (List.append_nil _).symm
  | upgrade j h req fs hj hp => exact same hj rfl
  | onWrite j h msg keepAlive ec hj hp =>
    refine same hj ?_
    unfold HttpSession.onWrite
    dsimp only
    split_ifs <;> rfl
  | onRead j h parsed fs hj hp hu =>
    cases parsed with
    | endOfStream | error => exact same hj rfl
    | request req isUpgrade =>
      cases isUpgrade with
      | true => exact absurd rfl (hu req)
      | false =>
        refine (responses_set hj rfl k).trans ?_
        unfold answersTo
        by_cases hk : j = k <;> simp [hk]

/-! ## Every run -/

/-- What holds of the connections in every run. -/
structure Served (s : Server) : Prop where
  orderly : ∀ h ∈ s.conns, Orderly h
  nodup : s.sockets.Nodup
  length : s.sockets.length = s.chat.count
  owned : ∀ k, k ∈ s.sockets ↔ ∃ h, s.conns[k]? = some h ∧ h.released = true

theorem served_init : Served Server.init where
  orderly h hh := by cases hh
  nodup := List.nodup_nil
  length := rfl
  owned k := by simp [Server.init]

/-- A new connection has its socket. -/
theorem released_append (conns : List HttpSession) (k : Nat) :
    (∃ h, (conns ++ [HttpSession.run])[k]? = some h ∧ h.released = true) ↔
      ∃ h, conns[k]? = some h ∧ h.released = true := by
  refine exists_congr fun h => and_congr_left fun hr => ?_
  rw [List.getElem?_append]
  split_ifs with hk
  · rfl
  · constructor
    · intro hc
      obtain rfl := List.mem_singleton.mp (List.mem_of_getElem? hc)
      cases hr
    · intro hc
      exact absurd (List.getElem?_eq_some_iff.mp hc).1 hk

theorem released_set {conns : List HttpSession} {j : Nat} {h : HttpSession}
    (hj : conns[j]? = some h) (h' : HttpSession) (k : Nat) :
    (∃ c, (conns.set j h')[k]? = some c ∧ c.released = true) ↔
      if j = k then h'.released = true else ∃ c, conns[k]? = some c ∧ c.released = true := by
  rw [List.getElem?_set]
  by_cases hk : j = k
  · subst hk
    obtain ⟨hlt, -⟩ := List.getElem?_eq_some_iff.mp hj
    rw [if_pos rfl, if_pos hlt, if_pos rfl]
    simp
  · rw [if_neg hk, if_neg hk]

/-- A handler that keeps the socket. -/
theorem Served.set {s : Server} (hs : Served s) {j : Nat} {h h' : HttpSession}
    (hj : s.conns[j]? = some h) (ho : Orderly h') (hr : h'.released = h.released) :
    Served { s with conns := s.conns.set j h' } where
  orderly c hc := by
    rcases List.mem_or_eq_of_mem_set hc with hc | rfl
    · exact hs.orderly c hc
    · exact ho
  nodup := hs.nodup
  length := hs.length
  owned k := by
    rw [hs.owned, released_set hj]
    by_cases hk : j = k
    · subst hk
      rw [if_pos rfl, hj, hr]
      simp
    · rw [if_neg hk]

theorem Moves.count_of_ne {c c' : Chat} {e : Event} (h : Moves c e c') (he : e ≠ .upgrade) :
    c'.count = c.count := by
  rw [h.count, if_neg he]

theorem step_served {s s' : Server} {e : ServerEvent} (hs : Served s)
    (h : ServerMoves version docRoot s e s') : Served s' := by
  cases h with
  | acceptFailed ha => exact ⟨hs.orderly, hs.nodup, hs.length, hs.owned⟩
  | accepted ha =>
    refine ⟨fun c hc => ?_, hs.nodup, hs.length, fun k => ?_⟩
    · rcases List.mem_append.mp hc with hc | hc
      · exact hs.orderly c hc
      · rw [List.mem_singleton.mp hc]
        exact orderly_run
    · exact (hs.owned k).trans (released_append s.conns k).symm
  | onRead j h parsed fs hj hp hu =>
    refine hs.set hj ((hs.orderly h (List.mem_of_getElem? hj)).onRead hp fs parsed) ?_
    cases parsed with
    | endOfStream | error => rfl
    | request req isUpgrade =>
      cases isUpgrade with
      | true => exact absurd rfl (hu req)
      | false => rfl
  | upgrade j h req fs hj hp =>
    have ho := hs.orderly h (List.mem_of_getElem? hj)
    have hnew : j ∉ s.sockets := fun hmem => by
      obtain ⟨c, hc, hr⟩ := (hs.owned j).mp hmem
      obtain rfl := Option.some.inj (hj.symm.trans hc)
      rw [(ho.reading hp).2.2.1] at hr
      cases hr
    refine ⟨fun c hc => ?_, ?_, ?_, fun k => ?_⟩
    · rcases List.mem_or_eq_of_mem_set hc with hc | rfl
      · exact hs.orderly c hc
      · exact ho.ended hp fun _ => (ho.reading hp).2.1
    · refine hs.nodup.append (List.nodup_singleton j) fun k hk hkj => hnew ?_
      rwa [← List.mem_singleton.mp hkj]
    · show (s.sockets ++ [j]).length = s.chat.count + 1
      rw [List.length_append, hs.length, List.length_singleton]
    · show k ∈ s.sockets ++ [j] ↔ _
      rw [released_set hj, List.mem_append, List.mem_singleton, hs.owned]
      by_cases hk : j = k
      · rw [if_pos hk]
        exact iff_of_true (Or.inr hk.symm) rfl
      · rw [if_neg hk]
        exact or_iff_left fun h => hk h.symm
  | onWrite j h msg keepAlive ec hj hp =>
    refine hs.set hj ((hs.orderly h (List.mem_of_getElem? hj)).onWrite hp ec) ?_
    unfold HttpSession.onWrite
    dsimp only
    split_ifs <;> rfl
  | chat e chat he hstep =>
    exact ⟨hs.orderly, hs.nodup, hs.length.trans ((step_moves hstep).count_of_ne he).symm, hs.owned⟩

theorem run_served {s : Server} {es : List ServerEvent}
    (h : run (Server.step version docRoot) .init es = some s) : Served s :=
  run_invariant (fun _ _ _ hI hstep => step_served hI (server_moves hstep)) served_init h

theorem run_responses {s₀ s : Server} {es : List ServerEvent}
    (h : run (Server.step version docRoot) s₀ es = some s) (k : Nat) :
    responses s.conns k = responses s₀.conns k ++ answersTo version docRoot k es := by
  induction es generalizing s₀ with
  | nil =>
    obtain rfl := Option.some.inj h
    exact (List.append_nil _).symm
  | cons e es ih =>
    obtain ⟨s₁, h1, h2⟩ := run_cons_eq_some.mp h
    have happ : answersTo version docRoot k (e :: es) =
        answersTo version docRoot k [e] ++ answersTo version docRoot k es :=
      List.filterMap_append (l := [e])
    rw [ih h2, step_responses (server_moves h1), List.append_assoc, happ]

/-- **The answers on a connection.** What is handed to `async_write` are the answers to the requests
read from the connection, in order; all of them have been written but the last, whose write may be
pending or have failed; each but the last keeps the connection alive, and when one that does not has
been written the sending side is shut down and nothing is pending. -/
theorem answers_in_order {s : Server} {es : List ServerEvent}
    (h : run (Server.step version docRoot) .init es = some s) {k : Nat} {conn : HttpSession}
    (hk : s.conns[k]? = some conn) :
    conn.answered = answersTo version docRoot k es ∧
      (conn.answered = conn.written ∨
        conn.pending ≠ .read ∧ ∃ msg, conn.answered = conn.written ++ [msg]) ∧
      (∀ m ∈ conn.answered.dropLast, m.keepAlive = true) ∧
      ∀ m ∈ conn.written, m.keepAlive = false → conn.shutdown = true ∧ conn.pending = .none := by
  have ho := (run_served h).orderly conn (List.mem_of_getElem? hk)
  have hall := run_responses h k
  unfold responses at hall
  rw [hk] at hall
  refine ⟨hall, ?_, ho.alive, ho.closed⟩
  rcases ho.one with heq | hmsg
  · exact Or.inl heq
  · by_cases hp : conn.pending = .read
    · exact Or.inl (ho.reading hp).1
    · exact Or.inr ⟨hp, hmsg⟩

/-- One request, answered and closed. -/
theorem answers_in_order_one : ∃ (s : Server) (conn : HttpSession),
    run (Server.step [] ['.']) .init
      [.onAccept false, .onRead 0 (.request ⟨.get, ['/'], 11, false⟩ false) fun _ => .noSuchFile,
        .onWrite 0 false] = some s ∧ s.conns[0]? = some conn ∧
    conn.answered = answersTo [] ['.'] 0
      [.onAccept false, .onRead 0 (.request ⟨.get, ['/'], 11, false⟩ false) fun _ => .noSuchFile,
        .onWrite 0 false] ∧
      (conn.answered = conn.written ∨
        conn.pending ≠ .read ∧ ∃ msg, conn.answered = conn.written ++ [msg]) ∧
      (∀ m ∈ conn.answered.dropLast, m.keepAlive = true) ∧
      ∀ m ∈ conn.written, m.keepAlive = false → conn.shutdown = true ∧ conn.pending = .none :=
  ⟨_, _, rfl, rfl, @answers_in_order [] ['.'] _
    [.onAccept false, .onRead 0 (.request ⟨.get, ['/'], 11, false⟩ false) fun _ => .noSuchFile,
      .onWrite 0 false] rfl 0 _ rfl⟩

/-- **Every socket has one owner.** The steps of the chat are a run of the chat alone, in which one
session is made for each connection that asks for an upgrade; its socket is the session's, the
`http_session` has sent all its answers and has nothing pending. -/
theorem sockets_owned_once {s : Server} {es : List ServerEvent}
    (h : run (Server.step version docRoot) .init es = some s) :
    run Chat.step .init (es.filterMap ServerEvent.chatEvent) = some s.chat ∧
      s.sockets.Nodup ∧ s.sockets.length = s.chat.count ∧
      (∀ k, k ∈ s.sockets ↔ ∃ conn, s.conns[k]? = some conn ∧ conn.released = true) ∧
      ∀ conn ∈ s.conns, conn.released = true →
        conn.answered = conn.written ∧ conn.shutdown = false ∧ conn.pending = .none := by
  have hs := run_served h
  exact ⟨run_chat h, hs.nodup, hs.length, hs.owned, fun conn hc => (hs.orderly conn hc).released⟩

/-- Two connections, the second of which is upgraded and joins the chat. -/
theorem sockets_owned_once_two : ∃ s : Server,
    run (Server.step [] ['.']) .init
      [.onAccept false, .onAccept false,
        .onRead 1 (.request ⟨.get, ['/'], 11, true⟩ true) fun _ => .noSuchFile,
        .chat (.onAccept 0 false)] = some s ∧
    run Chat.step .init ([.onAccept false, .onAccept false,
        .onRead 1 (.request ⟨.get, ['/'], 11, true⟩ true) fun _ => .noSuchFile,
        .chat (.onAccept 0 false)].filterMap ServerEvent.chatEvent) = some s.chat ∧
      s.sockets.Nodup ∧ s.sockets.length = s.chat.count ∧
      (∀ k, k ∈ s.sockets ↔ ∃ conn, s.conns[k]? = some conn ∧ conn.released = true) ∧
      ∀ conn ∈ s.conns, conn.released = true →
        conn.answered = conn.written ∧ conn.shutdown = false ∧ conn.pending = .none :=
  ⟨_, rfl, @sockets_owned_once [] ['.'] _ [.onAccept false, .onAccept false,
    .onRead 1 (.request ⟨.get, ['/'], 11, true⟩ true) fun _ => .noSuchFile,
    .chat (.onAccept 0 false)] rfl⟩

end AsioLearn.WebSocket
