import AsioLearn.WebSocket.Lifetime

/-!
# Who gets which message (`shared_state::send`, `websocket_session::send`)

A message that `on_read` of a session takes from its client is due at every session registered at
that moment. Each of these gets it from the loop of `shared_state::send`, by way of its strand and
its queue, on its own time.

* `sent a t` is what `on_read` of `a` has posted to `t`, `sentTo t` what anyone has.
* `due a t` adds the message of the broadcast of `a` that is under way, if `t` is still to get it.

Results:
* `Moves.due`: what a step does to `due a t` and to the messages read from `a`;
* `written_in_order`: the frames of a session are those posted to it, in that order, none lost or
  repeated, with one write at a time; only a failed write loses any, in the queue of a session that
  is destroyed;
* `sent_sublist`: no session gets a message of another twice, or out of order;
* `members_get_all`: a session that has joined and is alive gets every message.
-/

namespace AsioLearn.WebSocket

open Lib Lib.Lts

/-- The messages of `a` posted to `t`. -/
def Chat.sent (c : Chat) (a t : Nat) : List Message :=
  (c.posts.filter fun p => p.sender = a ∧ p.target = t).map Post.ss

/-- The messages posted to `t`. -/
def Chat.sentTo (c : Chat) (t : Nat) : List Message :=
  (c.posts.filter fun p => p.target = t).map Post.ss

/-- The message `t` is to get from the broadcast under way. -/
def Reading.pending (t : Nat) : Reading → List Message
  | .sending ⟨ss, .before u, v⟩ => if t ∈ u :: v then [ss] else []
  | .sending ⟨ss, _, v⟩ => if t ∈ v then [ss] else []
  | _ => []

/-- The messages of `a` posted to `t` or about to be. -/
def Chat.due (c : Chat) (a t : Nat) : List Message :=
  c.sent a t ++ (c.session a).reading.pending t

/-! ## From the strand to the wire -/

/-- What has been posted to `t` is written, queued or waiting for the strand. -/
structure Flowing (c : Chat) (t : Nat) : Prop where
  sending : Sending (c.session t)
  flow : (c.session t).written ++ (c.session t).queue ++ c.posted t = c.sentTo t

theorem flowing_init (t : Nat) : Flowing Chat.init t := ⟨sending_made, rfl⟩

theorem sentTo_send (c : Chat) (s u t : Nat) (ss : Message) :
    (c.send s u ss).sentTo t = c.sentTo t ++ if u = t then [ss] else [] := by
  unfold Chat.sentTo Chat.send
  rw [List.filter_append, List.map_append]
  by_cases h : u = t <;> simp [h]

/-- A step on the reading side. -/
theorem Flowing.set {c : Chat} {s t : Nat} {w : WebsocketSession} (hc : Flowing c t)
    (hq : w.queue = (c.session s).queue) (hm : w.writing = (c.session s).writing)
    (hwr : w.written = (c.session s).written) (hb : w.broken = (c.session s).broken) :
    Flowing (c.set s w) t := by
  by_cases ht : t = s
  · subst ht
    refine ⟨?_, ?_⟩
    · rw [set_self]
      exact hc.sending.of_eq hq hm hwr hb
    · rw [set_self, hwr, hq]
      exact hc.flow
  · refine ⟨?_, ?_⟩
    · rw [set_of_ne c w ht]
      exact hc.sending
    · rw [set_of_ne c w ht]
      exact hc.flow

theorem Flowing.send {c : Chat} {t : Nat} (hc : Flowing c t) (s u : Nat) (ss : Message) :
    Flowing (c.send s u ss) t := by
  refine ⟨hc.sending, ?_⟩
  rw [sentTo_send, send_session]
  by_cases hu : u = t
  · subst hu
    rw [send_posted_self, if_pos rfl, ← List.append_assoc, hc.flow]
  · rw [send_posted_of_ne c s ss (Ne.symm hu), if_neg hu, List.append_nil]
    exact hc.flow

theorem Flowing.onSend {c : Chat} {t : Nat} (hc : Flowing c t) {s : Nat} {ss : Message}
    {rest : List Message} (hp : c.posted s = ss :: rest) :
    Flowing ({ c with posted := Function.update c.posted s rest }.set s
      ((c.session s).onSend ss)) t := by
  by_cases ht : t = s
  · subst ht
    refine ⟨?_, ?_⟩
    · rw [set_self]
      exact (onSend_refines hc.sending ss).2
    · have hflow := hc.flow
      rw [hp] at hflow
      rw [set_self, onSend_written, onSend_queue]
      show _ ++ Function.update c.posted t rest t = c.sentTo t
      rw [Function.update_self, ← hflow]
      simp
  · refine ⟨?_, ?_⟩
    · rw [set_of_ne _ _ ht]
      exact hc.sending
    · rw [set_of_ne _ _ ht]
      show _ ++ Function.update c.posted s rest t = c.sentTo t
      rw [Function.update_of_ne ht]
      exact hc.flow

theorem Flowing.onWrite {c : Chat} {t : Nat} (hc : Flowing c t) {s : Nat} {front : Message}
    (hw : (c.session s).writing = some front) (ec : Bool) :
    Flowing (c.set s ((c.session s).onWrite front ec)) t := by
  by_cases ht : t = s
  · subst ht
    refine ⟨?_, ?_⟩
    · rw [set_self]
      exact (onWrite_refines hc.sending hw ec).2
    · obtain ⟨rest, hq⟩ := hc.sending.queue_of_writing hw
      have hflow := hc.flow
      rw [set_self]
      show _ ++ c.posted t = c.sentTo t
      rw [← hflow, hq]
      unfold WebsocketSession.onWrite
      cases ec <;> simp [hq]
  · refine ⟨?_, ?_⟩
    · rw [set_of_ne _ _ ht]
      exact hc.sending
    · rw [set_of_ne _ _ ht]
      exact hc.flow

theorem step_flowing {c c' : Chat} {e : Event} (hc : Lifetime c) (h : Moves c e c') {t : Nat}
    (ht : Flowing c t) : Flowing c' t := by
  cases h with
  | upgrade =>
    have hs := (hc.fresh c.count (Nat.le_refl _)).1
    have hset := ht.set (w := WebsocketSession.made.run) (s := c.count) (by rw [hs]; rfl)
      (by rw [hs]; rfl) (by rw [hs]; rfl) (by rw [hs]; rfl)
    exact ⟨hset.sending, hset.flow⟩
  | accepted s hr =>
    have hjoin : Flowing (c.join s) t := ⟨ht.sending, ht.flow⟩
    exact hjoin.set rfl rfl rfl rfl
  | send s u ss v hr => exact (ht.send s u ss).set rfl rfl rfl rfl
  | onSend s ss rest hp hf => exact ht.onSend hp
  | onWrite s ec front hw hf => exact ht.onWrite hw ec
  | destroy s _ _ _ => exact ⟨ht.sending, ht.flow⟩
  | _ => exact ht.set rfl rfl rfl rfl

/-! ## From the sender to the strand -/

theorem sent_send (c : Chat) (s u a t : Nat) (ss : Message) :
    (c.send s u ss).sent a t = c.sent a t ++ if s = a ∧ u = t then [ss] else [] := by
  unfold Chat.sent Chat.send
  rw [List.filter_append, List.map_append]
  by_cases h : s = a ∧ u = t <;> simp [h]

/-- A step of `s`, on the broadcast of which nothing changes for `a` and `t`. -/
theorem due_set {c : Chat} {s a t : Nat} {w : WebsocketSession}
    (h : s = a → w.reading.pending t = (c.session s).reading.pending t) :
    (c.set s w).due a t = c.due a t := by
  unfold Chat.due
  congr 1
  by_cases ha : a = s
  · subst ha
    rw [set_self, h rfl]
  · rw [set_of_ne c w ha]

theorem received_set {c : Chat} {s a : Nat} {w : WebsocketSession}
    (h : w.received = (c.session s).received) :
    ((c.set s w).session a).received = (c.session a).received := by
  by_cases ha : a = s
  · subst ha
    rw [set_self, h]
  · rw [set_of_ne c w ha]

theorem due_setReading {c : Chat} {s a t : Nat} {r : Reading}
    (h : r.pending t = (c.session s).reading.pending t) :
    (c.setReading s r).due a t = c.due a t ∧
      ((c.setReading s r).session a).received = (c.session a).received :=
  ⟨due_set fun _ => h, received_set rfl⟩

/-- `sp->send(ss)` posts the message that was pending. -/
theorem due_send {c : Chat} {s u : Nat} {ss : Message} {v : List Nat} (hc : Lifetime c)
    (hr : (c.session s).reading = .sending ⟨ss, .before u, v⟩) (a t : Nat) :
    ((c.send s u ss).setReading s (.sending ⟨ss, .after u, v⟩)).due a t = c.due a t := by
  have hu : u ∉ v := by
    have hnodup := (hc.visits s).1
    rw [hr] at hnodup
    exact (List.nodup_cons.mp hnodup).1
  show (c.send s u ss).sent a t ++ _ = c.sent a t ++ _
  rw [sent_send]
  by_cases ha : a = s
  · subst ha
    rw [setReading_self, hr]
    by_cases ht : t = u
    · subst ht
      simp [Reading.pending, hu]
    · simp [Reading.pending, ht, Ne.symm ht]
  · rw [setReading_of_ne _ _ ha, send_session, if_neg fun h => ha h.1.symm, List.append_nil]

/-- `on_read` starts a broadcast to the registered sessions. -/
theorem due_onRead {c : Chat} {s : Nat} {v : List Nat} (message : Message)
    (hr : (c.session s).reading = .reading) (hv : v.Perm c.sessions) (a t : Nat) :
    ∃ ms : List Message,
      ((c.set s ((c.session s).onRead message v)).session a).received =
        (c.session a).received ++ ms ∧
      (c.set s ((c.session s).onRead message v)).due a t =
        c.due a t ++ if t ∈ c.sessions then ms else [] := by
  by_cases ha : a = s
  · subst ha
    refine ⟨[(c.session a).buffer ++ message], by rw [set_self]; rfl, ?_⟩
    unfold Chat.due
    rw [set_self, hr]
    simp [WebsocketSession.onRead, Reading.pending, hv.mem_iff, Chat.sent, Chat.set]
  · refine ⟨[], by rw [set_of_ne c _ ha, List.append_nil], ?_⟩
    rw [due_set fun h => absurd h.symm ha, ite_self, List.append_nil]

/-- What a step does to the messages due at `t` and to those read from `a`: nothing, or both get
new ones if `t` is registered, or the broadcast of `a` gives up on `t`, which has no owner. -/
theorem Moves.due {c c' : Chat} {e : Event} (hc : Lifetime c) (h : Moves c e c') (a t : Nat) :
    (∃ ms, (c'.session a).received = (c.session a).received ++ ms ∧
      c'.due a t = c.due a t ++ if t ∈ c.sessions then ms else []) ∨
    ((c'.session a).received = (c.session a).received ∧ (c'.due a t).Sublist (c.due a t) ∧
      c.useCount t = 0) := by
  have same : c'.due a t = c.due a t → (c'.session a).received = (c.session a).received →
      ∃ ms, (c'.session a).received = (c.session a).received ++ ms ∧
        c'.due a t = c.due a t ++ if t ∈ c.sessions then ms else [] := fun hd hr =>
    ⟨[], by rw [hr, List.append_nil], by rw [hd, ite_self, List.append_nil]⟩
  cases h with
  | upgrade =>
    have hs := (hc.fresh c.count (Nat.le_refl _)).1
    refine Or.inl (same ?_ ?_)
    · exact due_set (c := c) fun _ => by rw [hs]; rfl
    · exact received_set (c := c) (by rw [hs]; rfl)
  | refused s hr | readFailed s hr =>
    have h := due_setReading (c := c) (s := s) (a := a) (t := t) (r := .idle) (by rw [hr]; rfl)
    exact Or.inl (same h.1 h.2)
  | accepted s hr =>
    have h := due_setReading (c := c.join s) (s := s) (a := a) (t := t) (r := .reading)
      (by rw [show ((c.join s).session s).reading = .accepting from hr]; rfl)
    exact Or.inl (same h.1 h.2)
  | onRead s message v hr hv => exact Or.inl (due_onRead message hr hv a t)
  | locked s u ss v hr hu =>
    have h := due_setReading (c := c) (s := s) (a := a) (t := t) (r := .sending ⟨ss, .before u, v⟩)
      (by rw [hr]; rfl)
    exact Or.inl (same h.1 h.2)
  | skipped s u ss v hr hu =>
    by_cases ht : t = u
    · subst ht
      refine Or.inr ⟨received_set rfl, ?_, hu⟩
      show (c.sent a t ++ _).Sublist (c.sent a t ++ _)
      refine List.Sublist.append_left ?_ _
      by_cases ha : a = s
      · subst ha
        rw [setReading_self, hr]
        show (if t ∈ v then [ss] else []).Sublist (if t ∈ t :: v then [ss] else [])
        rw [if_pos List.mem_cons_self]
        split_ifs
        · exact List.Sublist.refl _
        · exact List.nil_sublist _
      · rw [setReading_of_ne c _ ha]
    · have h := due_setReading (c := c) (s := s) (a := a) (t := t) (r := .sending ⟨ss, .none, v⟩)
        (by rw [hr]; simp [Reading.pending, ht])
      exact Or.inl (same h.1 h.2)
  | send s u ss v hr =>
    exact Or.inl (same (due_send hc hr a t) (received_set (c := c.send s u ss) rfl))
  | release s u ss v hr =>
    have h := due_setReading (c := c) (s := s) (a := a) (t := t) (r := .sending ⟨ss, .none, v⟩)
      (by rw [hr]; rfl)
    exact Or.inl (same h.1 h.2)
  | readNext s ss hr =>
    refine Or.inl (same (due_set fun _ => ?_) (received_set rfl))
    rw [hr]
    rfl
  | onSend s ss rest hp hf =>
    refine Or.inl (same ?_ (received_set (onSend_received _ ss)))
    exact due_set (c := { c with posted := Function.update c.posted s rest }) fun _ => by
      rw [onSend_reading]
  | onWrite s ec front hw hf =>
    refine Or.inl (same (due_set fun _ => by rw [onWrite_reading]) ?_)
    exact received_set (onWrite_received _ front ec)
  | destroy s _ _ _ => exact Or.inl (same rfl rfl)

/-! ## From the client to the sender -/

/-- The messages the client of `a` sends in a run. -/
def messagesFrom (a : Nat) (es : List Event) : List Message :=
  es.filterMap fun
    | .onRead s message _ => if s = a then some message else none
    | _ => none

/-- `buffer_` is empty when a read starts. -/
def Clean (w : WebsocketSession) : Prop := w.strandFree = true → w.buffer = []

theorem clean_set {c : Chat} {s a : Nat} {w : WebsocketSession} (hc : Clean (c.session a))
    (hw : Clean (c.session s) → Clean w) : Clean ((c.set s w).session a) := by
  by_cases ha : a = s
  · subst ha
    rw [set_self]
    exact hw hc
  · rw [set_of_ne c w ha]
    exact hc

theorem onSend_clean {w : WebsocketSession} (ss : Message) (hw : Clean w) :
    Clean (w.onSend ss) := by
  unfold WebsocketSession.onSend
  dsimp only
  split_ifs <;> exact hw

theorem onWrite_clean {w : WebsocketSession} (front : Message) (ec : Bool) (hw : Clean w) :
    Clean (w.onWrite front ec) := by
  unfold WebsocketSession.onWrite
  split_ifs <;> exact hw

theorem step_clean {c c' : Chat} {e : Event} (h : Moves c e c') {a : Nat}
    (hc : Clean (c.session a)) : Clean (c'.session a) := by
  cases h with
  | upgrade => exact clean_set (c := c) hc fun _ _ => rfl
  | refused s hr | accepted s hr | readFailed s hr =>
    refine clean_set (c := c) hc fun hs _ => hs ?_
    unfold WebsocketSession.strandFree
    rw [hr]
  | onRead s message v hr hv => exact clean_set hc fun _ hf => by cases hf
  | locked s u ss v hr _ | skipped s u ss v hr _ | send s u ss v hr | release s u ss v hr =>
    exact clean_set (c := c) hc fun _ hf => by cases hf
  | readNext s ss hr => exact clean_set hc fun _ _ => rfl
  | onSend s ss rest hp hf => exact clean_set (c := c) hc (onSend_clean ss)
  | onWrite s ec front hw hf => exact clean_set hc (onWrite_clean front ec)
  | destroy s _ _ _ => exact hc

/-- `on_read` hands on the message it was given, and nothing left over from before. -/
theorem step_received {c c' : Chat} {e : Event} (hl : Lifetime c) (h : Moves c e c') {a : Nat}
    (hc : Clean (c.session a)) :
    (c'.session a).received = (c.session a).received ++ messagesFrom a [e] := by
  cases h with
  | upgrade =>
    refine (received_set (c := c) ?_).trans (List.append_nil _).symm
    rw [(hl.fresh c.count (Nat.le_refl _)).1]
    rfl
  | onRead s message v hr hv =>
    by_cases ha : a = s
    · subst ha
      have hbuf : (c.session a).buffer = [] := hc (by unfold WebsocketSession.strandFree; rw [hr])
      rw [set_self]
      simp [messagesFrom, WebsocketSession.onRead, hbuf]
    · rw [set_of_ne c _ ha]
      simp [messagesFrom, Ne.symm ha]
  | onSend s ss rest hp hf =>
    exact (received_set (c := { c with posted := Function.update c.posted s rest })
      (onSend_received _ ss)).trans (List.append_nil _).symm
  | onWrite s ec front hw hf =>
    exact (received_set (onWrite_received _ front ec)).trans (List.append_nil _).symm
  | destroy s _ _ _ => exact (List.append_nil _).symm
  | _ =>
    rw [show messagesFrom a [_] = [] from rfl, List.append_nil]
    exact received_set (c := c) rfl

/-! ## Every run -/

/-- What holds in every run. -/
structure Sound (c : Chat) : Prop where
  lifetime : Lifetime c
  clean : ∀ s, Clean (c.session s)
  flowing : ∀ t, Flowing c t
  due : ∀ a t, (c.due a t).Sublist (c.session a).received
  posts : ∀ p ∈ c.posts, c.joined p.target = true
  joins : ∀ t, (c.session t).reading = .accepting → c.joined t = false

theorem sound_init : Sound Chat.init where
  lifetime := lifetime_init
  clean _ _ := rfl
  flowing := flowing_init
  due _ _ := List.nil_sublist _
  posts _ h := by cases h
  joins _ _ := rfl

/-- Only sessions that have joined are sent to. -/
theorem Moves.posts {c c' : Chat} {e : Event} (hc : Lifetime c) (h : Moves c e c')
    (hp : ∀ p ∈ c.posts, c.joined p.target = true) : ∀ p ∈ c'.posts, c'.joined p.target = true := by
  intro p hmem
  refine (h.joined p.target).mpr (Or.inl ?_)
  cases h with
  | send s u ss v hr =>
    rcases List.mem_append.mp hmem with hmem | hmem
    · exact hp p hmem
    · obtain rfl := List.mem_singleton.mp hmem
      exact (hc.visits s).2 u (by rw [hr]; exact List.mem_cons_self)
  | _ => exact hp p hmem

theorem accepting_set {c : Chat} {s t : Nat} {w : WebsocketSession}
    (h : ((c.set s w).session t).reading = .accepting) (hw : w.reading ≠ .accepting) :
    t ≠ s ∧ (c.session t).reading = .accepting := by
  by_cases ht : t = s
  · subst ht
    rw [set_self] at h
    exact absurd h hw
  · rw [set_of_ne c w ht] at h
    exact ⟨ht, h⟩

/-- A session is accepted once. -/
theorem Moves.joins {c c' : Chat} {e : Event} (hc : Lifetime c) (h : Moves c e c')
    (hj : ∀ t, (c.session t).reading = .accepting → c.joined t = false) {t : Nat}
    (ht : (c'.session t).reading = .accepting) : c'.joined t = false := by
  cases h with
  | upgrade =>
    by_cases hcount : t = c.count
    · subst hcount
      exact (hc.fresh c.count (Nat.le_refl _)).2.2.1
    · rw [upgrade_of_ne c hcount] at ht
      exact hj t ht
  | accepted s hr =>
    obtain ⟨hne, ht⟩ := accepting_set ht nofun
    exact (Function.update_of_ne hne ..).trans (hj t ht)
  | onSend s ss rest hp hf =>
    by_cases hs : t = s
    · subst hs
      rw [set_self, onSend_reading] at ht
      exact hj t ht
    · rw [set_of_ne _ _ hs] at ht
      exact hj t ht
  | onWrite s ec front hw hf =>
    by_cases hs : t = s
    · subst hs
      rw [set_self, onWrite_reading] at ht
      exact hj t ht
    · rw [set_of_ne _ _ hs] at ht
      exact hj t ht
  | destroy s _ _ _ => exact hj t ht
  | _ => exact hj t (accepting_set ht nofun).2

theorem step_sound {c c' : Chat} {e : Event} (hc : Sound c) (h : Moves c e c') : Sound c' where
  lifetime := step_lifetime hc.lifetime h
  clean s := step_clean h (hc.clean s)
  flowing t := step_flowing hc.lifetime h (hc.flowing t)
  due a t := by
    rcases h.due hc.lifetime a t with ⟨ms, hr, hd⟩ | ⟨hr, hd, -⟩
    · rw [hr, hd]
      refine (hc.due a t).append ?_
      split_ifs
      · exact List.Sublist.refl ms
      · exact List.nil_sublist ms
    · rw [hr]
      exact hd.trans (hc.due a t)
  posts := h.posts hc.lifetime hc.posts
  joins _ := h.joins hc.lifetime hc.joins

theorem run_sound {c : Chat} {es : List Event} (h : run Chat.step .init es = some c) : Sound c :=
  run_invariant (fun _ _ _ hI hs => step_sound hI (step_moves hs)) sound_init h

theorem messagesFrom_append (a : Nat) (es fs : List Event) :
    messagesFrom a (es ++ fs) = messagesFrom a es ++ messagesFrom a fs := List.filterMap_append

theorem run_received {c₀ c : Chat} {es : List Event} (h0 : Sound c₀)
    (h : run Chat.step c₀ es = some c) (a : Nat) :
    (c.session a).received = (c₀.session a).received ++ messagesFrom a es := by
  induction es generalizing c₀ with
  | nil =>
    obtain rfl := Option.some.inj h
    exact (List.append_nil _).symm
  | cons e es ih =>
    obtain ⟨c₁, h1, h2⟩ := run_cons_eq_some.mp h
    have hmoves := step_moves h1
    rw [ih (step_sound h0 hmoves) h2, step_received h0.lifetime hmoves (h0.clean a),
      List.append_assoc, ← messagesFrom_append]
    rfl

/-- **What is written on a connection.** At any moment of any run the strings written to a session,
followed by its queue and by what waits for its strand, are the messages posted to it in the order
of the posts; a write is pending exactly when the queue is not empty and no write has failed, and it
is of the front. A session that is destroyed has had everything written, unless a write failed. -/
theorem written_in_order {c : Chat} {es : List Event} (h : run Chat.step .init es = some c)
    (t : Nat) :
    (c.session t).written ++ (c.session t).queue ++ c.posted t = c.sentTo t ∧
      ((c.session t).writing.isSome ↔ (c.session t).queue ≠ [] ∧ (c.session t).broken = false) ∧
      (∀ m, (c.session t).writing = some m → (c.session t).queue.head? = some m) ∧
      (c.destroyed t = true →
        (c.session t).broken = true ∨ (c.session t).written = c.sentTo t) := by
  have hc := run_sound h
  obtain ⟨hsend, hflow⟩ := hc.flowing t
  refine ⟨hflow, hsend.sound.busy, hsend.front, fun hd => ?_⟩
  obtain ⟨-, hw, hp, -⟩ := useCount_eq_zero.mp (hc.lifetime.dead t hd)
  refine or_iff_not_imp_left.mpr fun hb => ?_
  have hq := hsend.queue_eq_nil hw (Bool.eq_false_iff.mpr hb)
  rw [← hflow, hq, hp, List.append_nil, List.append_nil]

/-- A session whose client is gone before its message is written. -/
theorem written_in_order_gone : ∃ c : Chat, run Chat.step .init
      [.upgrade, .onAccept 0 false, .onRead 0 [104, 105] [0], .lock 0, .send 0, .release 0,
        .readNext 0, .onSend 0, .readFailed 0, .onWrite 0 true, .destroy 0] = some c ∧
    (c.session 0).written ++ (c.session 0).queue ++ c.posted 0 = c.sentTo 0 ∧
      ((c.session 0).writing.isSome ↔ (c.session 0).queue ≠ [] ∧ (c.session 0).broken = false) ∧
      (∀ m, (c.session 0).writing = some m → (c.session 0).queue.head? = some m) ∧
      (c.destroyed 0 = true →
        (c.session 0).broken = true ∨ (c.session 0).written = c.sentTo 0) :=
  ⟨_, rfl, @written_in_order _ [.upgrade, .onAccept 0 false, .onRead 0 [104, 105] [0], .lock 0,
    .send 0, .release 0, .readNext 0, .onSend 0, .readFailed 0, .onWrite 0 true, .destroy 0] rfl 0⟩

/-- The message of each client goes out to a session at most once, in the client's order. -/
theorem sent_sublist {c : Chat} {es : List Event} (h : run Chat.step .init es = some c)
    (a t : Nat) : (c.due a t).Sublist (messagesFrom a es) := by
  have hr := run_received sound_init h a
  rw [show (Chat.init.session a).received = [] from rfl, List.nil_append] at hr
  rw [← hr]
  exact (run_sound h).due a t

/-- The second client joins late and gets the second message only. -/
theorem sent_sublist_late : ∃ c : Chat, run Chat.step .init
      [.upgrade, .onAccept 0 false, .upgrade, .onRead 0 [104] [0], .lock 0, .send 0, .release 0,
        .onAccept 1 false, .readNext 0, .onRead 0 [105] [0, 1], .lock 0, .send 0, .release 0,
        .lock 0, .send 0] = some c ∧
    (c.due 0 1).Sublist (messagesFrom 0 [.upgrade, .onAccept 0 false, .upgrade, .onRead 0 [104] [0],
      .lock 0, .send 0, .release 0, .onAccept 1 false, .readNext 0, .onRead 0 [105] [0, 1], .lock 0,
      .send 0, .release 0, .lock 0, .send 0]) :=
  ⟨_, rfl, sent_sublist rfl 0 1⟩

/-! ## Members -/

theorem useCount_run {c₀ c : Chat} {es : List Event} (h0 : Sound c₀)
    (h : run Chat.step c₀ es = some c) {t : Nat} (ht : t < c₀.count) (h1 : c₀.useCount t = 0) :
    c.useCount t = 0 := by
  have hI : Sound c ∧ t < c.count ∧ c.useCount t = 0 := by
    refine run_invariant (I := fun c => Sound c ∧ t < c.count ∧ c.useCount t = 0) ?_
      ⟨h0, ht, h1⟩ h
    rintro s e s' ⟨hs, ht, h0⟩ hstep
    have hmoves := step_moves hstep
    refine ⟨step_sound hs hmoves, ?_, useCount_step hs.lifetime hmoves ht h0⟩
    rw [hmoves.count]
    split_ifs
    · exact Nat.lt_succ_of_lt ht
    · exact ht
  exact hI.2.2

/-- Between two moments at which `t` is a member, what is due at it grows by what is read. -/
theorem due_run {c₀ c : Chat} {es : List Event} (h0 : Sound c₀)
    (h : run Chat.step c₀ es = some c) {t : Nat} (ht : t ∈ c₀.sessions)
    (hlive : c.useCount t ≠ 0) (a : Nat) : c.due a t = c₀.due a t ++ messagesFrom a es := by
  induction es generalizing c₀ with
  | nil =>
    obtain rfl := Option.some.inj h
    exact (List.append_nil _).symm
  | cons e es ih =>
    obtain ⟨c₁, h1, h2⟩ := run_cons_eq_some.mp h
    have hmoves := step_moves h1
    have hlt := h0.lifetime.lt_of_joined ((h0.lifetime.registered t).mp ht).1
    have hlive0 : c₀.useCount t ≠ 0 := fun hz => hlive (useCount_run h0 h hlt hz)
    have hmem : t ∈ c₁.sessions := by
      refine (hmoves.mem_sessions h0.lifetime.nodup t).mpr (Or.inl ⟨ht, ?_⟩)
      rintro rfl
      cases hmoves with
      | destroy _ _ hz _ => exact hlive0 hz
    rcases hmoves.due h0.lifetime a t with ⟨ms, hr, hd⟩ | ⟨-, -, hz⟩
    · rw [ih (step_sound h0 hmoves) h2 hmem, hd, if_pos ht, List.append_assoc]
      congr 1
      rw [step_received h0.lifetime hmoves (h0.clean a)] at hr
      rw [← List.append_cancel_left hr, ← messagesFrom_append]
      rfl
    · exact absurd hz hlive0

theorem pending_eq_nil {r : Reading} {t : Nat} (h : t ∉ r.targets) : r.pending t = [] := by
  unfold Reading.pending
  split
  · exact if_neg h
  · next ss sp v hsp =>
    refine if_neg fun ht => h ?_
    cases sp with
    | none => exact ht
    | before u => exact absurd rfl (hsp u)
    | after u => exact List.mem_cons_of_mem u ht
  · rfl

/-- Nothing is due at a session that has not joined. -/
theorem due_of_not_joined {c : Chat} (hc : Sound c) {t : Nat} (ht : c.joined t = false) (a : Nat) :
    c.due a t = [] := by
  have hpending : (c.session a).reading.pending t = [] := by
    refine pending_eq_nil fun hmem => ?_
    have hj := (hc.lifetime.visits a).2 t hmem
    rw [ht] at hj
    cases hj
  unfold Chat.due Chat.sent
  rw [hpending, List.append_nil, List.map_eq_nil_iff, List.filter_eq_nil_iff]
  intro p hp htarget
  have hj := hc.posts p hp
  rw [(of_decide_eq_true htarget).2, ht] at hj
  cases hj

/-- **Every member gets every message.** A session `t` that has joined and still has an owner gets
from each session `a`, itself included, the messages the client of `a` has sent since `t` joined:
all of them, each once, in order. The last of them may still be with the broadcast. -/
theorem members_get_all {c : Chat} {es₁ es₂ : List Event} {t : Nat}
    (h : run Chat.step .init (es₁ ++ .onAccept t false :: es₂) = some c) (hlive : c.useCount t ≠ 0)
    (a : Nat) : c.sent a t ++ (c.session a).reading.pending t = messagesFrom a es₂ := by
  rw [run_append] at h
  obtain ⟨b, h1, h2⟩ := Option.bind_eq_some_iff.mp h
  obtain ⟨c₀, haccept, hrun⟩ := run_cons_eq_some.mp h2
  have hb := run_sound h1
  have hmoves := step_moves haccept
  have hr : (b.session t).reading = .accepting := by
    cases hmoves with
    | accepted _ hr => exact hr
  have hjoined : b.joined t = false := hb.joins t hr
  have hdue : c₀.due a t = [] := by
    have hnone := due_of_not_joined hb hjoined a
    rcases hmoves.due hb.lifetime a t with ⟨ms, -, hd⟩ | ⟨-, hd, -⟩
    · have hmem : t ∉ b.sessions := fun hmem => by
        rw [((hb.lifetime.registered t).mp hmem).1] at hjoined
        cases hjoined
      rw [hd, hnone, if_neg hmem, List.append_nil]
    · rw [hnone] at hd
      exact List.sublist_nil.mp hd
  have hmem : t ∈ c₀.sessions := (hmoves.mem_sessions hb.lifetime.nodup t).mpr (Or.inr rfl)
  have hall := due_run (step_sound hb hmoves) hrun hmem hlive a
  rw [hdue, List.nil_append] at hall
  exact hall

/-- Two clients; the second one gets the message of the first. -/
theorem members_get_all_two : ∃ c : Chat, run Chat.step .init
      [.upgrade, .onAccept 0 false, .upgrade, .onAccept 1 false, .onRead 0 [104, 105] [1, 0],
        .lock 0, .send 0, .release 0, .onSend 1, .lock 0] = some c ∧
    c.sent 0 1 ++ (c.session 0).reading.pending 1 =
      messagesFrom 0
        [.onRead 0 [104, 105] [1, 0], .lock 0, .send 0, .release 0, .onSend 1, .lock 0] :=
  ⟨_, rfl, @members_get_all _ [.upgrade, .onAccept 0 false, .upgrade]
    [.onRead 0 [104, 105] [1, 0], .lock 0, .send 0, .release 0, .onSend 1, .lock 0] 1 rfl
    (by decide) 0⟩

end AsioLearn.WebSocket
