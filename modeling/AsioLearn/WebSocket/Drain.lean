import AsioLearn.WebSocket.Delivery
import AsioLearn.Lib.Ranking

/-!
# The chat server comes to rest (`shared_state.cc`, `websocket_session.cc`)

Once no client connects, sends or closes, what is left is the work of the handlers themselves:
`Event.internal`. Each such step takes something off `Chat.rank`, so there are only finitely many of
them, in whatever order the threads take them.

Results:
* `internal_step`: an internal step lowers the rank;
* `comes_to_rest`: internal steps come to an end, and at the end every message has been posted to
  every session that was to get it and every posted message has been written, except on connections
  whose write failed; `sessions_` then holds the sessions whose client is still being read.
-/

namespace AsioLearn.WebSocket

open Lib Lib.Lts

/-- The steps that need nothing from a client but that it takes what is written to it. -/
def Event.internal : Event → Bool
  | .lock _ | .send _ | .release _ | .readNext _ | .onSend _ | .onWrite _ _ | .destroy _ => true
  | .upgrade | .onAccept _ _ | .readFailed _ | .onRead _ _ _ => false

/-- The steps the broadcast under way has yet to take, and those it causes. -/
def Reading.work : Reading → Nat
  | .sending ⟨_, .none, v⟩ => 1 + 5 * v.length
  | .sending ⟨_, .before _, v⟩ => 5 + 5 * v.length
  | .sending ⟨_, .after _, v⟩ => 2 + 5 * v.length
  | _ => 0

/-- The writes yet to complete. -/
def WebsocketSession.writes (w : WebsocketSession) : Nat :=
  if w.writing = none then 0 else w.queue.length

/-- The steps left at session `s`. -/
def Chat.work (c : Chat) (s : Nat) : Nat :=
  (c.session s).reading.work + (c.session s).writes + if c.destroyed s then 0 else 1

/-- A bound on the internal steps that are left. -/
def Chat.rank (c : Chat) : Nat :=
  (∑ s ∈ Finset.range c.count, c.work s) + 2 * ∑ s ∈ Finset.range c.count, (c.posted s).length

/-! ## One step -/

/-- A step that changes the work of `s` and what waits for the strand of `u`. -/
theorem rank_change {c c' : Chat} {s u : Nat} (hcount : c'.count = c.count) (hs : s < c.count)
    (hu : u < c.count) (hwork : ∀ t, t ≠ s → c'.work t = c.work t)
    (hposted : ∀ t, t ≠ u → c'.posted t = c.posted t) :
    c'.rank + c.work s + 2 * (c.posted u).length =
      c.rank + c'.work s + 2 * (c'.posted u).length := by
  have hw := sum_range_change hs hwork
  have hp := sum_range_change (f := fun t => (c.posted t).length)
    (g := fun t => (c'.posted t).length) hu fun t ht => by rw [hposted t ht]
  unfold Chat.rank
  rw [hcount]
  omega

theorem onSend_writes (w : WebsocketSession) (ss : Message) :
    (w.onSend ss).writes ≤ w.writes + 1 := by
  unfold WebsocketSession.onSend WebsocketSession.writes
  cases hq : w.queue with
  | nil => simp
  | cons a rest =>
    cases w.writing <;> simp

theorem onWrite_writes {w : WebsocketSession} (hw : Sending w) {front : Message} (ec : Bool)
    (hf : w.writing = some front) : (w.onWrite front ec).writes < w.writes := by
  obtain ⟨rest, hq⟩ := hw.queue_of_writing hf
  unfold WebsocketSession.onWrite WebsocketSession.writes
  cases ec with
  | true => simp [hf, hq]
  | false => cases rest <;> simp [hf, hq]

theorem work_set_of_ne {c : Chat} {s t : Nat} {w : WebsocketSession} (h : t ≠ s) :
    (c.set s w).work t = c.work t := by
  unfold Chat.work
  rw [set_of_ne c w h]
  rfl

theorem work_set_self (c : Chat) (s : Nat) (w : WebsocketSession) :
    (c.set s w).work s = w.reading.work + w.writes + if c.destroyed s then 0 else 1 := by
  unfold Chat.work
  rw [set_self]
  rfl

/-- A step of `s` that posts nothing. -/
theorem rank_set {c : Chat} {s : Nat} {w : WebsocketSession} (hs : s < c.count)
    (hlt : w.reading.work + w.writes < (c.session s).reading.work + (c.session s).writes) :
    (c.set s w).rank < c.rank := by
  have hchange := @rank_change c (c.set s w) s s rfl hs hs (fun t ht => work_set_of_ne ht)
    fun t _ => rfl
  have hself := work_set_self c s w
  have hwork : c.work s = (c.session s).reading.work + (c.session s).writes +
    if c.destroyed s then 0 else 1 := rfl
  rw [show (c.set s w).posted s = c.posted s from rfl] at hchange
  omega

theorem rank_send {c : Chat} {s t : Nat} {ss : Message} {v : List Nat} (hs : s < c.count)
    (ht : t < c.count) (hr : (c.session s).reading = .sending ⟨ss, .before t, v⟩) :
    ((c.send s t ss).setReading s (.sending ⟨ss, .after t, v⟩)).rank < c.rank := by
  have hchange := @rank_change c ((c.send s t ss).setReading s (.sending ⟨ss, .after t, v⟩)) s t
    rfl hs ht (fun u hu => work_set_of_ne (c := c.send s t ss) hu)
    fun u hu => send_posted_of_ne c s ss hu
  have hwork : c.work s =
      5 + 5 * v.length + (c.session s).writes + if c.destroyed s then 0 else 1 := by
    unfold Chat.work
    rw [hr]
    rfl
  have hself : ((c.send s t ss).setReading s (.sending ⟨ss, .after t, v⟩)).work s =
      2 + 5 * v.length + (c.session s).writes + if c.destroyed s then 0 else 1 := work_set_self ..
  have hposted : ((c.send s t ss).setReading s (.sending ⟨ss, .after t, v⟩)).posted t =
      c.posted t ++ [ss] := send_posted_self c s t ss
  rw [hposted, List.length_append, List.length_singleton] at hchange
  omega

theorem rank_onSend {c : Chat} {s : Nat} {ss : Message} {rest : List Message} (hs : s < c.count)
    (hp : c.posted s = ss :: rest) :
    ({ c with posted := Function.update c.posted s rest }.set s ((c.session s).onSend ss)).rank <
      c.rank := by
  have hchange := @rank_change c
    ({ c with posted := Function.update c.posted s rest }.set s ((c.session s).onSend ss)) s s
    rfl hs hs
    (fun t ht => work_set_of_ne (c := { c with posted := Function.update c.posted s rest }) ht)
    fun t ht => Function.update_of_ne ht ..
  have hwork : c.work s = (c.session s).reading.work + (c.session s).writes +
    if c.destroyed s then 0 else 1 := rfl
  have hself : ({ c with posted := Function.update c.posted s rest }.set s
      ((c.session s).onSend ss)).work s = (c.session s).reading.work +
        ((c.session s).onSend ss).writes + if c.destroyed s then 0 else 1 := by
    rw [work_set_self, onSend_reading]
  have hposted : ({ c with posted := Function.update c.posted s rest }.set s
      ((c.session s).onSend ss)).posted s = rest := Function.update_self ..
  have hwrites := onSend_writes (c.session s) ss
  rw [hposted, hp, List.length_cons] at hchange
  omega

theorem internal_step {c c' : Chat} {e : Event} (hc : Sound c) (he : e.internal = true)
    (h : Moves c e c') : c'.rank < c.rank := by
  have hlt : e.subject c < c.count := hc.lifetime.subject_lt h fun hu => by
    rw [hu] at he
    cases he
  cases h with
  | upgrade | refused _ _ | accepted _ _ | readFailed _ _ | onRead _ _ _ _ _ => cases he
  | locked s t ss v hr _ | skipped s t ss v hr _ | release s t ss v hr =>
    refine rank_set hlt (Nat.add_lt_add_right ?_ _)
    rw [hr]
    simp only [Reading.work, List.length_cons]
    omega
  | readNext s ss hr =>
    refine rank_set hlt (Nat.add_lt_add_right ?_ _)
    rw [hr]
    exact Nat.lt_succ_self 0
  | send s t ss v hr =>
    have ht : t < c.count := hc.lifetime.lt_of_useCount (hc.lifetime.useCount_of_holds (s := s)
      (by rw [hr]; rfl))
    exact rank_send hlt ht hr
  | onSend s ss rest hp hf => exact rank_onSend hlt hp
  | onWrite s ec front hw hf =>
    refine rank_set hlt ?_
    rw [onWrite_reading]
    exact Nat.add_lt_add_left (onWrite_writes (hc.flowing s).sending ec hw) _
  | destroy s hs h0 hd =>
    have hchange := @rank_change c (c.destroy s) s s rfl hs hs (fun t ht => ?_) fun t _ => rfl
    · have hself : (c.destroy s).work s + 1 = c.work s := by
        show _ + (if Function.update c.destroyed s true s then 0 else 1) + 1 = _
        rw [Function.update_self]
        unfold Chat.work
        rw [hd]
        rfl
      rw [show (c.destroy s).posted s = c.posted s from rfl] at hchange
      omega
    · show _ + (if Function.update c.destroyed s true t then 0 else 1) = _
      rw [Function.update_of_ne ht]
      rfl

/-! ## At rest -/

/-- No internal step is possible. -/
def Rested (c : Chat) : Prop := ∀ e : Event, e.internal = true → c.step e = none

theorem Rested.strandFree {c : Chat} (h : Rested c) (s : Nat) :
    (c.session s).strandFree = true := by
  unfold WebsocketSession.strandFree
  split
  · next b hr =>
    obtain ⟨ss, sp, v⟩ := b
    exfalso
    cases sp with
    | before t =>
      have hnone := h (.send s) rfl
      simp [Chat.step, hr] at hnone
    | after t =>
      have hnone := h (.release s) rfl
      simp [Chat.step, hr] at hnone
    | none =>
      cases v with
      | nil =>
        have hnone := h (.readNext s) rfl
        simp [Chat.step, hr] at hnone
      | cons t v =>
        have hnone := h (.lock s) rfl
        simp [Chat.step, Chat.lock, hr] at hnone
  · rfl

theorem Rested.posted {c : Chat} (h : Rested c) (s : Nat) : c.posted s = [] := by
  cases hp : c.posted s with
  | nil => rfl
  | cons ss rest =>
    have hnone := h (.onSend s) rfl
    simp [Chat.step, hp, h.strandFree s] at hnone

theorem Rested.writing {c : Chat} (h : Rested c) (s : Nat) : (c.session s).writing = none := by
  cases hw : (c.session s).writing with
  | none => rfl
  | some front =>
    have hnone := h (.onWrite s false) rfl
    simp [Chat.step, hw, h.strandFree s] at hnone

theorem Rested.pending {c : Chat} (h : Rested c) (a t : Nat) :
    (c.session a).reading.pending t = [] := by
  have hfree := h.strandFree a
  unfold WebsocketSession.strandFree at hfree
  split at hfree
  · cases hfree
  · next hr =>
    cases hs : (c.session a).reading with
    | sending b => exact absurd hs (hr b)
    | _ => rfl

/-- What is posted has been written. -/
theorem Rested.written {c : Chat} (h : Rested c) (hc : Sound c) (t : Nat) :
    (c.session t).broken = true ∨ (c.session t).written = c.sentTo t := by
  obtain ⟨hsend, hflow⟩ := hc.flowing t
  refine or_iff_not_imp_left.mpr fun hb => ?_
  have hq := hsend.queue_eq_nil (h.writing t) (Bool.eq_false_iff.mpr hb)
  rw [← hflow, hq, h.posted t, List.append_nil, List.append_nil]

theorem Rested.holds {c : Chat} (h : Rested c) (s : Nat) : (c.session s).reading.holds = none := by
  have hfree := h.strandFree s
  unfold WebsocketSession.strandFree at hfree
  split at hfree
  · cases hfree
  · next hr =>
    cases hs : (c.session s).reading with
    | sending b => exact absurd hs (hr b)
    | _ => rfl

/-- Only a client that is read keeps its session. -/
theorem Rested.mem_sessions {c : Chat} (h : Rested c) (hc : Sound c) (t : Nat) :
    t ∈ c.sessions ↔ c.joined t = true ∧ (c.session t).reading = .reading := by
  rw [hc.lifetime.registered]
  refine and_congr_right fun hj => ?_
  have hlt := hc.lifetime.lt_of_joined hj
  have hcount : c.useCount t = 0 ↔ (c.session t).reading = .idle := by
    rw [useCount_eq_zero]
    exact ⟨fun hz => hz.1, fun hr => ⟨hr, h.writing t, h.posted t, fun s _ hs => by
      rw [h.holds s] at hs
      cases hs⟩⟩
  have hdestroy : c.useCount t = 0 → c.destroyed t = true := by
    intro hz
    by_contra hd
    have hnone := h (.destroy t) rfl
    simp [Chat.step, hlt, hz, hd] at hnone
  constructor
  · intro hd
    cases hr : (c.session t).reading with
    | idle =>
      rw [hdestroy (hcount.mpr hr)] at hd
      cases hd
    | accepting =>
      rw [hc.joins t hr] at hj
      cases hj
    | reading => rfl
    | sending b =>
      have hfree := h.strandFree t
      unfold WebsocketSession.strandFree at hfree
      rw [hr] at hfree
      cases hfree
  · intro hr
    refine hc.lifetime.not_destroyed fun hz => ?_
    rw [hcount.mp hz] at hr
    cases hr

/-- **The server comes to rest.** From any state a run can reach, the handlers take at most `rank`
steps of their own, in whatever order. When none is left, no broadcast is under way, every message
posted to a session has been written unless a write of it failed, and `sessions_` holds the sessions
whose client is still being read. -/
theorem comes_to_rest {c c' : Chat} {es fs : List Event} (h : run Chat.step .init es = some c)
    (hfs : ∀ e ∈ fs, e.internal = true) (hrun : run Chat.step c fs = some c') :
    fs.length + c'.rank ≤ c.rank ∧
      (Rested c' → (∀ a t, c'.due a t = c'.sent a t) ∧
        (∀ t, (c'.session t).broken = true ∨ (c'.session t).written = c'.sentTo t) ∧
        ∀ t, t ∈ c'.sessions ↔ c'.joined t = true ∧ (c'.session t).reading = .reading) := by
  have hstep : ∀ s e s', Sound s → e.internal = true → Chat.step s e = some s' →
      Sound s' ∧ s'.rank < s.rank := fun s e s' hs he hstep =>
    ⟨step_sound hs (step_moves hstep), internal_step hs he (step_moves hstep)⟩
  obtain ⟨hc, hlen⟩ := run_ranked hstep (run_sound h) hfs hrun
  refine ⟨hlen, fun hrest => ⟨fun a t => ?_, hrest.written hc, hrest.mem_sessions hc⟩⟩
  unfold Chat.due
  rw [hrest.pending a t, List.append_nil]

/-- One client, which gets its own message. -/
theorem comes_to_rest_echo : ∃ c c' : Chat,
    run Chat.step .init [.upgrade, .onAccept 0 false, .onRead 0 [104, 105] [0]] = some c ∧
    run Chat.step c [.lock 0, .send 0, .release 0, .readNext 0, .onSend 0, .onWrite 0 false] =
      some c' ∧
    6 + c'.rank ≤ c.rank ∧
      (Rested c' → (∀ a t, c'.due a t = c'.sent a t) ∧
        (∀ t, (c'.session t).broken = true ∨ (c'.session t).written = c'.sentTo t) ∧
        ∀ t, t ∈ c'.sessions ↔ c'.joined t = true ∧ (c'.session t).reading = .reading) :=
  ⟨_, _, rfl, rfl, @comes_to_rest _ _ [.upgrade, .onAccept 0 false, .onRead 0 [104, 105] [0]]
    [.lock 0, .send 0, .release 0, .readNext 0, .onSend 0, .onWrite 0 false] rfl (by decide) rfl⟩

end AsioLearn.WebSocket
