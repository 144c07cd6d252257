import AsioLearn.WebSocket.Session
import Mathlib.Data.List.Nodup
import Mathlib.Logic.Function.Basic

/-!
# The chat server: `shared_state` and its sessions (`shared_state.cc`, `websocket_session.cc`)

`io_context::run` is called on any number of threads, and each connection has a strand of its own.
The handlers of one session exclude each other, those of different sessions interleave. A step is
one handler, except for `on_read`: the loop of `shared_state::send` takes no lock, so each of its
weak pointers is locked, sent to and let go in steps of their own, and anything may happen between.

* `sessions_` is a set of addresses in no particular order: a list without repetitions, of which
  `send` copies any permutation. The mutex makes `join`, `leave` and the copying one step each.
* `posted t` are the `on_send` handlers waiting for the strand of `t`, in the order of the posts.
* A session has as many owners as `useCount` says: its pending operations and handlers, and the
  broadcasts that have locked it. `wp.lock()` fails when there are none. From then on the destructor
  may run, which is when `leave` takes the session out of `sessions_`.
* `joined`, `destroyed` and `posts` record the run: the sessions that have entered `sessions_`,
  those whose destructor has run, and what `sp->send(ss)` has posted, by whom and to whom.

Results:
* `step_moves`: what a step can do (`Moves`); the invariants are read off its cases.
-/

namespace AsioLearn.WebSocket

open Lib Lib.Lts

/-- `sp->send(ss)`, called in `on_read` of `sender`. -/
structure Post where
  sender : Nat
  target : Nat
  ss : Message
  deriving DecidableEq, Repr

/-- `shared_state`, the sessions made so far, and the record of the run. -/
structure Chat where
  count : Nat
  session : Nat → WebsocketSession
  posted : Nat → List Message
  sessions : List Nat
  joined : Nat → Bool
  destroyed : Nat → Bool
  posts : List Post

/-- No connection yet. -/
def Chat.init : Chat :=
  ⟨0, fun _ => .made, fun _ => [], [], fun _ => false, fun _ => false, []⟩

/-- `shared_state::join`. -/
def Chat.join (c : Chat) (s : Nat) : Chat :=
  { c with sessions := c.sessions.insert s, joined := Function.update c.joined s true }

/-- `shared_state::leave`. -/
def Chat.leave (c : Chat) (s : Nat) : Chat := { c with sessions := c.sessions.erase s }

/-- The session `s` becomes `w`. -/
def Chat.set (c : Chat) (s : Nat) (w : WebsocketSession) : Chat :=
  { c with session := Function.update c.session s w }

/-- The read side of `s` goes on to `r`. -/
def Chat.setReading (c : Chat) (s : Nat) (r : Reading) : Chat :=
  c.set s { c.session s with reading := r }

/-- `sp->send(ss)` in `on_read` of `s`, `sp` being `t`: `net::post` of `on_send` to its strand. -/
def Chat.send (c : Chat) (s t : Nat) (ss : Message) : Chat :=
  { c with posted := Function.update c.posted t (c.posted t ++ [ss]),
           posts := c.posts ++ [⟨s, t, ss⟩] }

/-- `boost::make_shared<websocket_session>(…)->run(…)`. -/
def Chat.upgrade (c : Chat) : Chat :=
  { c.set c.count WebsocketSession.made.run with count := c.count + 1 }

/-- The destructor. -/
def Chat.destroy (c : Chat) (s : Nat) : Chat :=
  { c.leave s with destroyed := Function.update c.destroyed s true }

/-- `use_count` of the session `t`. -/
def Chat.useCount (c : Chat) (t : Nat) : Nat :=
  (c.session t).operations + (c.posted t).length +
    (List.range c.count).countP fun s => (c.session s).reading.holds = some t

/-- What happens next. -/
inductive Event where
  /-- An `http_session` hands over a connection. -/
  | upgrade
  | onAccept (s : Nat) (ec : Bool)
  /-- `on_read` with an error. -/
  | readFailed (s : Nat)
  /-- `on_read` with `message`, up to the loop of `shared_state::send` over `v`. -/
  | onRead (s : Nat) (message : Message) (v : List Nat)
  /-- `wp.lock()` in the loop of `s`. -/
  | lock (s : Nat)
  /-- `sp->send(ss)`. -/
  | send (s : Nat)
  /-- The end of the loop body, where `sp` is destroyed. -/
  | release (s : Nat)
  /-- The rest of `on_read`. -/
  | readNext (s : Nat)
  | onSend (s : Nat)
  | onWrite (s : Nat) (ec : Bool)
  | destroy (s : Nat)
  deriving DecidableEq, Repr

/-- `wp.lock()`, for the next of the weak pointers. -/
def Chat.lock (c : Chat) (s : Nat) : Option Chat :=
  match (c.session s).reading with
  | .sending ⟨ss, .none, t :: v⟩ =>
    some (c.setReading s (.sending ⟨ss, if c.useCount t = 0 then .none else .before t, v⟩))
  | _ => none

/-- One step of the server. -/
def Chat.step (c : Chat) : Event → Option Chat
  | .upgrade => some c.upgrade
  | .onAccept s ec =>
    if (c.session s).reading = .accepting then
      let c := if ec then c else c.join s
      some (c.set s ((c.session s).onAccept ec))
    else none
  | .readFailed s =>
    if (c.session s).reading = .reading then some (c.setReading s .idle) else none
  | .onRead s message v =>
    if (c.session s).reading = .reading ∧ v.Perm c.sessions then
      some (c.set s ((c.session s).onRead message v))
    else none
  | .lock s => c.lock s
  | .send s =>
    match (c.session s).reading with
    | .sending ⟨ss, .before t, v⟩ =>
      some ((c.send s t ss).setReading s (.sending ⟨ss, .after t, v⟩))
    | _ => none
  | .release s =>
    match (c.session s).reading with
    | .sending ⟨ss, .after _, v⟩ => some (c.setReading s (.sending ⟨ss, .none, v⟩))
    | _ => none
  | .readNext s =>
    match (c.session s).reading with
    | .sending ⟨_, .none, []⟩ => some (c.set s (c.session s).readNext)
    | _ => none
  | .onSend s =>
    match c.posted s with
    | ss :: rest =>
      if (c.session s).strandFree then
        some ({ c with posted := Function.update c.posted s rest }.set s ((c.session s).onSend ss))
      else none
    | [] => none
  | .onWrite s ec =>
    match (c.session s).writing with
    | some front =>
      if (c.session s).strandFree then some (c.set s ((c.session s).onWrite front ec)) else none
    | none => none
  | .destroy s =>
    if s < c.count ∧ c.useCount s = 0 ∧ c.destroyed s = false then some (c.destroy s) else none

/-! ## Fields after a step -/

section Fields

variable (c : Chat) (s t : Nat) (w : WebsocketSession) (r : Reading) (ss : Message)

@[simp]
theorem set_self : (c.set s w).session s = w := Function.update_self ..

theorem set_of_ne {s t : Nat} (h : t ≠ s) : (c.set s w).session t = c.session t :=
  Function.update_of_ne h ..

@[simp]
theorem setReading_self : (c.setReading s r).session s = { c.session s with reading := r } :=
  set_self ..

theorem setReading_of_ne {s t : Nat} (h : t ≠ s) : (c.setReading s r).session t = c.session t :=
  set_of_ne _ _ h

theorem upgrade_of_ne {t : Nat} (h : t ≠ c.count) : c.upgrade.session t = c.session t :=
  set_of_ne _ _ h

@[simp]
theorem upgrade_self : c.upgrade.session c.count = WebsocketSession.made.run := set_self ..

@[simp]
theorem send_session : (c.send s t ss).session = c.session := rfl

@[simp]
theorem send_posted_self : (c.send s t ss).posted t = c.posted t ++ [ss] := Function.update_self ..

theorem send_posted_of_ne {t u : Nat} (h : u ≠ t) : (c.send s t ss).posted u = c.posted u :=
  Function.update_of_ne h ..

end Fields

/-! ## What a step can do -/

/-- `Chat.step` as a relation, one rule for each way through a handler. -/
inductive Moves (c : Chat) : Event → Chat → Prop where
  | upgrade : Moves c .upgrade c.upgrade
  | refused (s : Nat) (hr : (c.session s).reading = .accepting) :
      Moves c (.onAccept s true) (c.setReading s .idle)
  | accepted (s : Nat) (hr : (c.session s).reading = .accepting) :
      Moves c (.onAccept s false) ((c.join s).setReading s .reading)
  | readFailed (s : Nat) (hr : (c.session s).reading = .reading) :
      Moves c (.readFailed s) (c.setReading s .idle)
  | onRead (s : Nat) (message : Message) (v : List Nat) (hr : (c.session s).reading = .reading)
      (hv : v.Perm c.sessions) :
      Moves c (.onRead s message v) (c.set s ((c.session s).onRead message v))
  | locked (s t : Nat) (ss : Message) (v : List Nat)
      (hr : (c.session s).reading = .sending ⟨ss, .none, t :: v⟩) (ht : c.useCount t ≠ 0) :
      Moves c (.lock s) (c.setReading s (.sending ⟨ss, .before t, v⟩))
  | skipped (s t : Nat) (ss : Message) (v : List Nat)
      (hr : (c.session s).reading = .sending ⟨ss, .none, t :: v⟩) (ht : c.useCount t = 0) :
      Moves c (.lock s) (c.setReading s (.sending ⟨ss, .none, v⟩))
  | send (s t : Nat) (ss : Message) (v : List Nat)
      (hr : (c.session s).reading = .sending ⟨ss, .before t, v⟩) :
      Moves c (.send s) ((c.send s t ss).setReading s (.sending ⟨ss, .after t, v⟩))
  | release (s t : Nat) (ss : Message) (v : List Nat)
      (hr : (c.session s).reading = .sending ⟨ss, .after t, v⟩) :
      Moves c (.release s) (c.setReading s (.sending ⟨ss, .none, v⟩))
  | readNext (s : Nat) (ss : Message) (hr : (c.session s).reading = .sending ⟨ss, .none, []⟩) :
      Moves c (.readNext s) (c.set s (c.session s).readNext)
  | onSend (s : Nat) (ss : Message) (rest : List Message) (hp : c.posted s = ss :: rest)
      (hf : (c.session s).strandFree = true) :
      Moves c (.onSend s)
        ({ c with posted := Function.update c.posted s rest }.set s ((c.session s).onSend ss))
  | onWrite (s : Nat) (ec : Bool) (front : Message) (hw : (c.session s).writing = some front)
      (hf : (c.session s).strandFree = true) :
      Moves c (.onWrite s ec) (c.set s ((c.session s).onWrite front ec))
  | destroy (s : Nat) (hs : s < c.count) (h0 : c.useCount s = 0) (hd : c.destroyed s = false) :
      Moves c (.destroy s) (c.destroy s)

theorem lock_moves {c c' : Chat} {s : Nat} (h : c.lock s = some c') : Moves c (.lock s) c' := by
  unfold Chat.lock at h
  split at h
  · next ss t v hr =>
    obtain rfl := Option.some.inj h
    by_cases ht : c.useCount t = 0
    · rw [if_pos ht]
      exact .skipped s t ss v hr ht
    · rw [if_neg ht]
      exact .locked s t ss v hr ht
  · cases h

theorem step_moves {c c' : Chat} {e : Event} (h : c.step e = some c') : Moves c e c' := by
  cases e with
  | upgrade =>
    obtain rfl := Option.some.inj h
    exact .upgrade
  | onAccept s ec =>
    cases ec with
    | true =>
      simp only [Chat.step, if_true] at h
      split_ifs at h with hr
      obtain rfl := Option.some.inj h
      exact .refused s hr
    | false =>
      simp only [Chat.step, Bool.false_eq_true, if_false] at h
      split_ifs at h with hr
      obtain rfl := Option.some.inj h
      exact .accepted s hr
  | readFailed s =>
    simp only [Chat.step] at h
    split_ifs at h with hr
    obtain rfl := Option.some.inj h
    exact .readFailed s hr
  | onRead s message v =>
    simp only [Chat.step] at h
    split_ifs at h with hr
    obtain rfl := Option.some.inj h
    exact .onRead s message v hr.1 hr.2
  | lock s => exact lock_moves h
  | send s =>
    simp only [Chat.step] at h
    split at h
    · next ss t v hr =>
      obtain rfl := Option.some.inj h
      exact .send s t ss v hr
    · cases h
  | release s =>
    simp only [Chat.step] at h
    split at h
    · next ss t v hr =>
      obtain rfl := Option.some.inj h
      exact .release s t ss v hr
    · cases h
  | readNext s =>
    simp only [Chat.step] at h
    split at h
    · next ss hr =>
      obtain rfl := Option.some.inj h
      exact .readNext s ss hr
    · cases h
  | onSend s =>
    simp only [Chat.step] at h
    split at h
    · next ss rest hp =>
      split_ifs at h with hf
      obtain rfl := Option.some.inj h
      exact .onSend s ss rest hp hf
    · cases h
  | onWrite s ec =>
    simp only [Chat.step] at h
    split at h
    · next front hw =>
      split_ifs at h with hf
      obtain rfl := Option.some.inj h
      exact .onWrite s ec front hw hf
    · cases h
  | destroy s =>
    simp only [Chat.step] at h
    split_ifs at h with hd
    obtain rfl := Option.some.inj h
    exact .destroy s hd.1 hd.2.1 hd.2.2

end AsioLearn.WebSocket
