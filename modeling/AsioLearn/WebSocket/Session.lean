import AsioLearn.Lib.Pipeline

/-!
# One connection of the chat server (`websocket_session.cc`)

The members of `websocket_session` and its handlers, as functions of the session alone. A handler
that calls into `shared_state` (`on_accept`, `on_read`, the destructor) is completed in `Chat`.

* `reading` says which operation or handler of the reading side holds the session: none, the
  `async_accept`, the `async_read`, or `on_read` in the middle of `shared_state::send`, whose
  locals are a `Broadcast`. A session is named by its number, in the order in which they are made.
* `writing` is the buffer of the `async_write` that is pending. What `fail` prints is left out.
* `received`, `written` and `broken` record the run: the messages handed to `shared_state::send`,
  the strings whose write has completed, and whether a write has failed.

Results:
* `onSend_refines`, `onWrite_refines`: the send side is `Lib.Pipeline`;
* `Sending`: the buffer of a pending write is the string at the front of `queue_`, which stays there
  until the write is over.
-/

namespace AsioLearn.WebSocket

open Lib Lib.Lts

/-- `std::string const`, of a message. -/
abbrev Message := List UInt8

/-- The strong pointer `sp` of the loop in `shared_state::send`. -/
inductive Locked where
  | none
  /-- Before `sp->send(ss)`, on the session `t`. -/
  | before (t : Nat)
  /-- After it, before the end of the loop body. -/
  | after (t : Nat)
  deriving DecidableEq, Repr

/-- The locals of `shared_state::send`; `v` are the weak pointers the loop has yet to visit. -/
structure Broadcast where
  ss : Message
  sp : Locked
  v : List Nat
  deriving DecidableEq, Repr

/-- What holds the session on its reading side. -/
inductive Reading where
  | idle
  | accepting
  | reading
  | sending (b : Broadcast)
  deriving DecidableEq, Repr

/-- `websocket_session`, and the record of its run. -/
structure WebsocketSession where
  reading : Reading
  buffer : List UInt8
  queue : List Message
  writing : Option Message
  received : List Message
  written : List Message
  broken : Bool
  deriving DecidableEq, Repr

/-- A session that has been constructed. -/
def WebsocketSession.made : WebsocketSession := ⟨.idle, [], [], none, [], [], false⟩

/-- `run`: the `async_accept` is pending. -/
def WebsocketSession.run (w : WebsocketSession) : WebsocketSession :=
  { w with reading := .accepting }

/-- `on_accept` but for the `join`. -/
def WebsocketSession.onAccept (w : WebsocketSession) (ec : Bool) : WebsocketSession :=
  if ec then { w with reading := .idle } else { w with reading := .reading }

/-- The completion of an `async_read` with a message, which is appended to `buffer_`, and `on_read`
up to the loop in `shared_state::send`; `v` is the list of weak pointers made there. -/
def WebsocketSession.onRead (w : WebsocketSession) (message : Message) (v : List Nat) :
    WebsocketSession :=
  let buffer := w.buffer ++ message
  { w with buffer, received := w.received ++ [buffer], reading := .sending ⟨buffer, .none, v⟩ }

/-- `on_read` after `shared_state::send`: `buffer_.consume(buffer_.size())` and the next read. -/
def WebsocketSession.readNext (w : WebsocketSession) : WebsocketSession :=
  { w with buffer := [], reading := .reading }

/-- `on_send`. -/
def WebsocketSession.onSend (w : WebsocketSession) (ss : Message) : WebsocketSession :=
  let w := { w with queue := w.queue ++ [ss] }
  if 1 < w.queue.length then w else { w with writing := w.queue.head? }

/-- `on_write`, of the write of `front`. -/
def WebsocketSession.onWrite (w : WebsocketSession) (front : Message) (ec : Bool) :
    WebsocketSession :=
  if ec then { w with writing := none, broken := true }
  else
    let queue := w.queue.drop 1
    { w with queue, writing := queue.head?, written := w.written ++ [front] }

/-- No handler of the session is running: `on_read` is the only one that does not end at once. -/
def WebsocketSession.strandFree (w : WebsocketSession) : Bool :=
  match w.reading with
  | .sending _ => false
  | _ => true

/-- Operations and handlers of the session itself, which hold a `shared_ptr` to it. -/
def WebsocketSession.operations (w : WebsocketSession) : Nat :=
  (if w.reading = .idle then 0 else 1) + (if w.writing = none then 0 else 1)

/-- The session `on_read` of this one has locked, if any. -/
def Reading.holds : Reading → Option Nat
  | .sending ⟨_, .before t, _⟩ => some t
  | .sending ⟨_, .after t, _⟩ => some t
  | _ => none

@[simp]
theorem onSend_reading (w : WebsocketSession) (ss : Message) :
    (w.onSend ss).reading = w.reading := by
  unfold WebsocketSession.onSend
  dsimp only
  split_ifs <;> rfl

@[simp]
theorem onSend_received (w : WebsocketSession) (ss : Message) :
    (w.onSend ss).received = w.received := by
  unfold WebsocketSession.onSend
  dsimp only
  split_ifs <;> rfl

@[simp]
theorem onSend_queue (w : WebsocketSession) (ss : Message) :
    (w.onSend ss).queue = w.queue ++ [ss] := by
  unfold WebsocketSession.onSend
  dsimp only
  split_ifs <;> rfl

@[simp]
theorem onSend_written (w : WebsocketSession) (ss : Message) :
    (w.onSend ss).written = w.written := by
  unfold WebsocketSession.onSend
  dsimp only
  split_ifs <;> rfl

@[simp]
theorem onWrite_reading (w : WebsocketSession) (front : Message) (ec : Bool) :
    (w.onWrite front ec).reading = w.reading := by
  unfold WebsocketSession.onWrite
  split_ifs <;> rfl

@[simp]
theorem onWrite_received (w : WebsocketSession) (front : Message) (ec : Bool) :
    (w.onWrite front ec).received = w.received := by
  unfold WebsocketSession.onWrite
  split_ifs <;> rfl

/-! ## The send side is a pipeline -/

/-- The send side. -/
def WebsocketSession.pipeline (w : WebsocketSession) : Pipeline.State Message :=
  ⟨w.written, w.queue, w.writing.isSome, w.broken⟩

/-- One write at a time, of the string at the front of the queue. -/
structure Sending (w : WebsocketSession) : Prop where
  sound : Pipeline.Sound w.pipeline
  front : ∀ m, w.writing = some m → w.queue.head? = some m

theorem sending_made : Sending WebsocketSession.made where
  sound := Pipeline.sound_empty
  front m h := by cases h

/-- A pending write has its string in the queue. -/
theorem Sending.queue_of_writing {w : WebsocketSession} (hw : Sending w) {m : Message}
    (hm : w.writing = some m) : ∃ rest, w.queue = m :: rest := by
  have hf := hw.front m hm
  cases hq : w.queue with
  | nil =>
    rw [hq] at hf
    cases hf
  | cons a rest =>
    rw [hq] at hf
    exact ⟨rest, by rw [Option.some.inj hf]⟩

/-- Without a pending write there is nothing to write, unless a write failed. -/
theorem Sending.queue_eq_nil {w : WebsocketSession} (hw : Sending w) (hn : w.writing = none)
    (hb : w.broken = false) : w.queue = [] := by
  by_contra hq
  have hbusy : w.writing.isSome = true := hw.sound.busy.mpr ⟨hq, hb⟩
  rw [hn] at hbusy
  cases hbusy

/-- The handlers of the reading side leave the send side alone. -/
theorem Sending.of_eq {w w' : WebsocketSession} (hw : Sending w) (hq : w'.queue = w.queue)
    (hm : w'.writing = w.writing) (hwr : w'.written = w.written) (hb : w'.broken = w.broken) :
    Sending w' := by
  have hp : w'.pipeline = w.pipeline := by
    unfold WebsocketSession.pipeline
    rw [hq, hm, hwr, hb]
  refine ⟨by rw [hp]; exact hw.sound, ?_⟩
  rw [hq, hm]
  exact hw.front

/-- `on_send` is a push. -/
theorem onSend_refines {w : WebsocketSession} (hw : Sending w) (ss : Message) :
    Pipeline.step w.pipeline (.push ss) = some (w.onSend ss).pipeline ∧ Sending (w.onSend ss) := by
  have hstep : Pipeline.step w.pipeline (.push ss) = some (w.onSend ss).pipeline := by
    rw [Pipeline.step_push]
    unfold WebsocketSession.onSend WebsocketSession.pipeline
    cases hq : w.queue with
    | nil => simp
    | cons a rest => simp
  refine ⟨hstep, Pipeline.step_sound _ _ _ hw.sound hstep, ?_⟩
  intro m hm
  unfold WebsocketSession.onSend at hm ⊢
  cases hq : w.queue with
  | nil =>
    rw [hq] at hm
    simpa using hm
  | cons a rest =>
    have hm' : w.writing = some m := by
      rw [hq] at hm
      simpa using hm
    simpa [hq] using hw.front m hm'

/-- `on_write` ends the write of the front, and starts the next if there is one. -/
theorem onWrite_refines {w : WebsocketSession} (hw : Sending w) {m : Message}
    (hm : w.writing = some m) (ec : Bool) :
    Pipeline.step w.pipeline (if ec then .fail else .complete) = some (w.onWrite m ec).pipeline ∧
      Sending (w.onWrite m ec) := by
  obtain ⟨rest, hq⟩ := hw.queue_of_writing hm
  have hstep : Pipeline.step w.pipeline (if ec then .fail else .complete) =
      some (w.onWrite m ec).pipeline := by
    unfold WebsocketSession.onWrite WebsocketSession.pipeline Pipeline.step
    cases ec with
    | true => simp [hm]
    | false => cases rest <;> simp [hm, hq]
  refine ⟨hstep, Pipeline.step_sound _ _ _ hw.sound hstep, ?_⟩
  intro m' hm'
  unfold WebsocketSession.onWrite at hm' ⊢
  cases ec with
  | true => simp at hm'
  | false => simpa using hm'

end AsioLearn.WebSocket
