import AsioLearn.MsgNode
import AsioLearn.Lib.Loop

/-!
# `BoostCoServer`: the receive side of `CSession` (`CSession.cc`)

The coroutine `CSession::Start` spawns: a loop that reads a header with one `async_read`, the
payload with another, and posts the message. `Conn` is its state together with the bytes the peer
has sent and the socket has not yet given out.

* `async_read` completes when the buffer is full, at once for an empty buffer, with the number of
  bytes read. When the bytes run out first, the coroutine stays suspended in it, the bytes that
  came already in the buffer (`Exit.reading`). What happens when the stream then ends is
  `resumeAtEof`: the read raises.
* `new char[max_len + 1]` leaves the block of a message node what it was: `heap k` for the node
  that is made after `k` messages were posted.
* The `catch` block closes the socket and clears the session. `_socket.close()` may throw there
  (`closeThrows`); `detached` then drops the exception. A `close()` that throws has let go of the
  descriptor, so where the loop body has called `Close()` already the `catch` block finds nothing
  to close.
* A second thread can set `_b_close` only through a failed write. The loop tests it; here it is set
  by this coroutine alone.
-/

namespace AsioLearn.BoostCoServer

open AsioLearn.Cpp AsioLearn.Wire AsioLearn.Lib

/-- The receive side of `CSession`, and what it has done to the server. -/
structure Session where
  bClose : Bool
  recvMsgNode : Option RecvNode
  recvHeadNode : MsgNode
  /-- The nodes passed to `PostMsgToQue`, in order. -/
  posted : List RecvNode
  /-- `ClearSession(_uuid)` has been called. -/
  cleared : Bool
  deriving DecidableEq, Repr

/-- What becomes of the coroutine: suspended in an `async_read`, ended, or undefined. -/
inductive Exit where
  | reading (s : Session)
  | ended (s : Session)
  | undefined (s : Session)
  deriving DecidableEq, Repr

/-- The session and the bytes still to be read. -/
structure Conn where
  session : Session
  input : List UInt8
  deriving DecidableEq, Repr

/-- `_server->ClearSession(_uuid)`. -/
def Session.clearSession (s : Session) : Session := { s with cleared := true }

/-- `Close(); _server->ClearSession(_uuid);`, the `catch` block. -/
def Session.catchBlock (closeThrows : Bool) (s : Session) : Exit :=
  if closeThrows then .ended s else .ended { s with bClose := true }.clearSession

/-- Run a statement: an exception goes to the `catch` block. -/
def Session.attempt {α : Type} (closeThrows : Bool) (s : Session) :
    Except Fault α → Except Exit α
  | .ok a => .ok a
  | .error .badArrayNewLength => .error (s.catchBlock closeThrows)
  | .error .outOfBounds => .error (.undefined s)

/-- `n == 0`: `this->Close(); _server->ClearSession(_uuid); co_return;`. If `Close` throws, the
`catch` block calls it again and goes on to `ClearSession`. -/
def Session.peerClosed (s : Session) : Exit := .ended { s with bClose := true }.clearSession

/-- What `co_await async_read(…)` comes to: `n` bytes read and the bytes after them, or the
coroutine waiting with what has come so far. -/
inductive ReadResult where
  | done (mem : List UInt8) (n : Nat) (input : List UInt8)
  | waiting (mem : List UInt8)
  deriving DecidableEq, Repr

/-- `async_read` into the `n` bytes at the front of `mem`. -/
def asyncRead (mem : List UInt8) (n : Nat) (input : List UInt8) : Except Fault ReadResult :=
  if mem.length < n then .error .outOfBounds
  else if n ≤ input.length then .ok (.done (input.take n ++ mem.drop n) n (input.drop n))
  else .ok (.waiting (input ++ mem.drop input.length))

/-- `CSession::CSession`. -/
def Session.new (init : Nat → UInt8) : Except Fault Session := do
  let head ← MsgNode.new init (short headTotalLen)
  pure ⟨false, none, head, [], false⟩

/-- The second half of a pass: the payload behind a header within the bounds. -/
def readPayload (heap : Nat → Nat → UInt8) (closeThrows : Bool) (s : Session)
    (msgId msgLen : Int16) (input : List UInt8) : Except Exit Conn := do
  let node ← s.attempt closeThrows (RecvNode.new (heap s.posted.length) msgLen msgId)
  match ← s.attempt closeThrows (asyncRead node.data (sizeT node.totalLen.toInt) input) with
  | .waiting data => throw (.reading { s with recvMsgNode := some { node with data } })
  | .done data n input =>
    let s := { s with recvMsgNode := some { node with data } }
    -- the number of bytes read is also the sign that the peer has closed
    if n = 0 then throw (s.peerClosed)
    else
      let data ← s.attempt closeThrows (store data n 0)
      let node := { node with data }
      pure ⟨{ s with recvMsgNode := some node, posted := s.posted ++ [node] }, input⟩

/-- One pass of the loop. -/
def loopBody (heap : Nat → Nat → UInt8) (closeThrows : Bool) (c : Conn) : Except Exit Conn := do
  let s := c.session
  let head ← s.attempt closeThrows s.recvHeadNode.clear
  let s := { s with recvHeadNode := head }
  match ← s.attempt closeThrows (asyncRead head.data headTotalLen c.input) with
  | .waiting data => throw (.reading { s with recvHeadNode := { head with data } })
  | .done data n input =>
    let s := { s with recvHeadNode := { head with data } }
    if n = 0 then throw (s.peerClosed)
    else
      let msgId ← s.attempt closeThrows (loadShort data 0)
      if (maxLength : Int) < msgId.toInt then throw (.ended s.clearSession)
      else
        let msgLen ← s.attempt closeThrows (loadShort data headIdLen)
        if (maxLength : Int) < msgLen.toInt then throw (.ended s.clearSession)
        else readPayload heap closeThrows s msgId msgLen input

/-- `!_b_close`. -/
def loopCond (c : Conn) : Bool := !c.session.bClose

/-- The coroutine, on the bytes the peer sends. `none` would be a loop that does not end. -/
def start (heap : Nat → Nat → UInt8) (closeThrows : Bool) (s : Session) (input : List UInt8) :
    Option Exit :=
  match Loop.iterate loopCond (loopBody heap closeThrows) (input.length + 1) ⟨s, input⟩ with
  | none => none
  | some (.ok c) => some (.ended c.session)
  | some (.error e) => some e

/-- The stream ends under a suspended `async_read`, which raises. -/
def Exit.resumeAtEof (closeThrows : Bool) : Exit → Exit
  | .reading s => s.catchBlock closeThrows
  | e => e

def Exit.session : Exit → Session
  | .reading s => s
  | .ended s => s
  | .undefined s => s

def Exit.outcome : Exit → Outcome
  | .undefined _ => .undefined
  | .reading _ => .reading
  | .ended s => if s.cleared then .cleared else .stranded

/-- What `DealMsg` hands to a callback: the id and `std::string(_data, _total_len)`. -/
def view (n : RecvNode) : Post := (n.msgId, n.data.take (sizeT n.totalLen.toInt))

/-- The messages posted. -/
def Session.posts (s : Session) : List Post := s.posted.map view

end AsioLearn.BoostCoServer
