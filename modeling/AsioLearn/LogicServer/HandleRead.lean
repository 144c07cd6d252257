import AsioLearn.MsgNode
import AsioLearn.Lib.Loop

/-!
# `logicServer`: the receive side of `CSession` (`CSession.cc`)

`CSession::HandleRead` as it stands: the loop over the bytes of one read, the state it keeps
between reads, and every way out of it. `Session` holds the members the receive side touches,
together with what it does to the rest of the server: the `async_read_some` operations armed and
not yet completed, the nodes passed to `PostMsgToQue`, and whether `ClearSession(_uuid)` was
called.

* `Cursor` is the state at the head of `while (bytes_transferred > 0)`; `loopBody` is one pass,
  `readHead` and `readBody` are its two halves (`_b_head_parse` false and true). `openMsg` is
  `readHead` from the allocation of `_recv_msg_node` on, and `finish` is the end both halves
  share, from `PostMsgToQue` on.
* `bytes_transferred` is a `size_t`: the comparisons with shorts and ints convert those to
  `size_t`, and the subtractions wrap around.
* `memset(_data, 0, MAX_LENGTH)` precedes every `async_read_some`, so a completed read of `xs`
  leaves `_data` at `xs` and zeros (`Session.deliver`).
* An exception thrown in the body ends in the `catch` block, which only prints (`Exit.caught`). An
  access outside a block is undefined behaviour (`Exit.undefined`), and a run ends there.
* `_socket.close()` closes the descriptor in any case and may still throw: `closeThrows`.

The partial-header path (`readHead`, first branch) copies the bytes but leaves
`_recv_head_node->_cur_len` as it is.
-/

namespace AsioLearn.LogicServer

open AsioLearn.Cpp AsioLearn.Wire AsioLearn.Lib

/-- The receive side of `CSession`, and what it has done to the server. -/
structure Session where
  data : List UInt8
  recvMsgNode : Option RecvNode
  bHeadParse : Bool
  recvHeadNode : MsgNode
  bClose : Bool
  /-- `async_read_some` operations started and not completed. -/
  armed : Nat
  /-- The nodes passed to `PostMsgToQue`, in order. -/
  posted : List RecvNode
  /-- `ClearSession(_uuid)` has been called. -/
  cleared : Bool
  deriving DecidableEq, Repr

/-- How a call of `HandleRead` ends. -/
inductive Exit where
  | returned (s : Session)
  | caught (s : Session)
  | undefined (s : Session)
  deriving DecidableEq, Repr

/-- `new char[n]()`. -/
def zeros : Nat → UInt8 := fun _ => 0

/-- The state at the head of the loop. -/
structure Cursor where
  session : Session
  copyLen : Int
  bytesTransferred : Nat
  deriving DecidableEq, Repr

/-- Run a statement: an exception goes to the `catch` block. -/
def Session.attempt {α : Type} (s : Session) : Except Fault α → Except Exit α
  | .ok a => .ok a
  | .error .badArrayNewLength => .error (.caught s)
  | .error .outOfBounds => .error (.undefined s)

/-- `_server->ClearSession(_uuid)`. -/
def Session.clearSession (s : Session) : Session := { s with cleared := true }

/-- `memset(_data, 0, MAX_LENGTH); _socket.async_read_some(…)`. -/
def Session.asyncReadSome (s : Session) : Except Fault Session := do
  let data ← memset s.data maxLength
  pure { s with data, armed := s.armed + 1 }

/-- `CSession::CSession`; `data` is what the uninitialised array `_data` holds. -/
def Session.new (data : List UInt8) : Except Fault Session := do
  let head ← MsgNode.new zeros (short headTotalLen)
  pure ⟨data, none, false, head, false, 0, [], false⟩

/-- `CSession::Start`. -/
def Session.start (s : Session) : Except Fault Session := s.asyncReadSome

/-! ## `CSession::HandleRead` -/

/-- The end of a message: `PostMsgToQue`, back to header parsing, and the next read if this one is
used up. -/
def finish (s : Session) (node : RecvNode) (copyLen : Int) (bytesTransferred : Nat) :
    Except Exit Cursor := do
  let s := { s with posted := s.posted ++ [node], bHeadParse := false }
  let head ← s.attempt s.recvHeadNode.clear
  let s := { s with recvHeadNode := head }
  if bytesTransferred ≤ 0 then
    let s ← s.attempt s.asyncReadSome
    throw (.returned s)
  else
    pure ⟨s, copyLen, bytesTransferred⟩

/-- The header is complete and within the bounds: a new `_recv_msg_node`, filled as far as this
read goes. -/
def openMsg (s : Session) (msgId msgLen : Int16) (copyLen : Int) (bytesTransferred : Nat) :
    Except Exit Cursor := do
  let node ← s.attempt (RecvNode.new zeros msgLen msgId)
  -- the payload goes on past this read
  if bytesTransferred < sizeT msgLen.toInt then
    let data ← s.attempt (memcpy node.data node.curLen.toInt s.data copyLen bytesTransferred)
    let node := { node with
      data, curLen := short (sizeAdd (sizeT node.curLen.toInt) bytesTransferred) }
    let s ← s.attempt { s with recvMsgNode := some node }.asyncReadSome
    throw (.returned { s with bHeadParse := true })
  else
    let data ← s.attempt
      (memcpy node.data node.curLen.toInt s.data copyLen (sizeT msgLen.toInt))
    let curLen := short (node.curLen.toInt + msgLen.toInt)
    let data ← s.attempt (store data curLen.toInt 0)
    let node := { node with data, curLen }
    finish { s with recvMsgNode := some node } node (copyLen + msgLen.toInt)
      (sizeSub bytesTransferred (sizeT msgLen.toInt))

/-- One pass of the loop with `_b_head_parse` false. -/
def readHead (c : Cursor) : Except Exit Cursor := do
  let s := c.session
  let head := s.recvHeadNode
  -- not even the header is complete: the bytes are copied, `_cur_len` stays
  if sizeAdd c.bytesTransferred (sizeT head.curLen.toInt) < headTotalLen then
    let data ← s.attempt (memcpy head.data head.curLen.toInt s.data c.copyLen c.bytesTransferred)
    let s ← s.attempt { s with recvHeadNode := { head with data } }.asyncReadSome
    throw (.returned s)
  else
    let headRemain : Int := headTotalLen - head.curLen.toInt
    let data ← s.attempt (memcpy head.data head.curLen.toInt s.data c.copyLen (sizeT headRemain))
    let s := { s with recvHeadNode := { head with data } }
    let msgId ← s.attempt (loadShort data 0)
    if (maxLength : Int) < msgId.toInt then
      throw (.returned s.clearSession)
    else
      let msgLen ← s.attempt (loadShort data headIdLen)
      if (maxLength : Int) < msgLen.toInt then
        throw (.returned s.clearSession)
      else
        openMsg s msgId msgLen (c.copyLen + headRemain)
          (sizeSub c.bytesTransferred (sizeT headRemain))

/-- One pass of the loop with `_b_head_parse` true: the payload of `_recv_msg_node` goes on. -/
def readBody (c : Cursor) : Except Exit Cursor := do
  let s := c.session
  match s.recvMsgNode with
  | none => throw (.undefined s)
  | some node =>
    let remainMsg : Int := node.totalLen.toInt - node.curLen.toInt
    if c.bytesTransferred < sizeT remainMsg then
      let data ← s.attempt (memcpy node.data node.curLen.toInt s.data c.copyLen c.bytesTransferred)
      let node := { node with
        data, curLen := short (sizeAdd (sizeT node.curLen.toInt) c.bytesTransferred) }
      let s ← s.attempt { s with recvMsgNode := some node }.asyncReadSome
      throw (.returned s)
    else
      let data ← s.attempt (memcpy node.data node.curLen.toInt s.data c.copyLen (sizeT remainMsg))
      let curLen := short (node.curLen.toInt + remainMsg)
      let data ← s.attempt (store data node.totalLen.toInt 0)
      let node := { node with data, curLen }
      finish { s with recvMsgNode := some node } node (c.copyLen + remainMsg)
        (sizeSub c.bytesTransferred (sizeT remainMsg))

/-- One pass of the loop. -/
def loopBody (c : Cursor) : Except Exit Cursor :=
  if c.session.bHeadParse then readBody c else readHead c

/-- `bytes_transferred > 0`. -/
def loopCond (c : Cursor) : Bool := decide (0 < c.bytesTransferred)

/-- `HandleRead` called without an error: `_data` holds the `bytesTransferred` bytes of the read.
`none` would be a loop that does not end. -/
def handleRead (s : Session) (bytesTransferred : Nat) : Option Exit :=
  match Loop.iterate loopCond loopBody (bytesTransferred + 1) ⟨s, 0, bytesTransferred⟩ with
  | none => none
  | some (.ok c) => some (.returned c.session)
  | some (.error e) => some e

/-- `HandleRead` called with an error: `Close()`, then `ClearSession`. -/
def handleReadError (closeThrows : Bool) (s : Session) : Exit :=
  if closeThrows then .caught s else .returned { s with bClose := true }.clearSession

/-! ## Runs -/

/-- A read completes: its bytes are at the front of `_data`. -/
def Session.deliver (s : Session) (xs : List UInt8) : Session :=
  { s with data := xs ++ s.data.drop xs.length, armed := s.armed - 1 }

/-- Deliver the reads one after the other, as long as one is armed. -/
def runReads (s : Session) : List (List UInt8) → Option Exit
  | [] => some (.returned s)
  | xs :: rest =>
    if s.armed = 0 then some (.returned s)
    else
      match handleRead (s.deliver xs) xs.length with
      | none => none
      | some (.undefined s') => some (.undefined s')
      | some (.returned s') => runReads s' rest
      | some (.caught s') => runReads s' rest

/-- The session as `Start` leaves it. -/
def Session.fresh : Session :=
  ⟨List.replicate maxLength 0, none, false, ⟨List.replicate 5 0, 0, 4⟩, false, 1, [], false⟩

def Exit.session : Exit → Session
  | .returned s => s
  | .caught s => s
  | .undefined s => s

def Exit.outcome : Exit → Outcome
  | .undefined _ => .undefined
  | .returned s | .caught s =>
    if s.cleared then .cleared else if s.armed = 0 then .stranded else .reading

/-- What the logic worker gets from a node: its id and `std::string(_data, _cur_len)`. -/
def view (n : RecvNode) : Post := (n.msgId, n.received)

/-- The messages posted. -/
def Session.posts (s : Session) : List Post := s.posted.map view

/-- The messages posted up to the end of a run. -/
def Exit.posts (e : Exit) : List Post := e.session.posts

/-- The constructor and `Start` lead to the fresh session, whatever `_data` held. -/
theorem start_new {data : List UInt8} (h : data.length = maxLength) :
    (Session.new data >>= Session.start) = .ok Session.fresh := by
  have hhead : MsgNode.new zeros (short headTotalLen) = .ok ⟨List.replicate 5 0, 0, 4⟩ := by decide
  unfold Session.new Session.start Session.asyncReadSome
  rw [hhead]
  simp only [bind, Except.bind, pure, Except.pure, memset_ok h.ge, List.drop_of_length_le h.le,
    List.append_nil]
  rfl

end AsioLearn.LogicServer
