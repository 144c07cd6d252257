import Mathlib.Data.List.Forall2
import AsioLearn.Wire

/-!
# Message nodes (`MsgNode.h`, `MsgNode.cc`)

The buffers of both servers: `MsgNode`, `RecvNode` and `SendNode`. The two copies of the file
differ in one point: `logicServer` allocates `new char[_total_len + 1]()`, zero-initialised, and
`BoostCoServer` allocates `new char[max_len + 1]`, which leaves the bytes what they were. The
constructors take the first contents of the block as `init`.

* `_total_len` and `_cur_len` are shorts, so the length `max_len + HEAD_TOTAL_LEN` of a `SendNode`
  goes through `short`.
* A constructor that throws leaves no node behind.
* Destructors (`delete[]`, or nothing at all in `BoostCoServer`) are not modelled: no node is
  read after its last owner let it go.

Results:
* `MsgNode.new_ok`, `MsgNode.new_throws`, `MsgNode.new_minus_one`: what the constructor does with
  each length. At `-1` the block has no bytes and the terminator is written in front of it.
* `sendNode_ok`: for lengths `0` to `32763` a `SendNode` holds the header and the bytes it was
  given; `sendNode_throws` and `sendNode_outOfBounds` are the other lengths. `sendNode_cases` says
  so of any constructor that returns.
* `sendNode_frame`, `sendNodes_eq`: within the wire bounds the bytes of a `SendNode` are
  `Frame.bytes`.
* `forall₂_admitted`: the arguments of a `Send` make a node exactly when they are `Buildable`.
-/

namespace AsioLearn

open AsioLearn.Cpp AsioLearn.Wire

/-- `MsgNode`: `data` is the allocation behind `_data`. -/
structure MsgNode where
  data : List UInt8
  curLen : Int16
  totalLen : Int16
  deriving DecidableEq, Repr

/-- `RecvNode`. -/
structure RecvNode extends MsgNode where
  msgId : Int16
  deriving DecidableEq, Repr

/-- `SendNode`. -/
structure SendNode extends MsgNode where
  msgId : Int16
  deriving DecidableEq, Repr

/-- An `async_write` of a node and the bytes it was given. -/
structure Write where
  node : SendNode
  bytes : List UInt8
  deriving DecidableEq, Repr

/-- `MsgNode::MsgNode(short max_len)`. -/
def MsgNode.new (init : Nat → UInt8) (maxLen : Int16) : Except Fault MsgNode := do
  let data ← newChars init (maxLen.toInt + 1)
  let data ← store data maxLen.toInt 0
  pure ⟨data, 0, maxLen⟩

/-- `MsgNode::Clear`. -/
def MsgNode.clear (n : MsgNode) : Except Fault MsgNode := do
  let data ← memset n.data (sizeT n.totalLen.toInt)
  pure { n with data, curLen := 0 }

/-- `RecvNode::RecvNode(short max_len, short msg_id)`. -/
def RecvNode.new (init : Nat → UInt8) (maxLen msgId : Int16) : Except Fault RecvNode := do
  let n ← MsgNode.new init maxLen
  pure ⟨n, msgId⟩

/-- `SendNode::SendNode(const char *msg, short max_len, short msg_id)`; `msg` is what may be read
from the pointer. -/
def SendNode.new (init : Nat → UInt8) (msg : List UInt8) (maxLen msgId : Int16) :
    Except Fault SendNode := do
  let n ← MsgNode.new init (short (maxLen.toInt + headTotalLen))
  let data ← memcpy n.data 0 (hostToNetworkShort msgId) 0 headIdLen
  let data ← memcpy data headIdLen (hostToNetworkShort maxLen) 0 headDataLen
  let data ← memcpy data (headIdLen + headDataLen) msg 0 (sizeT maxLen.toInt)
  pure ⟨{ n with data }, msgId⟩

/-- `boost::asio::buffer(node->_data, node->_total_len)`: the bytes a write of the whole node hands
to the socket. -/
def MsgNode.buffer (n : MsgNode) : List UInt8 := n.data.take (sizeT n.totalLen.toInt)

/-- The bytes of a node received so far, `_data[0.._cur_len)`. -/
def MsgNode.received (n : MsgNode) : List UInt8 := n.data.take (sizeT n.curLen.toInt)

/-! ## Constructors, by length -/

theorem sizeT_short {x : Int16} (h : 0 ≤ x.toInt) : sizeT x.toInt = x.toInt.toNat :=
  sizeT_of_nonneg h (by have := x.toInt_lt; omega)

theorem MsgNode.new_ok {init : Nat → UInt8} {maxLen : Int16} (h : 0 ≤ maxLen.toInt) :
    MsgNode.new init maxLen =
      .ok ⟨((List.range (maxLen.toInt.toNat + 1)).map init).set maxLen.toInt.toNat 0, 0,
        maxLen⟩ := by
  have htoNat : (maxLen.toInt + 1).toNat = maxLen.toInt.toNat + 1 := by omega
  unfold MsgNode.new
  rw [newChars_ok (by omega), htoNat]
  simp only [bind, Except.bind]
  rw [store_ok h (by rw [List.length_map, List.length_range]; omega)]
  rfl

/-- A length below `-1` makes the allocation throw. -/
theorem MsgNode.new_throws {init : Nat → UInt8} {maxLen : Int16} (h : maxLen.toInt < -1) :
    MsgNode.new init maxLen = .error .badArrayNewLength := by
  unfold MsgNode.new
  rw [newChars_neg (by omega)]
  rfl

/-- At `-1` the terminator is stored one byte in front of an empty block. -/
theorem MsgNode.new_minus_one {init : Nat → UInt8} {maxLen : Int16} (h : maxLen.toInt = -1) :
    MsgNode.new init maxLen = .error .outOfBounds := by
  unfold MsgNode.new
  rw [newChars_ok (by omega)]
  simp only [bind, Except.bind]
  rw [store_neg (by omega)]

theorem RecvNode.new_error {init : Nat → UInt8} {maxLen msgId : Int16} {e : Fault}
    (h : MsgNode.new init maxLen = .error e) : RecvNode.new init maxLen msgId = .error e := by
  unfold RecvNode.new
  rw [h]
  rfl

theorem RecvNode.new_ok {init : Nat → UInt8} {maxLen msgId : Int16} (h : 0 ≤ maxLen.toInt) :
    ∃ n : RecvNode, RecvNode.new init maxLen msgId = .ok n ∧ n.curLen = 0 ∧
      n.totalLen = maxLen ∧ n.msgId = msgId ∧ n.data.length = maxLen.toInt.toNat + 1 := by
  unfold RecvNode.new
  rw [MsgNode.new_ok h]
  exact ⟨_, rfl, rfl, rfl, rfl, by simp⟩

/-- `Clear` on a node whose block is as long as its constructor made it. -/
theorem MsgNode.clear_ok {n : MsgNode} (h0 : 0 ≤ n.totalLen.toInt)
    (h : n.data.length = n.totalLen.toInt.toNat + 1) :
    ∃ data, n.clear = .ok ⟨data, 0, n.totalLen⟩ ∧ data.length = n.data.length ∧
      data.take n.totalLen.toInt.toNat = List.replicate n.totalLen.toInt.toNat 0 := by
  unfold MsgNode.clear
  rw [sizeT_short h0, memset_ok (by omega)]
  refine ⟨_, rfl, ?_, ?_⟩
  · simp only [List.length_append, List.length_replicate, List.length_drop]
    omega
  · rw [List.take_append_of_le_length (by simp), List.take_of_length_le (by simp)]

/-! ## The nodes of a session -/

/-- A header node as `CSession` makes it, empty as far as `_cur_len` says. -/
structure HeadNode (n : MsgNode) : Prop where
  total : n.totalLen = 4
  cur : n.curLen = 0
  length : n.data.length = 5

/-- A message node of a length the receivers accept, with the block its constructor makes. -/
structure RecvNode.InBounds (n : RecvNode) : Prop where
  nonneg : 0 ≤ n.totalLen.toInt
  le : n.totalLen.toInt ≤ maxLength
  length : n.data.length = n.totalLen.toInt.toNat + 1

/-- `Clear` on the header node. -/
theorem clear_head {n : MsgNode} (h : HeadNode n) :
    ∃ data, n.clear = .ok ⟨data, 0, 4⟩ ∧ data.length = 5 ∧
      data.take headTotalLen = List.replicate headTotalLen 0 := by
  have h4 : (4 : Int16).toInt = 4 := by decide
  have htot : n.totalLen.toInt = 4 := by rw [h.total, h4]
  obtain ⟨data, hd, hlen, hzero⟩ :=
    @MsgNode.clear_ok n (by omega) (by rw [h.length]; omega)
  rw [htot] at hzero
  exact ⟨data, by rw [hd, h.total], hlen.trans h.length, hzero⟩

theorem head_new {init : Nat → UInt8} :
    ∃ n, MsgNode.new init (short headTotalLen) = .ok n ∧ HeadNode n := by
  have h4 : (short headTotalLen).toInt = 4 := rfl
  exact ⟨_, MsgNode.new_ok (by omega), rfl, rfl, by simp [h4]⟩

/-- A constructor that returns has made a node within the bounds, if the length is not too big. -/
theorem RecvNode.inBounds_of_new {init : Nat → UInt8} {maxLen msgId : Int16} {n : RecvNode}
    (hle : maxLen.toInt ≤ maxLength) (h : RecvNode.new init maxLen msgId = .ok n) :
    n.InBounds ∧ n.curLen = 0 ∧ n.totalLen = maxLen := by
  by_cases h0 : 0 ≤ maxLen.toInt
  · obtain ⟨n', hn', hcur, htot, -, hlen⟩ := @RecvNode.new_ok init maxLen msgId h0
    obtain rfl := Except.ok.inj (h.symm.trans hn')
    exact ⟨⟨by rw [htot]; exact h0, by rw [htot]; exact hle, by rw [htot]; exact hlen⟩, hcur, htot⟩
  · exfalso
    by_cases h1 : maxLen.toInt = -1
    · rw [RecvNode.new_error (MsgNode.new_minus_one h1)] at h
      cases h
    · rw [RecvNode.new_error (MsgNode.new_throws (by omega))] at h
      cases h

/-! ## `SendNode` -/

/-- Lengths whose sum with the header is still a `short`, with enough bytes behind the pointer. -/
theorem sendNode_ok {init : Nat → UInt8} {msg : List UInt8} {maxLen msgId : Int16}
    (h0 : 0 ≤ maxLen.toInt) (h1 : maxLen.toInt + headTotalLen < 2 ^ 15)
    (hm : maxLen.toInt.toNat ≤ msg.length) :
    ∃ n : SendNode, SendNode.new init msg maxLen msgId = .ok n ∧ n.curLen = 0 ∧
      n.totalLen.toInt = maxLen.toInt + headTotalLen ∧ n.msgId = msgId ∧
      n.buffer = hostToNetworkShort msgId ++ hostToNetworkShort maxLen
        ++ msg.take maxLen.toInt.toNat := by
  have h4 : (headTotalLen : Int) = 4 := rfl
  have htot : (short (maxLen.toInt + headTotalLen)).toInt = maxLen.toInt + headTotalLen :=
    short_toInt (by omega) h1
  unfold SendNode.new
  rw [MsgNode.new_ok (by omega)]
  set block := ((List.range ((short (maxLen.toInt + headTotalLen)).toInt.toNat + 1)).map init).set
    (short (maxLen.toInt + headTotalLen)).toInt.toNat 0 with hblock
  have hlen : block.length = maxLen.toInt.toNat + 5 := by
    simp only [hblock, List.length_set, List.length_map, List.length_range, htot]
    omega
  have hid := hostToNetworkShort_length msgId
  have hln := hostToNetworkShort_length maxLen
  -- the three copies fill the block from its front: id, length, payload
  have m1 : memcpy block 0 (hostToNetworkShort msgId) (0 : Nat) 2 =
      .ok (hostToNetworkShort msgId ++ block.drop 2) := by
    refine (@memcpy_append [] block (hostToNetworkShort msgId) 0 2 (by omega) (by omega)).trans ?_
    rw [List.drop_zero, List.take_of_length_le (by omega), List.nil_append]
  have m2 : memcpy (hostToNetworkShort msgId ++ block.drop 2) 2 (hostToNetworkShort maxLen)
      (0 : Nat) 2 =
      .ok (hostToNetworkShort msgId ++ hostToNetworkShort maxLen ++ block.drop 4) := by
    refine (memcpy_append (by rw [List.length_drop]; omega) (by omega)).trans ?_
    rw [List.drop_zero, List.take_of_length_le (by omega), List.drop_drop]
  have m3 : memcpy (hostToNetworkShort msgId ++ hostToNetworkShort maxLen ++ block.drop 4) 4 msg
      (0 : Nat) maxLen.toInt.toNat =
      .ok (hostToNetworkShort msgId ++ hostToNetworkShort maxLen ++ msg.take maxLen.toInt.toNat
        ++ (block.drop 4).drop maxLen.toInt.toNat) :=
    memcpy_append (by rw [List.length_drop]; omega) (by omega)
  simp only [bind, Except.bind, pure, Except.pure, headIdLen, headDataLen, sizeT_short h0,
    Nat.cast_ofNat, Nat.cast_zero, Int.reduceAdd] at m1 m2 m3 ⊢
  rw [m1]
  simp only [m2, m3]
  refine ⟨_, rfl, rfl, htot, rfl, ?_⟩
  have hfill : (hostToNetworkShort msgId ++ hostToNetworkShort maxLen
      ++ msg.take maxLen.toInt.toNat).length = maxLen.toInt.toNat + 4 := by
    simp only [List.length_append, hid, hln, List.length_take]
    omega
  simp only [MsgNode.buffer]
  rw [sizeT_short (by omega), htot, List.take_append_of_le_length (by omega),
    List.take_of_length_le (by omega)]

/-- Past `32763` the sum with the header wraps around to a negative block size. -/
theorem sendNode_throws {init : Nat → UInt8} {msg : List UInt8} {maxLen msgId : Int16}
    (h : maxLen.toInt + headTotalLen < -1 ∨ 2 ^ 15 ≤ maxLen.toInt + headTotalLen) :
    SendNode.new init msg maxLen msgId = .error .badArrayNewLength := by
  have h4 : (headTotalLen : Int) = 4 := rfl
  have hlo := maxLen.le_toInt
  have hhi := maxLen.toInt_lt
  have hneg : (short (maxLen.toInt + headTotalLen)).toInt < -1 := by
    rw [short_toInt_eq]
    omega
  unfold SendNode.new
  rw [MsgNode.new_throws hneg]
  rfl

/-- A negative length whose block can still be allocated: the terminator, the header or the
payload is written outside it. -/
theorem sendNode_outOfBounds {init : Nat → UInt8} {msg : List UInt8} {maxLen msgId : Int16}
    (h0 : -1 ≤ maxLen.toInt + headTotalLen) (h1 : maxLen.toInt < 0) :
    SendNode.new init msg maxLen msgId = .error .outOfBounds := by
  have h4 : (headTotalLen : Int) = 4 := rfl
  have htot : (short (maxLen.toInt + headTotalLen)).toInt = maxLen.toInt + headTotalLen :=
    short_toInt (by omega) (by omega)
  have hsize : 2 ^ 63 ≤ sizeT maxLen.toInt := sizeT_of_neg h1 (by omega)
  unfold SendNode.new
  by_cases hm : maxLen.toInt + headTotalLen = -1
  · rw [MsgNode.new_minus_one (by rw [htot]; exact hm)]
    rfl
  · rw [MsgNode.new_ok (by omega)]
    simp only [bind, Except.bind]
    split
    · rename_i e he
      exact congrArg _ (memcpy_error he)
    · rename_i data₁ h₁
      split
      · rename_i e he
        exact congrArg _ (memcpy_error he)
      · rename_i data₂ h₂
        have hlen := (memcpy_length h₂).trans (memcpy_length h₁)
        simp only [List.length_set, List.length_map, List.length_range] at hlen
        rw [memcpy_overrun (by omega)]

/-- Fewer bytes behind the pointer than `max_len`: the last copy reads past them. -/
theorem sendNode_overread {init : Nat → UInt8} {msg : List UInt8} {maxLen msgId : Int16}
    (h0 : 0 ≤ maxLen.toInt) (h1 : maxLen.toInt + headTotalLen < 2 ^ 15)
    (hm : msg.length < maxLen.toInt.toNat) :
    SendNode.new init msg maxLen msgId = .error .outOfBounds := by
  have h4 : (headTotalLen : Int) = 4 := rfl
  have htot : (short (maxLen.toInt + headTotalLen)).toInt = maxLen.toInt + headTotalLen :=
    short_toInt (by omega) h1
  unfold SendNode.new
  rw [MsgNode.new_ok (by omega)]
  simp only [bind, Except.bind]
  split
  · rename_i e he
    exact congrArg _ (memcpy_error he)
  · split
    · rename_i e he
      exact congrArg _ (memcpy_error he)
    · rw [sizeT_short h0, memcpy_overread (by omega)]

/-- **What a constructor that returns was given, and what it made.** -/
theorem sendNode_cases {init : Nat → UInt8} {msg : List UInt8} {maxLen msgId : Int16}
    {n : SendNode} (h : SendNode.new init msg maxLen msgId = .ok n) :
    0 ≤ maxLen.toInt ∧ maxLen.toInt + headTotalLen < 2 ^ 15 ∧ maxLen.toInt.toNat ≤ msg.length ∧
      n.curLen = 0 ∧ n.totalLen.toInt = maxLen.toInt + headTotalLen ∧
      n.buffer = hostToNetworkShort msgId ++ hostToNetworkShort maxLen
        ++ msg.take maxLen.toInt.toNat := by
  have h0 : 0 ≤ maxLen.toInt := by
    by_contra hneg
    by_cases hlow : maxLen.toInt + headTotalLen < -1
    · rw [sendNode_throws (Or.inl hlow)] at h
      cases h
    · rw [sendNode_outOfBounds (by omega) (by omega)] at h
      cases h
  have h1 : maxLen.toInt + headTotalLen < 2 ^ 15 := by
    by_contra hbig
    rw [sendNode_throws (Or.inr (not_lt.mp hbig))] at h
    cases h
  have hm : maxLen.toInt.toNat ≤ msg.length := by
    by_contra hshort
    rw [sendNode_overread h0 h1 (not_le.mp hshort)] at h
    cases h
  obtain ⟨n', hn', hcur, htot, -, hbuf⟩ := @sendNode_ok init msg maxLen msgId h0 h1 hm
  obtain rfl := Except.ok.inj (h.symm.trans hn')
  exact ⟨h0, h1, hm, hcur, htot, hbuf⟩

/-- **Within the wire bounds a `SendNode` is its frame.** -/
theorem sendNode_frame (init : Nat → UInt8) (f : Frame) :
    ∃ n : SendNode, SendNode.new init f.payload f.len f.id = .ok n ∧ n.curLen = 0 ∧
      n.buffer = f.bytes := by
  have hlen : f.payload.length ≤ 2048 := f.length_le
  have h4 : (headTotalLen : Int) = 4 := rfl
  have hnat : f.len.toInt.toNat = f.payload.length := by rw [f.len_toInt, Int.toNat_natCast]
  obtain ⟨n, hn, hcur, -, -, hbuf⟩ := @sendNode_ok init f.payload f.len f.id
    (by rw [f.len_toInt]; omega) (by rw [f.len_toInt]; omega) hnat.le
  refine ⟨n, hn, hcur, hbuf.trans ?_⟩
  rw [hnat, List.take_length]
  rfl

/-- The bytes of the `SendNode`s of a list of messages, one after the other; `heap k` is what the
block of the node with `k` messages behind it was found to hold. -/
def sendNodes (heap : Nat → Nat → UInt8) : List Frame → Except Fault (List UInt8)
  | [] => .ok []
  | f :: fs => do
    let n ← SendNode.new (heap fs.length) f.payload (short f.payload.length) f.id
    let rest ← sendNodes heap fs
    pure (n.buffer ++ rest)

theorem sendNodes_eq (heap : Nat → Nat → UInt8) (fs : List Frame) :
    sendNodes heap fs = .ok (fs.flatMap Frame.bytes) := by
  induction fs with
  | nil => rfl
  | cons f fs ih =>
    obtain ⟨n, hn, -, hbuf⟩ := sendNode_frame (heap fs.length) f
    have hn' : SendNode.new (heap fs.length) f.payload (short f.payload.length) f.id = .ok n := hn
    unfold sendNodes
    rw [hn', ih]
    simp only [bind, Except.bind, pure, Except.pure, hbuf, List.flatMap_cons]

/-! ## What a `Send` is given -/

/-- A length whose sum with the header is a `short`, with enough bytes behind the pointer. -/
def Buildable (p : List UInt8 × Int16) : Prop :=
  0 ≤ p.2.toInt ∧ p.2.toInt + headTotalLen < 2 ^ 15 ∧ p.2.toInt.toNat ≤ p.1.length

instance : DecidablePred Buildable := fun _ => inferInstanceAs (Decidable (_ ∧ _ ∧ _))

/-- The arguments of a `Send`: what may be read from the pointer, `max_length` and `msgid`. -/
structure SendArgs where
  msg : List UInt8
  maxLength : Int16
  msgid : Int16
  deriving DecidableEq, Repr

/-- What the overload for strings gives to the other: the length as a `short`, and `c_str()`, which
ends in a zero. -/
def SendArgs.ofString (msg : List UInt8) (msgid : Int16) : SendArgs :=
  ⟨msg ++ [0], short msg.length, msgid⟩

/-- The constructor makes the node of the arguments. -/
def SendArgs.Makes (a : SendArgs) (n : SendNode) : Prop :=
  ∃ init, SendNode.new init a.msg a.maxLength a.msgid = .ok n

/-- The arguments that a queue of `queued` nodes takes in: there is room, and a node can be
built. -/
def admitted (queued : Nat) (as : List SendArgs) : List SendArgs :=
  if maxSendque < queued then [] else as.filter fun a => Buildable (a.msg, a.maxLength)

/-- **A node is made of exactly the arguments that are taken in.** -/
theorem forall₂_admitted (init : Nat → UInt8) (queued : Nat) (a : SendArgs) :
    List.Forall₂ SendArgs.Makes (admitted queued [a])
      (if maxSendque < queued then []
        else (SendNode.new init a.msg a.maxLength a.msgid).toOption.toList) := by
  unfold admitted
  split_ifs with hfull
  · exact .nil
  by_cases hbuild : Buildable (a.msg, a.maxLength)
  · obtain ⟨n, hn, -⟩ := @sendNode_ok init a.msg a.maxLength a.msgid hbuild.1 hbuild.2.1 hbuild.2.2
    have hall : ([a].filter fun a => Buildable (a.msg, a.maxLength)) = [a] := by simp [hbuild]
    rw [hall, hn]
    exact .cons ⟨init, hn⟩ .nil
  · have hnone : ([a].filter fun a => Buildable (a.msg, a.maxLength)) = [] := by simp [hbuild]
    rw [hnone]
    cases hn : SendNode.new init a.msg a.maxLength a.msgid with
    | error e => exact .nil
    | ok n =>
      obtain ⟨h0, h1, hm, -⟩ := sendNode_cases hn
      exact absurd ⟨h0, h1, hm⟩ hbuild

end AsioLearn
