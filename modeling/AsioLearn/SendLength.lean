import AsioLearn.LogicServer.SendQueue
import AsioLearn.BoostCoServer.SendQueue

/-!
# The length arithmetic of `Send`

`Send(text, id)` of either server turns the length of the text into a `short`, and the constructor
of the `SendNode` adds the header to that and makes it a `short` again. Each server's `narrowed`
lists the values that go through such a conversion, in order. `BoostCoServer` converts the length
before it looks at the queue, on calling the other overload; `logicServer` only behind the test.

Results: `logic_sendExact_iff`, `boost_sendExact_iff` and, for both, `send_length_iff`: a call
leaves the queue as it is or enqueues the text whole, with no conversion changing its value,
exactly when the text is at most `sendLimit` bytes long or the queue is over the limit.
-/

namespace AsioLearn

open AsioLearn.Cpp AsioLearn.Wire

/-- The longest text whose length with the header is still a `short`. -/
def sendLimit : Nat := 32763

/-- The values `Send(text, id)` of `logicServer` converts to `short`. -/
def LogicServer.SendSide.narrowed (s : LogicServer.SendSide) (msg : List UInt8) : List Int :=
  if maxSendque < s.sendQue.length then []
  else [msg.length, (short msg.length).toInt + headTotalLen]

/-- The values `Send(text, id)` of `BoostCoServer` converts to `short`. -/
def BoostCoServer.SendSide.narrowed (s : BoostCoServer.SendSide) (msg : List UInt8) : List Int :=
  msg.length :: if maxSendque < s.sendQue.length then []
    else [(short msg.length).toInt + headTotalLen]

/-- The node is a header with the length of the text, and the text. -/
structure Carries (n : SendNode) (msg : List UInt8) : Prop where
  total : n.totalLen.toInt = msg.length + headTotalLen
  bytes : ∃ b₀ b₁ b₂ b₃, n.buffer = b₀ :: b₁ :: b₂ :: b₃ :: msg ∧
    (networkToHostShort b₂ b₃).toInt = msg.length

/-- A call of `Send` that finds the queue `before`, leaves it `after` (`none`: undefined behaviour)
and converts the values `narrowed` treats the text exactly: it enqueues nothing, or a node that
carries it, and no conversion changes its value. -/
def SendExact (before : List SendNode) (after : Option (List SendNode)) (narrowed : List Int)
    (msg : List UInt8) : Prop :=
  (∃ q, after = some q ∧ (q = before ∨ ∃ n, q = before ++ [n] ∧ Carries n msg)) ∧
    ∀ v ∈ narrowed, (short v).toInt = v

theorem short_toInt_iff {n : Int} : (short n).toInt = n ↔ -2 ^ 15 ≤ n ∧ n < 2 ^ 15 := by
  rw [short_toInt_eq]
  omega

/-- The two conversions keep their values up to the limit. -/
theorem narrowed_exact_iff (length : Nat) :
    ((short length).toInt = length ∧
      (short ((short length).toInt + headTotalLen)).toInt = (short length).toInt + headTotalLen) ↔
    length ≤ sendLimit := by
  have h4 : (headTotalLen : Int) = 4 := rfl
  have hlimit : sendLimit = 32763 := rfl
  constructor
  · rintro ⟨h1, h2⟩
    rw [h1, short_toInt_iff] at h2
    omega
  · intro h
    have h1 : (short length).toInt = length := short_toInt (by omega) (by omega)
    rw [h1]
    exact ⟨rfl, short_toInt (by omega) (by omega)⟩

/-- Up to the limit the constructor makes a node that carries the text. -/
theorem carries_of_le {init : Nat → UInt8} {msg : List UInt8} {msgid : Int16}
    (h : msg.length ≤ sendLimit) :
    ∃ n, SendNode.new init (msg ++ [0]) (short msg.length) msgid = .ok n ∧ Carries n msg := by
  have h4 : (headTotalLen : Int) = 4 := rfl
  have hlimit : sendLimit = 32763 := rfl
  have hlen : (short msg.length).toInt = msg.length := short_toInt (by omega) (by omega)
  obtain ⟨n, hn, -, htot, -, hbuf⟩ := @sendNode_ok init (msg ++ [0]) (short msg.length) msgid
    (by omega) (by omega) (by rw [List.length_append]; omega)
  have htwo : ∀ x, ∃ b b', hostToNetworkShort x = [b, b'] := fun x => ⟨_, _, rfl⟩
  obtain ⟨b₀, b₁, hid⟩ := htwo msgid
  obtain ⟨b₂, b₃, hln⟩ := htwo (short msg.length)
  refine ⟨n, hn, by rw [htot, hlen], b₀, b₁, b₂, b₃, ?_, ?_⟩
  · rw [hbuf, hid, hln, hlen, Int.toNat_natCast, List.take_append_of_le_length le_rfl,
      List.take_length]
    rfl
  · rw [networkToHostShort_hostToNetworkShort (short msg.length) hln, hlen]

/-- With room in the queue both conversions are made, and a text up to the limit is enqueued. -/
theorem sendExact_iff_of_room {que : List SendNode} {after : Option (List SendNode)}
    {narrowed : List Int} {msg : List UInt8}
    (hboth : narrowed = [(msg.length : Int), (short msg.length).toInt + headTotalLen])
    (hafter : msg.length ≤ sendLimit → ∃ n, after = some (que ++ [n]) ∧ Carries n msg) :
    SendExact que after narrowed msg ↔ msg.length ≤ sendLimit := by
  subst hboth
  constructor
  · rintro ⟨-, hnarrowed⟩
    exact (narrowed_exact_iff msg.length).mp
      ⟨hnarrowed _ (by simp), hnarrowed _ (by simp)⟩
  · intro h
    obtain ⟨n, hn, hcarries⟩ := hafter h
    obtain ⟨h1, h2⟩ := (narrowed_exact_iff msg.length).mpr h
    refine ⟨⟨_, hn, Or.inr ⟨n, rfl, hcarries⟩⟩, ?_⟩
    exact List.forall_mem_cons.mpr ⟨h1, List.forall_mem_singleton.mpr h2⟩

/-! ## `logicServer` -/

namespace LogicServer

theorem sendString_ok {s : SendSide} {msg : List UInt8} {msgid : Int16} {n : SendNode}
    (hroom : ¬ maxSendque < s.sendQue.length)
    (hn : SendNode.new (fun _ => 0) (msg ++ [0]) (short msg.length) msgid = .ok n) :
    (s.sendString msg msgid).map SendSide.sendQue = some (s.sendQue ++ [n]) := by
  obtain ⟨t, ht, hque⟩ := sendNode_push (n := n) (not_lt.mp hroom)
  unfold SendSide.sendString
  rw [hn, ht, Option.map_some, hque]

/-- **When `Send` of `logicServer` treats a text exactly.** -/
theorem logic_sendExact_iff (s : SendSide) (msg : List UInt8) (msgid : Int16) :
    SendExact s.sendQue ((s.sendString msg msgid).map SendSide.sendQue) (s.narrowed msg) msg ↔
      maxSendque < s.sendQue.length ∨ msg.length ≤ sendLimit := by
  by_cases hfull : maxSendque < s.sendQue.length
  · have hsame : s.sendString msg msgid = some s := if_pos hfull
    have hnone : s.narrowed msg = [] := if_pos hfull
    rw [hsame, hnone]
    exact iff_of_true ⟨⟨_, rfl, Or.inl rfl⟩, List.forall_mem_nil _⟩ (Or.inl hfull)
  · have hboth : s.narrowed msg = [(msg.length : Int), (short msg.length).toInt + headTotalLen] :=
      if_neg hfull
    rw [or_iff_right hfull]
    refine sendExact_iff_of_room hboth fun h => ?_
    obtain ⟨n, hn, hcarries⟩ := @carries_of_le (fun _ => 0) msg msgid h
    exact ⟨n, sendString_ok hfull hn, hcarries⟩

end LogicServer

/-! ## `BoostCoServer` -/

namespace BoostCoServer

variable {heap : Nat → Nat → UInt8}

theorem sendString_ok {s : SendSide} {msg : List UInt8} {msgid : Int16} {n : SendNode}
    (hroom : ¬ maxSendque < s.sendQue.length)
    (hn : SendNode.new (heap s.accepted.length) (msg ++ [0]) (short msg.length) msgid = .ok n) :
    (s.sendString heap msg msgid).map SendSide.sendQue = some (s.sendQue ++ [n]) := by
  obtain ⟨t, ht, hque⟩ := send_push (not_lt.mp hroom) hn
  unfold SendSide.sendString
  rw [ht, Option.map_some, hque]

/-- **When `Send` of `BoostCoServer` treats a text exactly.** Over the limit of the queue the first
conversion has been made already. -/
theorem boost_sendExact_iff (heap : Nat → Nat → UInt8) (s : SendSide) (msg : List UInt8)
    (msgid : Int16) :
    SendExact s.sendQue ((s.sendString heap msg msgid).map SendSide.sendQue) (s.narrowed msg) msg ↔
      maxSendque < s.sendQue.length ∧ msg.length < 2 ^ 15 ∨ msg.length ≤ sendLimit := by
  have hlimit : sendLimit = 32763 := rfl
  have hfirst : (short msg.length).toInt = msg.length ↔ msg.length < 2 ^ 15 := by
    rw [short_toInt_iff]
    omega
  by_cases hfull : maxSendque < s.sendQue.length
  · have hsame : s.sendString heap msg msgid = some s := if_pos hfull
    have hone : s.narrowed msg = [(msg.length : Int)] := by
      unfold SendSide.narrowed
      rw [if_pos hfull]
    rw [hsame, hone]
    constructor
    · rintro ⟨-, hnarrowed⟩
      exact Or.inl ⟨hfull, hfirst.mp (hnarrowed _ (by simp))⟩
    · intro h
      refine ⟨⟨_, rfl, Or.inl rfl⟩, List.forall_mem_singleton.mpr (hfirst.mpr ?_)⟩
      rcases h with ⟨-, h⟩ | h
      · exact h
      · omega
  · have hboth : s.narrowed msg =
        [(msg.length : Int), (short msg.length).toInt + headTotalLen] := by
      unfold SendSide.narrowed
      rw [if_neg hfull]
    rw [or_iff_right (fun h => hfull h.1)]
    refine sendExact_iff_of_room hboth fun h => ?_
    obtain ⟨n, hn, hcarries⟩ := @carries_of_le (heap s.accepted.length) msg msgid h
    exact ⟨n, sendString_ok hfull hn, hcarries⟩

end BoostCoServer

/-! ## Both servers -/

/-- **When `Send` treats a text exactly**, for every state of the queue, every text and every id. -/
theorem send_length_iff (msg : List UInt8) (msgid : Int16) :
    (∀ s : LogicServer.SendSide,
      SendExact s.sendQue ((s.sendString msg msgid).map LogicServer.SendSide.sendQue)
        (s.narrowed msg) msg ↔ maxSendque < s.sendQue.length ∨ msg.length ≤ sendLimit) ∧
    ∀ (heap : Nat → Nat → UInt8) (s : BoostCoServer.SendSide),
      SendExact s.sendQue ((s.sendString heap msg msgid).map BoostCoServer.SendSide.sendQue)
        (s.narrowed msg) msg ↔
      maxSendque < s.sendQue.length ∧ msg.length < 2 ^ 15 ∨ msg.length ≤ sendLimit :=
  ⟨fun s => LogicServer.logic_sendExact_iff s msg msgid,
    fun heap s => BoostCoServer.boost_sendExact_iff heap s msg msgid⟩

/-- The length of a text of `65536` bytes becomes zero. -/
theorem send_length_wraps :
    (¬ ∀ (s : LogicServer.SendSide) (msg : List UInt8) (msgid : Int16),
      SendExact s.sendQue ((s.sendString msg msgid).map LogicServer.SendSide.sendQue)
        (s.narrowed msg) msg) ∧
    ¬ ∀ (heap : Nat → Nat → UInt8) (s : BoostCoServer.SendSide) (msg : List UInt8)
      (msgid : Int16),
      SendExact s.sendQue ((s.sendString heap msg msgid).map BoostCoServer.SendSide.sendQue)
        (s.narrowed msg) msg := by
  constructor
  · intro h
    have hlong := h .empty (List.replicate 65536 97) 1001
    rw [LogicServer.logic_sendExact_iff, List.length_replicate] at hlong
    exact absurd hlong (by decide)
  · intro h
    have hlong := h (fun _ _ => 0) .empty (List.replicate 65536 97) 1001
    rw [BoostCoServer.boost_sendExact_iff, List.length_replicate] at hlong
    exact absurd hlong (by decide)

end AsioLearn
