import AsioLearn.HelloWord
import AsioLearn.Wire

/-!
# The clients of the two servers (`jsonClient.cc`, `testClient.cc`)

One thread of either client: a number of times it writes a request, reads the head of the reply and
then as many bytes as the head says, and prints what they parse to. The two programs differ in the
number of threads and of requests.

* A call of `write` or `read` blocks until all of its bytes have been handed over; it is one step.
* `buffer` of an array takes no more bytes than the array has.
* An exception leaves the loop, and the thread ends (`ClientPc.ended`).
* The id in the head of a reply is read and not used. Texts that are only printed are left out.

Results:
* `sendData_ok_iff`: a request is written as its frame if it fits `send_data` behind the head, and
  is copied past its end otherwise;
* `decode_prefix_requests`, `decode_requests_lt`: what has been decoded of a stream of equal
  requests, part of which has come.
-/

namespace AsioLearn

open AsioLearn.Cpp AsioLearn.Wire AsioLearn.Lib.Transducer

/-! ## The thread -/

/-- Where a thread of the client is. -/
inductive ClientPc where
  /-- At the head of the loop, before `write`. -/
  | write
  /-- Before the `read` of the head. -/
  | head
  /-- Before the `read` of the text. -/
  | body (msglen : Int16)
  | ended
  deriving DecidableEq, Repr

/-- A thread of the client. -/
structure Client where
  /-- The passes that are left, the one under way included. -/
  left : Nat
  pc : ClientPc
  /-- How many bytes it has read. -/
  taken : Nat
  /-- The texts it has printed. -/
  replies : List (List UInt8)
  deriving DecidableEq, Repr

/-- The bytes of `buffer(send_data, request_length + 4)`. -/
def sendData (request : List UInt8) : Except Fault (List UInt8) := do
  let data := List.replicate maxLength 0
  let data ← memcpy data 0 (hostToNetworkShort 1001) 0 2
  let data ← memcpy data 2 (hostToNetworkShort (short request.length)) 0 2
  let data ← memcpy data 4 request 0 request.length
  pure (data.take (request.length + 4))

/-- `reader.parse(text, root)` and the two reads of a member that follow it. `root` is an object
before; `parse` has replaced it when it comes to a value. -/
def prints (J : JsonCpp) (text : List UInt8) : Bool :=
  match J.subscript (J.parse text) "id" with
  | none => false
  | some (root, _) => (J.subscript root "data").isSome

/-- `read(sock, buffer(…, n))`, where `input` is all the peer has handed to the socket. -/
def Client.read (c : Client) (input : List UInt8) (n : Nat) : Option (List UInt8) :=
  if c.taken + n ≤ input.length then some ((input.drop c.taken).take n) else none

/-- The end of a pass. -/
def Client.print (J : JsonCpp) (c : Client) (text : List UInt8) : Client :=
  if prints J text then
    { c with left := c.left - 1, pc := .write, taken := c.taken + text.length,
             replies := c.replies ++ [text] }
  else { c with pc := .ended, taken := c.taken + text.length }

/-- One call, and the bytes it writes. After a fault there is no next state. -/
def Client.step (J : JsonCpp) (request input : List UInt8) (c : Client) :
    Option (Client × List UInt8) :=
  match c.pc with
  | .write =>
    match c.left, sendData request with
    | _ + 1, .ok bytes => some ({ c with pc := .head }, bytes)
    | _, _ => none
  | .head =>
    match c.read input headTotalLen with
    | none => none
    | some replyHead =>
      match loadShort replyHead headIdLen with
      | .ok msglen => some ({ c with pc := .body msglen, taken := c.taken + headTotalLen }, [])
      | .error _ => none
  | .body msglen =>
    (c.read input (min (sizeT msglen.toInt) maxLength)).map fun text => (c.print J text, [])
  | .ended => none

/-- A client that has connected. -/
def Client.start (n : Nat) : Client := ⟨n, .write, 0, []⟩

/-! ## The request -/

theorem msgHelloWord_le : msgHelloWord.toInt ≤ maxLength := by decide

/-- The request as a frame. -/
def helloFrame (request : List UInt8) (h : request.length ≤ maxLength) : Frame :=
  ⟨msgHelloWord, request, msgHelloWord_le, h⟩

/-- **What the client writes**, if the request fits behind the head. -/
theorem sendData_frame {request : List UInt8} (h : request.length + headTotalLen ≤ maxLength) :
    sendData request = .ok (helloFrame request ((Nat.le_add_right _ _).trans h)).bytes := by
  have h4 : headTotalLen = 4 := rfl
  have hmax : maxLength = 2048 := rfl
  obtain ⟨junk, hjunk⟩ : ∃ junk : List UInt8, List.replicate maxLength 0 = junk := ⟨_, rfl⟩
  have hlen : junk.length = 2048 := by
    rw [← hjunk, List.length_replicate, hmax]
  have hid := hostToNetworkShort_length 1001
  have hln := hostToNetworkShort_length (short request.length)
  have m1 : memcpy junk 0 (hostToNetworkShort 1001) (0 : Nat) 2 =
      .ok (hostToNetworkShort 1001 ++ junk.drop 2) := by
    refine (@memcpy_append [] junk (hostToNetworkShort 1001) 0 2 (by omega) (by omega)).trans ?_
    rw [List.drop_zero, List.take_of_length_le (by omega), List.nil_append]
  have m2 : memcpy (hostToNetworkShort 1001 ++ junk.drop 2) 2
      (hostToNetworkShort (short request.length)) (0 : Nat) 2 =
      .ok (hostToNetworkShort 1001 ++ hostToNetworkShort (short request.length) ++
        junk.drop 4) := by
    refine (memcpy_append (by rw [List.length_drop]; omega) (by omega)).trans ?_
    rw [List.drop_zero, List.take_of_length_le (by omega), List.drop_drop]
  have m3 : memcpy (hostToNetworkShort 1001 ++ hostToNetworkShort (short request.length)
      ++ junk.drop 4) 4 request (0 : Nat) request.length =
      .ok (hostToNetworkShort 1001 ++ hostToNetworkShort (short request.length) ++ request
        ++ (junk.drop 4).drop request.length) := by
    refine (memcpy_append (by rw [List.length_drop]; omega) (by omega)).trans ?_
    rw [List.drop_zero, List.take_length]
  simp only [Nat.cast_zero] at m1 m2 m3
  unfold sendData
  rw [hjunk]
  simp only [bind, Except.bind, pure, Except.pure, m1, m2, m3]
  have hall : (hostToNetworkShort 1001 ++ hostToNetworkShort (short request.length)
      ++ request).length = request.length + 4 := by
    simp only [List.length_append, hid, hln]
    omega
  rw [← hall, List.take_left]
  rfl

/-- A request that does not fit is copied past the end of `send_data`. -/
theorem sendData_ok_iff (request : List UInt8) :
    (∃ bytes, sendData request = .ok bytes) ↔ request.length + headTotalLen ≤ maxLength := by
  refine ⟨fun ⟨bytes, h⟩ => ?_, fun h => ⟨_, sendData_frame h⟩⟩
  by_contra hlong
  have h4 : headTotalLen = 4 := rfl
  unfold sendData at h
  simp only [bind, Except.bind, pure, Except.pure] at h
  split at h
  · cases h
  · rename_i data₁ h₁
    split at h
    · cases h
    · rename_i data₂ h₂
      have hlen := (memcpy_length h₂).trans (memcpy_length h₁)
      rw [List.length_replicate] at hlen
      rw [memcpy_overrun (by omega)] at h
      cases h

/-! ## Equal requests, one after the other -/

/-- The bytes of `k` requests. -/
def requests (f : Frame) (k : Nat) : List UInt8 := (List.replicate k f).flatMap Frame.bytes

theorem requests_succ (f : Frame) (k : Nat) : requests f (k + 1) = f.bytes ++ requests f k := rfl

theorem requests_snoc (f : Frame) (k : Nat) : requests f (k + 1) = requests f k ++ f.bytes := by
  unfold requests
  rw [List.replicate_succ', List.flatMap_append, List.flatMap_cons, List.flatMap_nil,
    List.append_nil]

theorem requests_length (f : Frame) (k : Nat) : (requests f k).length = k * f.bytes.length := by
  induction k with
  | zero => exact (Nat.zero_mul _).symm
  | succ k ih =>
    rw [requests_succ, List.length_append, ih, Nat.succ_mul]
    exact Nat.add_comm _ _

theorem decode_requests (f : Frame) (k : Nat) :
    decode (requests f k) = (.header [], List.replicate k f.post) := by
  unfold requests
  rw [feed_frames, List.map_replicate]

/-- The decoder goes on where it stopped. -/
theorem decode_append (s t : List UInt8) :
    decode (s ++ t) = ((feed DecState.step (decode s).1 t).1,
      (decode s).2 ++ (feed DecState.step (decode s).1 t).2) := by
  unfold decode
  exact feed_append ..

/-- Of a stream of requests that has come in part, the decoder posts some, and goes on. -/
theorem decode_prefix_requests {f : Frame} {k : Nat} {s : List UInt8} (h : s <+: requests f k) :
    (∀ hd, (decode s).1 ≠ .stopped hd) ∧
      ∃ m ≤ k, (decode s).2 = List.replicate m f.post := by
  obtain ⟨rest, hrest⟩ := h
  have hall := decode_requests f k
  rw [← hrest, decode_append] at hall
  constructor
  · intro hd hstop
    rw [hstop, feed_stopped] at hall
    cases hall
  · have hpre : (decode s).2 <+: List.replicate k f.post :=
      ⟨_, congrArg Prod.snd hall⟩
    obtain ⟨hle, heq⟩ := List.prefix_replicate_iff.mp hpre
    exact ⟨_, hle, heq⟩

/-- A request that has not come whole is not posted. -/
theorem decode_part {f : Frame} {s : List UInt8} (h : s <+: f.bytes)
    (hlt : s.length < f.bytes.length) : (decode s).2 = [] := by
  have h4 : headTotalLen = 4 := rfl
  unfold decode
  by_cases hhead : s.length < headTotalLen
  · rw [feed_header_short (by simpa using hhead)]
  · obtain ⟨b₀, b₁, b₂, b₃, zs, rfl⟩ := exists_four hhead
    obtain ⟨c₀, c₁, c₂, c₃, hbytes, hof⟩ := exists_header_bytes f
    rw [hbytes] at h hlt
    simp only [List.cons_prefix_cons] at h
    obtain ⟨rfl, rfl, rfl, rfl, hzs⟩ := h
    simp only [List.length_cons] at hlt
    have hpos : f.len.toInt ≠ 0 := by
      rw [f.len_toInt]
      omega
    have hlen : f.len.toInt.toNat = f.payload.length := by
      rw [f.len_toInt, Int.toNat_natCast]
    rw [feed_header, hof, enter_accepted f.accepted hpos, hlen,
      feed_payload_short (by rw [List.length_nil]; omega)]
    rfl

/-- As long as fewer than `k` requests have come, fewer than `k` are posted. -/
theorem decode_requests_lt {f : Frame} {k n : Nat} {s : List UInt8} (h : s <+: requests f n)
    (hlt : s.length < k * f.bytes.length) : (decode s).2.length < k := by
  induction k generalizing n s with
  | zero =>
    rw [Nat.zero_mul] at hlt
    exact absurd hlt (Nat.not_lt_zero _)
  | succ k ih =>
    cases n with
    | zero =>
      obtain rfl := List.prefix_nil.mp h
      exact Nat.succ_pos k
    | succ n =>
      rw [requests_succ] at h
      by_cases hpart : s.length < f.bytes.length
      · have hpre := List.prefix_of_prefix_length_le h (List.prefix_append _ _) hpart.le
        rw [decode_part hpre hpart]
        exact Nat.succ_pos k
      · have hwhole : f.bytes <+: s :=
          List.prefix_of_prefix_length_le (List.prefix_append _ _) h (not_lt.mp hpart)
        obtain ⟨t, rfl⟩ := hwhole
        rw [List.prefix_append_right_inj] at h
        rw [List.length_append, Nat.succ_mul] at hlt
        have hrest := ih h (by omega)
        unfold decode at hrest ⊢
        rw [feed_frame, List.length_cons]
        exact Nat.succ_lt_succ hrest

end AsioLearn
