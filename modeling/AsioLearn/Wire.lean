import AsioLearn.Cpp
import AsioLearn.Lib.Transducer

/-!
# The wire format and its decoder

What the two servers' receive sides are for, stated without either of them. A frame is a four-byte
header (message id and payload length, both big-endian shorts) and the payload. `const.h` is the
same in both servers: `maxLength` bounds ids and payload lengths (from above only, in the code).

* `Frame` is a message that may be sent: its id and its length are within the bounds by
  construction. `Frame.bytes` is its encoding.
* `DecState.step` is the decoder, one byte at a time. It stops for good at a header that is not
  `Accepted`; what a server then does with the connection is the server's business.
* `DecState.forget` drops a header that is not complete. A decoder that forgets at the end of every
  read is `feedChunks DecState.step DecState.forget`.

Results:
* the decoder on whole pieces of its input (`feed_header`, `feed_payload_short`,
  `feed_payload_full`, `feed_stopped`);
* `feed_frames`: decoding undoes encoding;
* `exists_frames`, `stopped_iff`: every stream is whole frames and a rest, and the decoder stops at
  the header behind whole frames that is not accepted;
* `exists_window_of_stopped`: a header at which the decoder stops is four consecutive bytes of the
  stream, however much is forgotten between the reads.
-/

namespace AsioLearn.Wire

open AsioLearn.Cpp AsioLearn.Lib.Transducer

/-! ## The constants of `const.h` -/

/-- `MAX_LENGTH`. -/
def maxLength : Nat := 1024 * 2
/-- `HEAD_TOTAL_LEN`. -/
def headTotalLen : Nat := 4
/-- `HEAD_ID_LEN`. -/
def headIdLen : Nat := 2
/-- `HEAD_DATA_LEN`. -/
def headDataLen : Nat := 2
/-- `MAX_SENDQUE`. -/
def maxSendque : Nat := 1000
/-- `MSG_HELLO_WORD`. -/
def msgHelloWord : Int16 := 1001

/-! ## Frames -/

/-- What a receiver hands on: the message id and the payload. -/
abbrev Post := Int16 × List UInt8

/-- A decoded header. -/
structure Header where
  id : Int16
  len : Int16
  deriving DecidableEq, Repr

/-- The header four bytes encode. -/
def Header.ofBytes (b₀ b₁ b₂ b₃ : UInt8) : Header :=
  ⟨networkToHostShort b₀ b₁, networkToHostShort b₂ b₃⟩

/-- The id is one the receivers let pass. -/
def Header.IdOk (h : Header) : Prop := h.id.toInt ≤ maxLength

/-- A header both receivers take: an id and a length of at most `maxLength`, the length not
negative. -/
def Header.Accepted (h : Header) : Prop :=
  h.IdOk ∧ 0 ≤ h.len.toInt ∧ h.len.toInt ≤ maxLength

instance (h : Header) : Decidable h.IdOk := inferInstanceAs (Decidable (_ ≤ _))
instance (h : Header) : Decidable h.Accepted := inferInstanceAs (Decidable (_ ∧ _ ∧ _))

/-- A message within the bounds of the wire format. -/
structure Frame where
  id : Int16
  payload : List UInt8
  id_le : id.toInt ≤ maxLength
  length_le : payload.length ≤ maxLength

/-- The message a frame carries. -/
def Frame.post (f : Frame) : Post := (f.id, f.payload)

/-- The length field of a frame. -/
def Frame.len (f : Frame) : Int16 := short f.payload.length

/-- The bytes of a frame: id, length, payload. -/
def Frame.bytes (f : Frame) : List UInt8 :=
  hostToNetworkShort f.id ++ hostToNetworkShort f.len ++ f.payload

theorem Frame.len_toInt (f : Frame) : f.len.toInt = f.payload.length := by
  have h : f.payload.length ≤ 2048 := f.length_le
  exact short_toInt (by omega) (by omega)

theorem Frame.bytes_length (f : Frame) : f.bytes.length = headTotalLen + f.payload.length := by
  simp only [Frame.bytes, List.length_append, hostToNetworkShort_length]
  rfl

/-! ## Deliveries -/

/-- What a receiver leaves its connection in. `stranded`: it neither reads on nor has cleared the
session. -/
inductive Outcome where
  | reading
  | cleared
  | stranded
  | undefined
  deriving DecidableEq, Repr

/-- A way to cut the stream `s` into the reads a socket completes: none of them empty, none longer
than the receive buffer. -/
structure Cutting (s : List UInt8) where
  reads : List (List UInt8)
  flatten_eq : reads.flatten = s
  nonempty : ∀ r ∈ reads, r ≠ []
  bounded : ∀ r ∈ reads, r.length ≤ maxLength

/-- One byte a read. -/
def Cutting.bytewise (s : List UInt8) : Cutting s where
  reads := s.map fun b => [b]
  flatten_eq := by
    induction s with
    | nil => rfl
    | cons b s ih => simp [ih]
  nonempty := by simp
  bounded := by simp [maxLength]

/-! ## The decoder -/

/-- Where the decoder is: inside a header, inside a payload, or stopped at a header. -/
inductive DecState where
  | header (acc : List UInt8)
  | payload (id : Int16) (len : Nat) (acc : List UInt8)
  | stopped (h : Header)
  deriving DecidableEq, Repr

/-- The header is complete. An accepted header with no payload is a message by itself. -/
def Header.enter (h : Header) : DecState × List Post :=
  if h.Accepted then
    if h.len.toInt = 0 then (.header [], [(h.id, [])])
    else (.payload h.id h.len.toInt.toNat [], [])
  else (.stopped h, [])

/-- Decode one byte. -/
def DecState.step : DecState → UInt8 → DecState × List Post
  | .header [b₀, b₁, b₂], b₃ => (Header.ofBytes b₀ b₁ b₂ b₃).enter
  | .header acc, b => (.header (acc ++ [b]), [])
  | .payload id len acc, b =>
    if acc.length + 1 < len then (.payload id len (acc ++ [b]), [])
    else (.header [], [(id, acc ++ [b])])
  | .stopped h, _ => (.stopped h, [])

/-- Drop an incomplete header. -/
def DecState.forget : DecState → DecState
  | .header _ => .header []
  | s => s

/-- The decoder is strictly inside a header. -/
def DecState.MidHeader : DecState → Prop
  | .header acc => acc ≠ []
  | _ => False

/-- The reference decoder, on the whole stream. -/
def decode (s : List UInt8) : DecState × List Post := feed DecState.step (.header []) s

/-- The decoder that forgets incomplete headers between the reads. -/
def decodeReads (s : DecState) (reads : List (List UInt8)) : DecState × List Post :=
  feedChunks DecState.step DecState.forget s reads

@[simp]
theorem forget_stopped (h : Header) : (DecState.stopped h).forget = .stopped h := rfl

theorem forget_eq_self {s : DecState} (h : ¬ s.MidHeader) : s.forget = s := by
  cases s with
  | header acc =>
    obtain rfl : acc = [] := by simpa [DecState.MidHeader] using h
    rfl
  | payload _ _ _ => rfl
  | stopped _ => rfl

theorem enter_accepted {h : Header} (ha : h.Accepted) (hl : h.len.toInt ≠ 0) :
    h.enter = (.payload h.id h.len.toInt.toNat [], []) := by
  unfold Header.enter
  rw [if_pos ha, if_neg hl]

theorem enter_empty {h : Header} (ha : h.Accepted) (hl : h.len.toInt = 0) :
    h.enter = (.header [], [(h.id, [])]) := by
  unfold Header.enter
  rw [if_pos ha, if_pos hl]

theorem enter_stopped {h : Header} (ha : ¬ h.Accepted) : h.enter = (.stopped h, []) := by
  unfold Header.enter
  rw [if_neg ha]

/-! ### The decoder on whole pieces of the stream -/

theorem step_header {acc : List UInt8} {b : UInt8} (h : acc.length < 3) :
    (DecState.header acc).step b = (.header (acc ++ [b]), []) := by
  match acc, h with
  | [], _ => rfl
  | [_], _ => rfl
  | [_, _], _ => rfl

theorem feed_header_short {acc ys : List UInt8} (h : acc.length + ys.length < headTotalLen) :
    feed DecState.step (.header acc) ys = (.header (acc ++ ys), []) := by
  induction ys generalizing acc with
  | nil => simp
  | cons y ys ih =>
    simp only [headTotalLen, List.length_cons] at h ih
    have hlen : (acc ++ [y]).length = acc.length + 1 := by simp
    rw [feed_cons, step_header (by omega), ih (by omega)]
    simp

theorem feed_header (b₀ b₁ b₂ b₃ : UInt8) (zs : List UInt8) :
    feed DecState.step (.header []) (b₀ :: b₁ :: b₂ :: b₃ :: zs) =
      ((feed DecState.step (Header.ofBytes b₀ b₁ b₂ b₃).enter.1 zs).1,
        (Header.ofBytes b₀ b₁ b₂ b₃).enter.2 ++
          (feed DecState.step (Header.ofBytes b₀ b₁ b₂ b₃).enter.1 zs).2) := rfl

theorem feed_stopped (h : Header) (ys : List UInt8) :
    feed DecState.step (.stopped h) ys = (.stopped h, []) := by
  induction ys with
  | nil => rfl
  | cons y ys ih => rw [feed_cons]; exact congrArg (fun r => (r.1, [] ++ r.2)) ih

theorem feed_payload_short {id : Int16} {len : Nat} {acc ys : List UInt8}
    (h : acc.length + ys.length < len) :
    feed DecState.step (.payload id len acc) ys = (.payload id len (acc ++ ys), []) := by
  induction ys generalizing acc with
  | nil => simp
  | cons y ys ih =>
    simp only [List.length_cons] at h
    have hstep : (DecState.payload id len acc).step y = (.payload id len (acc ++ [y]), []) :=
      if_pos (by omega)
    rw [feed_cons, hstep, ih (by simp only [List.length_append, List.length_singleton]; omega)]
    simp

theorem feed_payload_full {id : Int16} {len : Nat} {acc ys : List UInt8} (hlt : acc.length < len)
    (h : len ≤ acc.length + ys.length) :
    feed DecState.step (.payload id len acc) ys =
      ((feed DecState.step (.header []) (ys.drop (len - acc.length))).1,
        (id, acc ++ ys.take (len - acc.length)) ::
          (feed DecState.step (.header []) (ys.drop (len - acc.length))).2) := by
  induction ys generalizing acc with
  | nil => simp only [List.length_nil] at h; omega
  | cons y ys ih =>
    simp only [List.length_cons] at h
    obtain ⟨k, hk⟩ : ∃ k, len - acc.length = k + 1 := ⟨len - acc.length - 1, by omega⟩
    rw [feed_cons, hk, List.drop_succ_cons, List.take_succ_cons]
    by_cases hlast : acc.length + 1 < len
    · have hstep : (DecState.payload id len acc).step y = (.payload id len (acc ++ [y]), []) :=
        if_pos hlast
      have hlen : (acc ++ [y]).length = acc.length + 1 := by simp
      rw [hstep, ih (by omega) (by omega), hlen, show len - (acc.length + 1) = k by omega]
      simp
    · have hstep : (DecState.payload id len acc).step y = (.header [], [(id, acc ++ [y])]) :=
        if_neg hlast
      obtain rfl : k = 0 := by omega
      rw [hstep]
      simp

/-- Enough bytes for a header. -/
theorem exists_four {ys : List UInt8} (h : ¬ ys.length < headTotalLen) :
    ∃ b₀ b₁ b₂ b₃ zs, ys = b₀ :: b₁ :: b₂ :: b₃ :: zs := by
  match ys, h with
  | [], h | [_], h | [_, _], h | [_, _, _], h => exact absurd (by simp [headTotalLen]) h
  | b₀ :: b₁ :: b₂ :: b₃ :: zs, _ => exact ⟨b₀, b₁, b₂, b₃, zs, rfl⟩

/-! ### Decoding undoes encoding -/

theorem exists_header_bytes (f : Frame) : ∃ b₀ b₁ b₂ b₃,
    f.bytes = b₀ :: b₁ :: b₂ :: b₃ :: f.payload ∧ Header.ofBytes b₀ b₁ b₂ b₃ = ⟨f.id, f.len⟩ := by
  refine ⟨_, _, _, _, rfl, ?_⟩
  unfold Header.ofBytes
  rw [networkToHostShort_hostToNetworkShort f.id rfl,
    networkToHostShort_hostToNetworkShort f.len rfl]

theorem Frame.accepted (f : Frame) : Header.Accepted ⟨f.id, f.len⟩ := by
  have h : f.payload.length ≤ maxLength := f.length_le
  refine ⟨f.id_le, ?_, ?_⟩
  · rw [f.len_toInt]; omega
  · rw [f.len_toInt]; omega

/-- A frame at the front of the stream is decoded, and the decoder is at a header again. -/
theorem feed_frame (f : Frame) (zs : List UInt8) :
    feed DecState.step (.header []) (f.bytes ++ zs) =
      ((feed DecState.step (.header []) zs).1,
        f.post :: (feed DecState.step (.header []) zs).2) := by
  obtain ⟨b₀, b₁, b₂, b₃, hbytes, hhead⟩ := exists_header_bytes f
  rw [hbytes, List.cons_append, List.cons_append, List.cons_append, List.cons_append, feed_header,
    hhead]
  by_cases hl : f.payload = []
  · have hlen : f.len.toInt = 0 := by rw [f.len_toInt, hl]; rfl
    rw [enter_empty f.accepted hlen, hl]
    simp [Frame.post, hl]
  · have hpos : 0 < f.payload.length := List.length_pos_iff.mpr hl
    have hlen : f.len.toInt.toNat = f.payload.length := by rw [f.len_toInt]; simp
    rw [enter_accepted f.accepted (by rw [f.len_toInt]; omega), hlen,
      feed_payload_full (by simpa using hpos) (by simp)]
    simp [Frame.post]

/-- **Decoding undoes encoding.** -/
theorem feed_frames (fs : List Frame) :
    decode (fs.flatMap Frame.bytes) = (.header [], fs.map Frame.post) := by
  unfold decode
  induction fs with
  | nil => rfl
  | cons f fs ih => rw [List.flatMap_cons, feed_frame, ih, List.map_cons]

/-- Frames at the front of the stream are decoded, and the decoder goes on behind them. -/
theorem decode_frames_append (fs : List Frame) (rest : List UInt8) :
    decode (fs.flatMap Frame.bytes ++ rest) =
      ((decode rest).1, fs.map Frame.post ++ (decode rest).2) := by
  have hframes := feed_frames fs
  unfold decode at hframes ⊢
  rw [feed_append, hframes]

/-! ### Encoding what was decoded -/

/-- The header stands behind whole frames: the decoder reads it as a header. -/
def Reaches (s : List UInt8) (h : Header) : Prop :=
  ∃ (fs : List Frame) (b₀ b₁ b₂ b₃ : UInt8) (post : List UInt8),
    s = fs.flatMap Frame.bytes ++ b₀ :: b₁ :: b₂ :: b₃ :: post ∧ Header.ofBytes b₀ b₁ b₂ b₃ = h

theorem not_reaches_nil (h : Header) : ¬ Reaches [] h := by
  rintro ⟨fs, b₀, b₁, b₂, b₃, post, hs, -⟩
  have := (List.append_eq_nil_iff.mp hs.symm).2
  cases this

theorem Reaches.append {s t : List UInt8} {h : Header} (hr : Reaches s h) : Reaches (s ++ t) h := by
  obtain ⟨fs, b₀, b₁, b₂, b₃, post, rfl, hh⟩ := hr
  exact ⟨fs, b₀, b₁, b₂, b₃, post ++ t, by simp, hh⟩

/-- Fewer than two headers' bytes: only the first header is reached. -/
theorem Reaches.first {s : List UInt8} {h : Header} (hr : Reaches s h) (hlt : s.length < 8) :
    ∃ b₀ b₁ b₂ b₃ post, s = b₀ :: b₁ :: b₂ :: b₃ :: post ∧ Header.ofBytes b₀ b₁ b₂ b₃ = h := by
  obtain ⟨fs, b₀, b₁, b₂, b₃, post, rfl, hh⟩ := hr
  cases fs with
  | nil => exact ⟨b₀, b₁, b₂, b₃, post, rfl, hh⟩
  | cons f fs =>
    have h4 : headTotalLen = 4 := rfl
    have hlen := f.bytes_length
    rw [List.flatMap_cons] at hlt
    simp only [List.length_append, List.length_cons] at hlt
    omega

/-- An accepted header with its payload is a frame. -/
theorem exists_frame {b₀ b₁ b₂ b₃ : UInt8} {payload : List UInt8}
    (ha : (Header.ofBytes b₀ b₁ b₂ b₃).Accepted)
    (hlen : (payload.length : Int) = (Header.ofBytes b₀ b₁ b₂ b₃).len.toInt) :
    ∃ f : Frame, f.bytes = b₀ :: b₁ :: b₂ :: b₃ :: payload ∧
      f.post = ((Header.ofBytes b₀ b₁ b₂ b₃).id, payload) := by
  have hle : payload.length ≤ maxLength := by
    have := ha.2.2
    omega
  refine ⟨⟨(Header.ofBytes b₀ b₁ b₂ b₃).id, payload, ha.1, hle⟩, ?_, rfl⟩
  have hfield : short payload.length = (Header.ofBytes b₀ b₁ b₂ b₃).len := by
    refine Int16.toInt_inj.mp ?_
    rw [← hlen]
    exact short_toInt (by omega) (by rw [hlen]; exact Int16.toInt_lt _)
  unfold Frame.bytes Frame.len
  rw [hfield]
  unfold Header.ofBytes
  rw [hostToNetworkShort_networkToHostShort, hostToNetworkShort_networkToHostShort]
  rfl

/-- Where the decoder posts nothing, it stops at most at the first header. -/
theorem rest_cases {rest : List UInt8} {h : Header} (hnone : (decode rest).2 = [])
    (hst : (decode rest).1 = .stopped h) : Reaches rest h ∧ ¬ h.Accepted := by
  unfold decode at hnone hst
  by_cases hshort : rest.length < headTotalLen
  · rw [feed_header_short (by simpa using hshort)] at hst
    cases hst
  · obtain ⟨b₀, b₁, b₂, b₃, zs, rfl⟩ := exists_four hshort
    rw [feed_header] at hnone hst
    dsimp only at hnone hst
    by_cases ha : (Header.ofBytes b₀ b₁ b₂ b₃).Accepted
    · exfalso
      by_cases h0 : (Header.ofBytes b₀ b₁ b₂ b₃).len.toInt = 0
      · rw [enter_empty ha h0] at hnone
        cases hnone
      · have hpos := ha.2.1
        rw [enter_accepted ha h0] at hnone hst
        by_cases hlt : zs.length < (Header.ofBytes b₀ b₁ b₂ b₃).len.toInt.toNat
        · rw [feed_payload_short (by simpa using hlt)] at hst
          cases hst
        · rw [feed_payload_full (by rw [List.length_nil]; omega)
            (by rw [List.length_nil]; omega)] at hnone
          cases hnone
    · rw [enter_stopped ha, feed_stopped] at hst
      obtain rfl := DecState.stopped.inj hst
      exact ⟨⟨[], b₀, b₁, b₂, b₃, zs, rfl, rfl⟩, ha⟩

/-- **Every stream is whole frames and a rest** for which the decoder posts nothing. -/
theorem exists_frames (s : List UInt8) :
    ∃ (fs : List Frame) (rest : List UInt8), s = fs.flatMap Frame.bytes ++ rest ∧
      (decode rest).2 = [] := by
  induction hn : s.length using Nat.strong_induction_on generalizing s with
  | h n ih =>
    by_cases hnone : (decode s).2 = []
    · exact ⟨[], s, rfl, hnone⟩
    · -- the decoder posts something: the stream begins with a frame
      have hfour : ¬ s.length < headTotalLen := by
        intro hshort
        unfold decode at hnone
        rw [feed_header_short (by simpa using hshort)] at hnone
        exact hnone rfl
      obtain ⟨b₀, b₁, b₂, b₃, zs, rfl⟩ := exists_four hfour
      unfold decode at hnone
      rw [feed_header] at hnone
      have ha : (Header.ofBytes b₀ b₁ b₂ b₃).Accepted := by
        by_contra ha
        rw [enter_stopped ha, feed_stopped] at hnone
        exact hnone rfl
      have h0 := ha.2.1
      have hle : (Header.ofBytes b₀ b₁ b₂ b₃).len.toInt.toNat ≤ zs.length := by
        by_contra hlt
        rw [enter_accepted ha (by omega), feed_payload_short (by simpa using hlt)] at hnone
        exact hnone rfl
      obtain ⟨f, hbytes, -⟩ := @exists_frame b₀ b₁ b₂ b₃
        (zs.take (Header.ofBytes b₀ b₁ b₂ b₃).len.toInt.toNat) ha (by
          rw [List.length_take]
          omega)
      obtain ⟨fs, rest, hzs, hrest⟩ :=
        ih _ (by rw [← hn, List.length_drop]; simp only [List.length_cons]; omega)
          (zs.drop (Header.ofBytes b₀ b₁ b₂ b₃).len.toInt.toNat) rfl
      refine ⟨f :: fs, rest, ?_, hrest⟩
      rw [List.flatMap_cons, hbytes, List.append_assoc, ← hzs]
      simp

/-- **Where the decoder stops**: at the first header behind whole frames that is not accepted. -/
theorem stopped_iff {s : List UInt8} {h : Header} :
    (decode s).1 = .stopped h ↔ Reaches s h ∧ ¬ h.Accepted := by
  constructor
  · intro hst
    obtain ⟨fs, rest, rfl, hnone⟩ := exists_frames s
    rw [decode_frames_append] at hst
    obtain ⟨⟨gs, b₀, b₁, b₂, b₃, post, rfl, hh⟩, hna⟩ := rest_cases hnone hst
    refine ⟨⟨fs ++ gs, b₀, b₁, b₂, b₃, post, ?_, hh⟩, hna⟩
    rw [List.flatMap_append, List.append_assoc]
  · rintro ⟨⟨fs, b₀, b₁, b₂, b₃, post, rfl, rfl⟩, hna⟩
    rw [decode_frames_append]
    show (feed DecState.step (.header []) (b₀ :: b₁ :: b₂ :: b₃ :: post)).1 = _
    rw [feed_header, enter_stopped hna, feed_stopped]

/-- The header of a message the decoder posts. -/
theorem reaches_of_post {s : List UInt8} {p : Post} (hp : p ∈ (decode s).2) :
    ∃ h, Reaches s h ∧ h.Accepted ∧ h.len.toInt = p.2.length := by
  obtain ⟨fs, rest, rfl, hnone⟩ := exists_frames s
  rw [decode_frames_append, hnone, List.append_nil] at hp
  obtain ⟨f, hf, rfl⟩ := List.mem_map.mp hp
  obtain ⟨before, after, rfl⟩ := List.append_of_mem hf
  obtain ⟨b₀, b₁, b₂, b₃, hbytes, hhead⟩ := exists_header_bytes f
  refine ⟨⟨f.id, f.len⟩, ⟨before, b₀, b₁, b₂, b₃,
    f.payload ++ after.flatMap Frame.bytes ++ rest, ?_, hhead⟩, f.accepted, f.len_toInt⟩
  rw [List.flatMap_append, List.flatMap_cons, hbytes]
  simp

/-! ### Where the decoder stops -/

/-- The header is four consecutive bytes of the stream. -/
def Window (s : List UInt8) (h : Header) : Prop :=
  ∃ pre b₀ b₁ b₂ b₃ post, s = pre ++ b₀ :: b₁ :: b₂ :: b₃ :: post ∧ Header.ofBytes b₀ b₁ b₂ b₃ = h

theorem Window.append {s t : List UInt8} {h : Header} (hw : Window s h) : Window (s ++ t) h := by
  obtain ⟨pre, b₀, b₁, b₂, b₃, post, rfl, hh⟩ := hw
  exact ⟨pre, b₀, b₁, b₂, b₃, post ++ t, by simp, hh⟩

/-- What the bytes read so far say about the decoder's state. -/
def DecState.From (done : List UInt8) : DecState → Prop
  | .header acc => acc <:+ done
  | .payload _ _ _ => True
  | .stopped h => Window done h

theorem from_step (done : List UInt8) (d : DecState) (b : UInt8) (h : d.From done) :
    (d.step b).1.From (done ++ [b]) := by
  match d, h with
  | .header [b₀, b₁, b₂], h =>
    obtain ⟨pre, rfl⟩ := h
    show (Header.ofBytes b₀ b₁ b₂ b).enter.1.From _
    by_cases ha : (Header.ofBytes b₀ b₁ b₂ b).Accepted
    · by_cases hl : (Header.ofBytes b₀ b₁ b₂ b).len.toInt = 0
      · rw [enter_empty ha hl]
        exact List.nil_suffix
      · rw [enter_accepted ha hl]
        trivial
    · rw [enter_stopped ha]
      exact ⟨pre, b₀, b₁, b₂, b, [], by simp, rfl⟩
  | .header [], _ => exact List.suffix_append done [b]
  | .header [b₀], h =>
    obtain ⟨pre, rfl⟩ := h
    exact ⟨pre, by simp⟩
  | .header [b₀, b₁], h =>
    obtain ⟨pre, rfl⟩ := h
    exact ⟨pre, by simp⟩
  | .header (b₀ :: b₁ :: b₂ :: b₃ :: acc), h =>
    obtain ⟨pre, rfl⟩ := h
    exact ⟨pre, by simp⟩
  | .payload id len acc, _ =>
    show (if acc.length + 1 < len then (DecState.payload id len (acc ++ [b]), [])
      else (.header [], [(id, acc ++ [b])]) : DecState × List Post).1.From _
    split
    · trivial
    · exact List.nil_suffix
  | .stopped h', hw => exact hw.append

theorem from_forget (done : List UInt8) (d : DecState) (h : d.From done) : d.forget.From done := by
  cases d with
  | header acc => exact List.nil_suffix
  | payload _ _ _ => trivial
  | stopped h' => exact h

/-- **A header the decoder stops at is four consecutive bytes of the stream**, however the stream
is cut and whatever is forgotten at the cuts. -/
theorem exists_window_of_stopped {reads : List (List UInt8)} {h : Header}
    (hst : (decodeReads (.header []) reads).1 = .stopped h) : Window reads.flatten h := by
  have := @feedChunks_invariant _ _ _ _ _ DecState.From from_step from_forget []
    (.header []) List.nil_suffix reads
  rw [List.nil_append] at this
  exact (congrArg (DecState.From reads.flatten) hst).mp this

end AsioLearn.Wire
