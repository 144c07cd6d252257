import Mathlib.Data.List.Basic
import Mathlib.Tactic.Linarith

/-!
# The machine level of the C++ code

What both servers' sources rest on: the widths of `short` and `size_t`, `new char[n]`, bounds on
the accesses through a `char *`, and the byte order of the two header shorts.

* `short` is `Int16`. Arithmetic on shorts is done in `int`, which is `Int` here (no expression of
  the sources leaves the range of `int`); storing the result back is `short`, reduction modulo
  `2 ^ 16`.
* `size_t` is `Nat` with the reduction modulo `2 ^ 64` written out (`sizeT`, `sizeAdd`, `sizeSub`).
* A block of chars is the list of its bytes. `memcpy` and `store` check both ends of the access:
  an access outside the block is `outOfBounds`, undefined behaviour, after which nothing is said.
* `new char[n]` throws `std::bad_array_new_length` for a negative `n`. What it puts in the block is
  the parameter `init`: zero for `new char[n]()`, anything for `new char[n]`.
* `network_to_host_short` of two bytes copied from the wire reads them big-endian, whatever the
  host's byte order; `host_to_network_short` is its inverse.
-/

namespace AsioLearn.Cpp

/-- How a C++ statement can fail to complete: an exception, or undefined behaviour. -/
inductive Fault where
  | badArrayNewLength
  | outOfBounds
  deriving DecidableEq, Repr

/-! ## Conversions -/

/-- Conversion of an integer to `short`. -/
def short (n : Int) : Int16 := Int16.ofInt n

/-- Conversion of an integer to `size_t`. -/
def sizeT (n : Int) : Nat := (n % 2 ^ 64).toNat

/-- `a + b` in `size_t`. -/
def sizeAdd (a b : Nat) : Nat := (a + b) % 2 ^ 64

/-- `a - b` in `size_t`, which wraps around below zero. -/
def sizeSub (a b : Nat) : Nat := (a + (2 ^ 64 - b)) % 2 ^ 64

/-- A `short` is the representative of its class modulo `2 ^ 16` around zero. -/
theorem short_toInt_eq (n : Int) : (short n).toInt = (n + 2 ^ 15) % 2 ^ 16 - 2 ^ 15 := by
  unfold short
  rw [Int16.toInt_ofInt, Int.bmod_def]
  simp only [Int16.size]
  split <;> omega

theorem short_toInt {n : Int} (h0 : -2 ^ 15 ≤ n) (h1 : n < 2 ^ 15) : (short n).toInt = n := by
  rw [short_toInt_eq]
  omega

theorem short_of_toInt (x : Int16) : short x.toInt = x := Int16.ofInt_toInt x

theorem sizeT_of_nonneg {n : Int} (h0 : 0 ≤ n) (h1 : n < 2 ^ 64) : sizeT n = n.toNat := by
  unfold sizeT
  rw [Int.emod_eq_of_lt h0 h1]

/-- A negative `int` becomes a huge `size_t`. -/
theorem sizeT_of_neg {n : Int} (h0 : n < 0) (h1 : -2 ^ 63 ≤ n) : 2 ^ 63 ≤ sizeT n := by
  unfold sizeT
  omega

theorem sizeAdd_eq {a b : Nat} (h : a + b < 2 ^ 64) : sizeAdd a b = a + b := Nat.mod_eq_of_lt h

theorem sizeSub_eq {a b : Nat} (hle : b ≤ a) (ha : a < 2 ^ 64) : sizeSub a b = a - b := by
  unfold sizeSub
  omega

/-! ## Blocks of chars -/

/-- `new char[n]`, the bytes of the new block being `init 0, init 1, …`. -/
def newChars (init : Nat → UInt8) (n : Int) : Except Fault (List UInt8) :=
  if n < 0 then .error .badArrayNewLength else .ok ((List.range n.toNat).map init)

/-- `mem[i] = b`. -/
def store (mem : List UInt8) (i : Int) (b : UInt8) : Except Fault (List UInt8) :=
  if 0 ≤ i ∧ i < mem.length then .ok (mem.set i.toNat b) else .error .outOfBounds

/-- `memcpy(dst + off, src + srcOff, n)`. -/
def memcpy (dst : List UInt8) (off : Int) (src : List UInt8) (srcOff : Int) (n : Nat) :
    Except Fault (List UInt8) :=
  if 0 ≤ off ∧ off + n ≤ dst.length ∧ 0 ≤ srcOff ∧ srcOff + n ≤ src.length then
    .ok (dst.take off.toNat ++ (src.drop srcOff.toNat).take n ++ dst.drop (off.toNat + n))
  else .error .outOfBounds

/-- `memset(mem, 0, n)`. -/
def memset (mem : List UInt8) (n : Nat) : Except Fault (List UInt8) :=
  if n ≤ mem.length then .ok (List.replicate n 0 ++ mem.drop n) else .error .outOfBounds

theorem newChars_ok {init : Nat → UInt8} {n : Int} (h : 0 ≤ n) :
    newChars init n = .ok ((List.range n.toNat).map init) := by
  unfold newChars
  rw [if_neg (by omega)]

theorem newChars_neg {init : Nat → UInt8} {n : Int} (h : n < 0) :
    newChars init n = .error .badArrayNewLength := by
  unfold newChars
  rw [if_pos h]

theorem store_ok {mem : List UInt8} {i : Int} {b : UInt8} (h0 : 0 ≤ i) (h1 : i < mem.length) :
    store mem i b = .ok (mem.set i.toNat b) := by
  unfold store
  rw [if_pos ⟨h0, h1⟩]

theorem store_neg {mem : List UInt8} {i : Int} {b : UInt8} (h : i < 0) :
    store mem i b = .error .outOfBounds := by
  unfold store
  rw [if_neg (by omega)]

/-- A copy that stays within both blocks, with natural offsets. -/
theorem memcpy_ok {dst src : List UInt8} {off srcOff n : Nat} (hd : off + n ≤ dst.length)
    (hs : srcOff + n ≤ src.length) :
    memcpy dst off src srcOff n =
      .ok (dst.take off ++ (src.drop srcOff).take n ++ dst.drop (off + n)) := by
  unfold memcpy
  rw [if_pos (by omega)]
  simp only [Int.toNat_natCast]

theorem memcpy_length {dst src mem : List UInt8} {off srcOff : Int} {n : Nat}
    (h : memcpy dst off src srcOff n = .ok mem) : mem.length = dst.length := by
  unfold memcpy at h
  split at h
  · rename_i hc
    obtain rfl := Except.ok.inj h
    simp only [List.length_append, List.length_take, List.length_drop]
    omega
  · cases h

theorem memcpy_error {dst src : List UInt8} {off srcOff : Int} {n : Nat} {e : Fault}
    (h : memcpy dst off src srcOff n = .error e) : e = .outOfBounds := by
  unfold memcpy at h
  split at h
  · cases h
  · exact (Except.error.inj h).symm

/-- A copy longer than what is left of the destination. -/
theorem memcpy_overrun {dst src : List UInt8} {off srcOff : Int} {n : Nat}
    (h : dst.length < off + n) : memcpy dst off src srcOff n = .error .outOfBounds := by
  unfold memcpy
  rw [if_neg (by omega)]

/-- A copy of more than there is behind the source pointer. -/
theorem memcpy_overread {dst src : List UInt8} {off : Int} {n : Nat} (h : src.length < n) :
    memcpy dst off src 0 n = .error .outOfBounds := by
  unfold memcpy
  rw [if_neg (by omega)]

/-- A copy to the end of the part of a block that is already filled. -/
theorem memcpy_append {pre junk src : List UInt8} {srcOff n : Nat} (hj : n ≤ junk.length)
    (hs : srcOff + n ≤ src.length) :
    memcpy (pre ++ junk) pre.length src srcOff n =
      .ok (pre ++ (src.drop srcOff).take n ++ junk.drop n) := by
  rw [memcpy_ok (by rw [List.length_append]; omega) hs, List.take_left, List.drop_append]
  simp

theorem memset_ok {mem : List UInt8} {n : Nat} (h : n ≤ mem.length) :
    memset mem n = .ok (List.replicate n 0 ++ mem.drop n) := if_pos h

/-! ## Network byte order -/

/-- `network_to_host_short` of the two bytes as they came from the wire. -/
def networkToHostShort (b₀ b₁ : UInt8) : Int16 :=
  (UInt16.ofNat (256 * b₀.toNat + b₁.toNat)).toInt16

/-- The two bytes `memcpy` takes from `host_to_network_short(x)`. -/
def hostToNetworkShort (x : Int16) : List UInt8 :=
  [UInt8.ofNat (x.toUInt16.toNat / 256), UInt8.ofNat x.toUInt16.toNat]

/-- `memcpy(&x, mem + i, 2); x = network_to_host_short(x);`. -/
def loadShort (mem : List UInt8) (i : Nat) : Except Fault Int16 :=
  match mem.drop i with
  | b₀ :: b₁ :: _ => .ok (networkToHostShort b₀ b₁)
  | _ => .error .outOfBounds

/-- **Reading back what was written to the wire.** -/
theorem networkToHostShort_hostToNetworkShort (x : Int16) {b₀ b₁ : UInt8}
    (h : hostToNetworkShort x = [b₀, b₁]) : networkToHostShort b₀ b₁ = x := by
  obtain ⟨rfl, rfl⟩ : UInt8.ofNat (x.toUInt16.toNat / 256) = b₀ ∧
      UInt8.ofNat x.toUInt16.toNat = b₁ := by
    simpa [hostToNetworkShort] using h
  have hlt : x.toUInt16.toNat < 2 ^ 16 := x.toUInt16.toNat_lt
  have hsum : 256 * (UInt8.ofNat (x.toUInt16.toNat / 256)).toNat
      + (UInt8.ofNat x.toUInt16.toNat).toNat = x.toUInt16.toNat := by
    simp only [UInt8.toNat_ofNat']
    omega
  unfold networkToHostShort
  rw [hsum, UInt16.ofNat_toNat]
  rfl

/-- **Writing back what was read from the wire.** -/
theorem hostToNetworkShort_networkToHostShort (b₀ b₁ : UInt8) :
    hostToNetworkShort (networkToHostShort b₀ b₁) = [b₀, b₁] := by
  have h₀ : b₀.toNat < 2 ^ 8 := b₀.toNat_lt
  have h₁ : b₁.toNat < 2 ^ 8 := b₁.toNat_lt
  have hword : (networkToHostShort b₀ b₁).toUInt16.toNat = 256 * b₀.toNat + b₁.toNat := by
    show (UInt16.ofNat (256 * b₀.toNat + b₁.toNat)).toNat = _
    rw [UInt16.toNat_ofNat']
    omega
  have hhigh : UInt8.ofNat ((256 * b₀.toNat + b₁.toNat) / 256) = b₀ := by
    refine UInt8.toNat.inj ?_
    rw [UInt8.toNat_ofNat']
    omega
  have hlow : UInt8.ofNat (256 * b₀.toNat + b₁.toNat) = b₁ := by
    refine UInt8.toNat.inj ?_
    rw [UInt8.toNat_ofNat']
    omega
  unfold hostToNetworkShort
  rw [hword, hhigh, hlow]

theorem hostToNetworkShort_length (x : Int16) : (hostToNetworkShort x).length = 2 := rfl

end AsioLearn.Cpp
