import Mathlib.Data.List.Basic
import Mathlib.Tactic.Linarith

/-!
# Base-128 varints

A number as groups of seven bits, the lowest first; every byte but the last has its high bit set.
`decode` reads one from the front of a buffer and gives what follows it.

Results:
* `encode_ne_nil`, `encode_singleton`: an encoding is not empty, and below 128 it is one byte.
* **`decode_encode`**: `decode` undoes `encode`, whatever follows.
* `decode_shorter`: `decode` takes at least one byte.
-/

namespace AsioLearn.Lib.Varint

/-- The groups of `n`. -/
def encode (n : Nat) : List UInt8 :=
  if n < 128 then [UInt8.ofNat n] else UInt8.ofNat (n % 128 + 128) :: encode (n / 128)
termination_by n
decreasing_by omega

/-- The number at the front, and what follows it; `none` where the buffer ends inside it. -/
def decode : List UInt8 → Option (Nat × List UInt8)
  | [] => none
  | b :: rest =>
    if b.toNat < 128 then some (b.toNat, rest)
    else (decode rest).map fun r => (b.toNat - 128 + 128 * r.1, r.2)

theorem encode_singleton {n : Nat} (h : n < 128) : encode n = [UInt8.ofNat n] := by
  rw [encode, if_pos h]

theorem encode_cons {n : Nat} (h : 128 ≤ n) :
    encode n = UInt8.ofNat (n % 128 + 128) :: encode (n / 128) := by
  rw [encode, if_neg (by omega)]

theorem encode_ne_nil (n : Nat) : encode n ≠ [] := by
  rw [encode]
  split <;> exact List.cons_ne_nil _ _

/-- **`decode` undoes `encode`.** -/
theorem decode_encode (n : Nat) (rest : List UInt8) :
    decode (encode n ++ rest) = some (n, rest) := by
  induction n using Nat.strongRecOn with
  | ind n ih =>
    by_cases h : n < 128
    · have hbyte : (UInt8.ofNat n).toNat = n := by
        rw [UInt8.toNat_ofNat', Nat.mod_eq_of_lt (by omega)]
      rw [encode_singleton h, List.singleton_append, decode, hbyte, if_pos h]
    · have hbyte : (UInt8.ofNat (n % 128 + 128)).toNat = n % 128 + 128 := by
        rw [UInt8.toNat_ofNat', Nat.mod_eq_of_lt (by omega)]
      rw [encode_cons (by omega), List.cons_append, decode, hbyte, if_neg (by omega),
        ih (n / 128) (by omega), Option.map_some]
      have hn : n % 128 + 128 - 128 + 128 * (n / 128) = n := by omega
      rw [hn]

theorem decode_shorter : ∀ {bytes rest : List UInt8} {n : Nat}, decode bytes = some (n, rest) →
    rest.length < bytes.length
  | [], _, _, h => by cases h
  | b :: bytes, rest, n, h => by
    rw [decode] at h
    split at h
    · obtain ⟨-, rfl⟩ := Prod.mk.inj (Option.some.inj h)
      exact Nat.lt_succ_self _
    · obtain ⟨r, hr, hrest⟩ := Option.map_eq_some_iff.mp h
      obtain ⟨-, rfl⟩ := Prod.mk.inj hrest
      have := decode_shorter hr
      rw [List.length_cons]
      omega

end AsioLearn.Lib.Varint
