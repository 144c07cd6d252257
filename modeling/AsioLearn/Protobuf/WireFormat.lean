import AsioLearn.Protobuf.Classes

/-!
# The wire format, computed

A library that behaves as the documentation of the wire format says. It takes varints in their
bounds only, and refuses groups, which proto3 does not write.

Results:
* **`wire_documented`**: the functions generated code calls do what is documented of them.
-/

namespace AsioLearn.Protobuf

open Lib.Varint (encode decode decode_encode decode_shorter)
open Lib.Records

/-- An unknown field: its tag, and what stands behind it. -/
structure UnknownField where
  tag : UInt32
  payload : List UInt8
  deriving DecidableEq

/-! ## Reading -/

/-- A varint below `bound`. -/
def readVarint (bound : Nat) (p : List UInt8) : Option (Nat × List UInt8) :=
  match decode p with
  | some r => if r.1 < bound then some r else none
  | none => none

/-- The next `n` bytes. -/
def takeBytes (n : Nat) (p : List UInt8) : Option (List UInt8 × List UInt8) :=
  if n ≤ p.length then some (p.take n, p.drop n) else none

/-- A length of at most `limit` and as many bytes. -/
def lengthDelimited (limit : Nat) (p : List UInt8) : Option (List UInt8 × List UInt8) :=
  match readVarint (limit + 1) p with
  | some (n, p) => takeBytes n p
  | none => none

/-- A `uint64`. -/
def readUInt64 (p : List UInt8) : Option (UInt64 × List UInt8) :=
  (readVarint (2 ^ 64) p).map fun r => (UInt64.ofNat r.1, r.2)

/-- A value of a packed field. -/
def packedValue (s : List Int32 × List UInt8) : Except Unit (List Int32 × List UInt8) :=
  match readUInt64 s.2 with
  | some (v, p) => .ok (s.1 ++ [v.toUInt32.toInt32], p)
  | none => .error ()

/-- What stands behind the tag of an unknown field, as it will be written. -/
def unknownPayload (limit : Nat) (tag : UInt32) (p : List UInt8) :
    Option (List UInt8 × List UInt8) :=
  if tag >>> 3 = 0 then none
  else if tag &&& 7 = 0 then (readUInt64 p).map fun r => (encode r.1.toNat, r.2)
  else if tag &&& 7 = 1 then takeBytes 8 p
  else if tag &&& 7 = 2 then (lengthDelimited limit p).map fun r => (stringBytes r.1, r.2)
  else if tag &&& 7 = 5 then takeBytes 4 p
  else none

/-- Little-endian. -/
def loadFloat : List UInt8 → Option (UInt32 × List UInt8)
  | b₀ :: b₁ :: b₂ :: b₃ :: rest =>
    some (UInt32.ofNat (b₀.toNat + 2 ^ 8 * b₁.toNat + 2 ^ 16 * b₂.toNat + 2 ^ 24 * b₃.toNat), rest)
  | _ => none

/-- The library. -/
def wire (limit : Nat) : Runtime UnknownField where
  readTag p := (readVarint (2 ^ 32) p).map fun r => (UInt32.ofNat r.1, r.2)
  readVarint64 := readUInt64
  packedInt32Parser xs p :=
    match lengthDelimited limit p with
    | some (block, rest) =>
      match parse packedValue (xs, block) with
      | some (.ok (ys, _)) => some (ys, rest)
      | _ => none
    | none => none
  inlineGreedyStringParser := lengthDelimited limit
  verifyUTF8 s _ := decide (Utf8 s)
  unalignedLoadFloat := loadFloat
  unknownFieldParse tag us p :=
    (unknownPayload limit tag p).map fun r => (us ++ [⟨tag, r.1⟩], r.2)
  writeInt32ToArray field v target := target ++ (tagBytes field 0 ++ int32Bytes v)
  writeInt32Packed field xs size target :=
    target ++ (tagBytes field 2 ++ (encode size.toUInt32.toNat ++ xs.flatMap int32Bytes))
  writeStringMaybeAliased field s target := target ++ (tagBytes field 2 ++ stringBytes s)
  writeFloatToArray field bits target := target ++ (tagBytes field 5 ++ floatBytes bits)
  serializeUnknownFields us target := target ++ us.flatMap fun u => encode u.tag.toNat ++ u.payload
  int32Size v := (int32Bytes v).length
  int32ListSize xs := (xs.flatMap int32Bytes).length
  stringSize s := (stringBytes s).length
  computeUnknownFieldsSize us total :=
    total + (us.flatMap fun u => encode u.tag.toNat ++ u.payload).length
  unknownTag := UnknownField.tag
  unknownPayload := UnknownField.payload

/-! ## Each reader undoes its writer -/

variable {limit : Nat}

theorem readVarint_encode {n bound : Nat} (h : n < bound) (rest : List UInt8) :
    readVarint bound (encode n ++ rest) = some (n, rest) := by
  rw [readVarint, decode_encode]
  exact if_pos h

theorem readVarint_lt {n bound : Nat} {p q : List UInt8} (h : readVarint bound p = some (n, q)) :
    n < bound ∧ q.length < p.length := by
  unfold readVarint at h
  split at h
  · rename_i r hr
    split at h
    · rename_i hlt
      obtain rfl := Option.some.inj h
      exact ⟨hlt, decode_shorter hr⟩
    · cases h
  · cases h

theorem takeBytes_append (s rest : List UInt8) :
    takeBytes s.length (s ++ rest) = some (s, rest) := by
  rw [takeBytes, if_pos (by rw [List.length_append]; omega), List.take_left, List.drop_left]

theorem takeBytes_cases {n : Nat} {s p q : List UInt8} (h : takeBytes n p = some (s, q)) :
    s.length = n ∧ q.length ≤ p.length := by
  unfold takeBytes at h
  split at h
  · obtain ⟨rfl, rfl⟩ := Prod.mk.inj (Option.some.inj h)
    rw [List.length_take, List.length_drop]
    omega
  · cases h

theorem lengthDelimited_bytes {s : List UInt8} (h : s.length ≤ limit) (rest : List UInt8) :
    lengthDelimited limit (stringBytes s ++ rest) = some (s, rest) := by
  rw [lengthDelimited, stringBytes, List.append_assoc, readVarint_encode (by omega)]
  exact takeBytes_append s rest

theorem lengthDelimited_cases {s p q : List UInt8} (h : lengthDelimited limit p = some (s, q)) :
    s.length ≤ limit ∧ q.length ≤ p.length := by
  unfold lengthDelimited at h
  split at h
  · rename_i n p' hn
    obtain ⟨hlt, hp⟩ := readVarint_lt hn
    obtain ⟨hs, hq⟩ := takeBytes_cases h
    exact ⟨by omega, by omega⟩
  · cases h

theorem readUInt64_encode (v : UInt64) (rest : List UInt8) :
    readUInt64 (encode v.toNat ++ rest) = some (v, rest) := by
  rw [readUInt64, readVarint_encode v.toNat_lt, Option.map_some, UInt64.ofNat_toNat]

theorem readUInt64_lt {v : UInt64} {p q : List UInt8} (h : readUInt64 p = some (v, q)) :
    q.length < p.length := by
  obtain ⟨r, hr, heq⟩ := Option.map_eq_some_iff.mp h
  obtain ⟨-, rfl⟩ := Prod.mk.inj heq
  exact (readVarint_lt hr).2

theorem loadFloat_bytes (bits : UInt32) (rest : List UInt8) :
    loadFloat (floatBytes bits ++ rest) = some (bits, rest) := by
  have hlt := bits.toNat_lt
  have hbytes : bits.toUInt8.toNat + 2 ^ 8 * (bits >>> 8).toUInt8.toNat
      + 2 ^ 16 * (bits >>> 16).toUInt8.toNat + 2 ^ 24 * (bits >>> 24).toUInt8.toNat
      = bits.toNat := by
    simp only [UInt32.toNat_toUInt8, UInt32.toNat_shiftRight, UInt32.reduceToNat,
      Nat.shiftRight_eq_div_pow, Nat.reduceMod, Nat.reducePow]
    omega
  rw [floatBytes, List.cons_append, List.cons_append, List.cons_append, List.singleton_append,
    loadFloat, hbytes, UInt32.ofNat_toNat]

theorem loadFloat_le : ∀ {bits : UInt32} {p q : List UInt8}, loadFloat p = some (bits, q) →
    q.length ≤ p.length
  | _, _ :: _ :: _ :: _ :: _, _, h => by
    obtain ⟨-, rfl⟩ := Prod.mk.inj (Option.some.inj h)
    simp only [List.length_cons]
    omega
  | _, [], _, h => by cases h
  | _, [_], _, h => by cases h
  | _, [_, _], _, h => by cases h
  | _, [_, _, _], _, h => by cases h

/-! ## Packed values -/

theorem shrinks_packedValue : Shrinks packedValue := by
  intro s t h
  unfold packedValue at h
  split at h
  · rename_i v p hv
    obtain rfl := Except.ok.inj h
    exact readUInt64_lt hv
  · cases h

theorem applies_packed (ys : List Int32) :
    Applies packedValue (ys.flatMap int32Bytes) (ys.foldl fun xs y => xs ++ [y]) := by
  refine Applies.flatMap fun y _ => Applies.record (Lib.Varint.encode_ne_nil _) fun xs rest => ?_
  simp only [packedValue, int32Bytes, readUInt64_encode, toInt32_toUInt64]

theorem parse_packed (xs ys : List Int32) :
    parse packedValue (xs, ys.flatMap int32Bytes) = some (.ok (xs ++ ys, [])) := by
  have h := parse_applies shrinks_packedValue (applies_packed ys) xs []
  rw [List.append_nil, List.foldl_append_eq_append, ← List.flatMap_def, List.flatMap_singleton',
    parse_nil] at h
  exact h

/-! ## Unknown fields -/

/-- What is written of an unknown field is read back the same, in front of anything. -/
theorem unknownPayload_cases {tag : UInt32} {p q payload : List UInt8}
    (h : unknownPayload limit tag p = some (payload, q)) :
    q.length ≤ p.length ∧
      ∀ rest, unknownPayload limit tag (payload ++ rest) = some (payload, rest) := by
  unfold unknownPayload at h ⊢
  split_ifs at h ⊢
  · obtain ⟨r, hr, heq⟩ := Option.map_eq_some_iff.mp h
    obtain ⟨rfl, rfl⟩ := Prod.mk.inj heq
    exact ⟨(readUInt64_lt hr).le, fun rest => by rw [readUInt64_encode, Option.map_some]⟩
  · obtain ⟨hlen, hle⟩ := takeBytes_cases h
    exact ⟨hle, fun rest => by rw [← hlen, takeBytes_append]⟩
  · obtain ⟨r, hr, heq⟩ := Option.map_eq_some_iff.mp h
    obtain ⟨rfl, rfl⟩ := Prod.mk.inj heq
    obtain ⟨hlen, hle⟩ := lengthDelimited_cases hr
    exact ⟨hle, fun rest => by rw [lengthDelimited_bytes hlen, Option.map_some]⟩
  · obtain ⟨hlen, hle⟩ := takeBytes_cases h
    exact ⟨hle, fun rest => by rw [← hlen, takeBytes_append]⟩

/-- What has been read as an unknown field can be written and read again. -/
theorem readable_of_payload {u : UnknownField} {p q : List UInt8}
    (h : unknownPayload limit u.tag p = some (u.payload, q)) : (wire limit).Readable u := by
  intro us rest
  change (unknownPayload limit u.tag (u.payload ++ rest)).map _ = _
  rw [(unknownPayload_cases h).2 rest]
  rfl

/-! ## The library is as documented -/

theorem wire_documented (hlimit : limit < 2 ^ 31) : (wire limit).Documented limit where
  limit_lt := hlimit
  readTag tag rest := by
    change (readVarint (2 ^ 32) (encode tag.toNat ++ rest)).map _ = _
    rw [readVarint_encode tag.toNat_lt, Option.map_some, UInt32.ofNat_toNat]
  readTag_lt h := by
    obtain ⟨r, hr, heq⟩ := Option.map_eq_some_iff.mp h
    obtain ⟨-, rfl⟩ := Prod.mk.inj heq
    exact (readVarint_lt hr).2
  readVarint64 := readUInt64_encode
  readVarint64_le h := (readUInt64_lt h).le
  packedInt32Parser {ys} xs rest h := by
    have hblock : lengthDelimited limit (packedBytes ys ++ rest) =
        some (ys.flatMap int32Bytes, rest) := lengthDelimited_bytes h rest
    simp only [wire, hblock, parse_packed]
  packedInt32Parser_le {xs ys p q} h := by
    simp only [wire] at h
    split at h
    · rename_i block rest hblock
      split at h
      · obtain ⟨-, rfl⟩ := Prod.mk.inj (Option.some.inj h)
        exact (lengthDelimited_cases hblock).2
      · cases h
    · cases h
  inlineGreedyStringParser rest h := lengthDelimited_bytes h rest
  inlineGreedyStringParser_le h := (lengthDelimited_cases h).2
  verifyUTF8 s _ := decide_eq_true_iff
  unalignedLoadFloat := loadFloat_bytes
  unalignedLoadFloat_le := loadFloat_le
  unknownFieldParse {tag us vs p q} h := by
    obtain ⟨r, hr, heq⟩ := Option.map_eq_some_iff.mp h
    obtain ⟨rfl, rfl⟩ := Prod.mk.inj heq
    exact ⟨(unknownPayload_cases hr).1, ⟨tag, r.1⟩, rfl, rfl, readable_of_payload hr⟩
  writeInt32ToArray _ _ _ := rfl
  writeInt32Packed _ _ _ _ := rfl
  writeStringMaybeAliased _ _ _ _ := rfl
  writeFloatToArray _ _ _ := rfl
  serializeUnknownFields _ _ := rfl
  int32Size _ := rfl
  int32ListSize _ := rfl
  stringSize _ := rfl
  computeUnknownFieldsSize _ _ := rfl

end AsioLearn.Protobuf
