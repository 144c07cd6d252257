import AsioLearn.Lib.Records
import AsioLearn.Lib.Varint

/-!
# Generated messages

The classes of `nqueen.pb.cc`, `demo.pb.cc` and `msg.pb.cc`. They differ in their fields: what
`Clear`, `MergeFrom`, `ByteSizeLong` and `_InternalSerialize` do to them, and the `switch` of
`_InternalParse` (`Generated`). The loop around the switch and the treatment of unknown fields are
the same in all of them and stand here once.

* The protobuf library is the parameter `rt`; `Documented rt limit` is what the wire format's
  documentation says of the functions called, `limit` being the longest length prefix it reads.
* A `const char *ptr` is the bytes of the buffer from it on, and `none` the null pointer; `target`
  is the bytes written before it. Of a message whose parse failed nothing is said.
* `SetLastTag` is told by the last component of `Outcome.success`: the tag the loop was left at,
  and `none` where it read to the end of the input.

Results:
* `internalParse_total`: `_InternalParse` returns.
* `length_serialize`: `ByteSizeLong` is the number of bytes `_InternalSerialize` writes after it.
* **`parse_serialize`**: parsing what a message wrote, whatever follows, is merging it.
* **`parse_wf`**: what has been parsed can be written and read again.
-/

namespace AsioLearn.Protobuf

open Lib.Varint (encode)
open Lib.Records

/-! ## The library -/

/-- The functions of the library that generated code calls, and the unknown fields `U`. -/
structure Runtime (U : Type) where
  /-- `ReadTag`. -/
  readTag : List UInt8 → Option (UInt32 × List UInt8)
  /-- `ReadVarint64`. -/
  readVarint64 : List UInt8 → Option (UInt64 × List UInt8)
  /-- `PackedInt32Parser`, which adds to a repeated field. -/
  packedInt32Parser : List Int32 → List UInt8 → Option (List Int32 × List UInt8)
  /-- `InlineGreedyStringParser`. -/
  inlineGreedyStringParser : List UInt8 → Option (List UInt8 × List UInt8)
  /-- `VerifyUTF8`, with the name of the field for its log. -/
  verifyUTF8 : List UInt8 → String → Bool
  /-- `UnalignedLoad<float>(ptr)` and `ptr += sizeof(float)`, the float as its bits. Past the end
  of the input the next `Done` makes `ptr` null. -/
  unalignedLoadFloat : List UInt8 → Option (UInt32 × List UInt8)
  /-- `UnknownFieldParse`. -/
  unknownFieldParse : UInt32 → List U → List UInt8 → Option (List U × List UInt8)
  /-- `WriteInt32ToArray`. -/
  writeInt32ToArray : Nat → Int32 → List UInt8 → List UInt8
  /-- `WriteInt32Packed`. -/
  writeInt32Packed : Nat → List Int32 → Int32 → List UInt8 → List UInt8
  /-- `WriteStringMaybeAliased`. -/
  writeStringMaybeAliased : Nat → List UInt8 → List UInt8 → List UInt8
  /-- `WriteFloatToArray`. -/
  writeFloatToArray : Nat → UInt32 → List UInt8 → List UInt8
  /-- `InternalSerializeUnknownFieldsToArray`. -/
  serializeUnknownFields : List U → List UInt8 → List UInt8
  /-- `Int32Size` of one value. -/
  int32Size : Int32 → Nat
  /-- `Int32Size` of a repeated field. -/
  int32ListSize : List Int32 → Nat
  /-- `StringSize`. -/
  stringSize : List UInt8 → Nat
  /-- `ComputeUnknownFieldsSize`. -/
  computeUnknownFieldsSize : List U → Nat → Nat
  /-- The number and type of an unknown field, as a tag. -/
  unknownTag : U → UInt32
  /-- What is written of it behind its tag. -/
  unknownPayload : U → List UInt8

/-- The tag of a field: its number and its wire type. -/
def tagBytes (field wireType : Nat) : List UInt8 := encode (8 * field + wireType)

/-- An `int32` on the wire: the varint of its sign extension. -/
def int32Bytes (v : Int32) : List UInt8 := encode v.toInt64.toUInt64.toNat

/-- A `float` on the wire: its bits, little-endian. -/
def floatBytes (bits : UInt32) : List UInt8 :=
  [bits.toUInt8, (bits >>> 8).toUInt8, (bits >>> 16).toUInt8, (bits >>> 24).toUInt8]

/-- A string on the wire: its length and its bytes. -/
def stringBytes (s : List UInt8) : List UInt8 := encode s.length ++ s

/-- A packed field on the wire: its length in bytes and its values. -/
def packedBytes (xs : List Int32) : List UInt8 :=
  encode (xs.flatMap int32Bytes).length ++ xs.flatMap int32Bytes

/-- The bytes are well-formed UTF-8. -/
def Utf8 (s : List UInt8) : Prop := s.toByteArray.IsValidUTF8

instance (s : List UInt8) : Decidable (Utf8 s) :=
  inferInstanceAs (Decidable (ByteArray.IsValidUTF8 _))

variable {U F : Type}

/-- An unknown field on the wire. -/
def Runtime.unknownBytes (rt : Runtime U) (u : U) : List UInt8 :=
  encode (rt.unknownTag u).toNat ++ rt.unknownPayload u

/-- What is written of the unknown field is read back. -/
def Runtime.Readable (rt : Runtime U) (u : U) : Prop :=
  ∀ us rest, rt.unknownFieldParse (rt.unknownTag u) us (rt.unknownPayload u ++ rest) =
    some (us ++ [u], rest)

/-- What the documentation of the wire format says of the functions: what they write, that they
read back what is written so, and that they move the pointer forwards. -/
structure Runtime.Documented (rt : Runtime U) (limit : Nat) : Prop where
  limit_lt : limit < 2 ^ 31
  readTag (tag : UInt32) (rest : List UInt8) :
    rt.readTag (encode tag.toNat ++ rest) = some (tag, rest)
  readTag_lt {tag : UInt32} {p q : List UInt8} : rt.readTag p = some (tag, q) →
    q.length < p.length
  readVarint64 (v : UInt64) (rest : List UInt8) :
    rt.readVarint64 (encode v.toNat ++ rest) = some (v, rest)
  readVarint64_le {v : UInt64} {p q : List UInt8} : rt.readVarint64 p = some (v, q) →
    q.length ≤ p.length
  packedInt32Parser {ys : List Int32} (xs : List Int32) (rest : List UInt8) :
    (ys.flatMap int32Bytes).length ≤ limit →
      rt.packedInt32Parser xs (packedBytes ys ++ rest) = some (xs ++ ys, rest)
  packedInt32Parser_le {xs ys : List Int32} {p q : List UInt8} :
    rt.packedInt32Parser xs p = some (ys, q) → q.length ≤ p.length
  inlineGreedyStringParser {s : List UInt8} (rest : List UInt8) : s.length ≤ limit →
    rt.inlineGreedyStringParser (stringBytes s ++ rest) = some (s, rest)
  inlineGreedyStringParser_le {s p q : List UInt8} :
    rt.inlineGreedyStringParser p = some (s, q) → q.length ≤ p.length
  verifyUTF8 (s : List UInt8) (field : String) : rt.verifyUTF8 s field = true ↔ Utf8 s
  unalignedLoadFloat (bits : UInt32) (rest : List UInt8) :
    rt.unalignedLoadFloat (floatBytes bits ++ rest) = some (bits, rest)
  unalignedLoadFloat_le {bits : UInt32} {p q : List UInt8} :
    rt.unalignedLoadFloat p = some (bits, q) → q.length ≤ p.length
  /-- An unknown field is kept under its tag, and can be written and read again. -/
  unknownFieldParse {tag : UInt32} {us vs : List U} {p q : List UInt8} :
    rt.unknownFieldParse tag us p = some (vs, q) →
      q.length ≤ p.length ∧ ∃ u, vs = us ++ [u] ∧ rt.unknownTag u = tag ∧ rt.Readable u
  writeInt32ToArray (field : Nat) (v : Int32) (target : List UInt8) :
    rt.writeInt32ToArray field v target = target ++ (tagBytes field 0 ++ int32Bytes v)
  writeInt32Packed (field : Nat) (xs : List Int32) (size : Int32) (target : List UInt8) :
    rt.writeInt32Packed field xs size target =
      target ++ (tagBytes field 2 ++ (encode size.toUInt32.toNat ++ xs.flatMap int32Bytes))
  writeStringMaybeAliased (field : Nat) {s : List UInt8} (target : List UInt8) :
    s.length ≤ limit →
      rt.writeStringMaybeAliased field s target = target ++ (tagBytes field 2 ++ stringBytes s)
  writeFloatToArray (field : Nat) (bits : UInt32) (target : List UInt8) :
    rt.writeFloatToArray field bits target = target ++ (tagBytes field 5 ++ floatBytes bits)
  serializeUnknownFields (us : List U) (target : List UInt8) :
    rt.serializeUnknownFields us target = target ++ us.flatMap rt.unknownBytes
  int32Size (v : Int32) : rt.int32Size v = (int32Bytes v).length
  int32ListSize (xs : List Int32) : rt.int32ListSize xs = (xs.flatMap int32Bytes).length
  stringSize (s : List UInt8) : rt.stringSize s = (stringBytes s).length
  computeUnknownFieldsSize (us : List U) (total : Nat) :
    rt.computeUnknownFieldsSize us total = total + (us.flatMap rt.unknownBytes).length

/-! ## The classes -/

/-- What is generated for the fields `F` of one class. -/
structure Generated (F : Type) where
  /-- `Clear`. -/
  clear : F → F
  /-- The `switch` of `_InternalParse`; `none` where it goes to `handle_unusual`. -/
  switch : UInt32 → F → List UInt8 → Option (Option (F × List UInt8))
  /-- `_InternalSerialize` up to the unknown fields. -/
  serialize : F → List UInt8 → List UInt8
  /-- `ByteSizeLong` up to the unknown fields, and the fields with the sizes it has cached. -/
  byteSize : F → Nat × F
  /-- `MergeFrom`. -/
  mergeFrom : F → F → F

/-- An object of a class: its fields, and the unknown fields of `_internal_metadata_`. -/
structure Message (U F : Type) where
  fields : F
  unknownFields : List U
  deriving DecidableEq

/-- What `_InternalParse` returns: null, or a pointer behind what it has read. -/
inductive Outcome (U F : Type) where
  | failure
  | success (m : Message U F) (ptr : List UInt8) (lastTag : Option UInt32)
  deriving DecidableEq

/-- `P` holds of the message, if there is one. -/
def Outcome.Holds (P : Message U F → Prop) : Outcome U F → Prop
  | failure => True
  | success m _ _ => P m

/-- `(tag & 7) == 4 || tag == 0`. -/
def EndsMessage (tag : UInt32) : Prop := tag &&& 7 = 4 ∨ tag = 0

instance (tag : UInt32) : Decidable (EndsMessage tag) :=
  inferInstanceAs (Decidable (_ ∨ _))

variable (rt : Runtime U) (G : Generated F)

/-- A round of the loop of `_InternalParse`. -/
def parseField (s : Message U F × List UInt8) :
    Except (Outcome U F) (Message U F × List UInt8) :=
  match rt.readTag s.2 with
  | none => .error .failure
  | some (tag, ptr) =>
    match G.switch tag s.1.fields ptr with
    | some (some (fields, ptr)) => .ok (⟨fields, s.1.unknownFields⟩, ptr)
    | some none => .error .failure
    | none =>
      -- handle_unusual
      if EndsMessage tag then .error (.success s.1 ptr (some tag))
      else
        match rt.unknownFieldParse tag s.1.unknownFields ptr with
        | some (unknownFields, ptr) => .ok (⟨s.1.fields, unknownFields⟩, ptr)
        | none => .error .failure

/-- What the loop is left with. -/
def returned : Except (Outcome U F) (Message U F × List UInt8) → Outcome U F
  | .ok (m, ptr) => .success m ptr none
  | .error e => e

/-- `_InternalParse`. -/
def Message.internalParse (m : Message U F) (ptr : List UInt8) : Option (Outcome U F) :=
  (parse (parseField rt G) (m, ptr)).map returned

/-- `_InternalSerialize`. -/
def Message.internalSerialize (m : Message U F) (target : List UInt8) : List UInt8 :=
  let target := G.serialize m.fields target
  if m.unknownFields = [] then target else rt.serializeUnknownFields m.unknownFields target

/-- `ByteSizeLong`. -/
def Message.byteSizeLong (m : Message U F) : Nat × Message U F :=
  let (totalSize, fields) := G.byteSize m.fields
  (if m.unknownFields = [] then totalSize
    else rt.computeUnknownFieldsSize m.unknownFields totalSize, ⟨fields, m.unknownFields⟩)

/-- What the library's entry points write of a message: they call `ByteSizeLong` first. -/
def Message.serialize (m : Message U F) : List UInt8 :=
  (m.byteSizeLong rt G).2.internalSerialize rt G []

/-- `Clear`. -/
def Message.clear (m : Message U F) : Message U F := ⟨G.clear m.fields, []⟩

/-- `MergeFrom`. -/
def Message.mergeFrom (m src : Message U F) : Message U F :=
  ⟨G.mergeFrom m.fields src.fields, m.unknownFields ++ src.unknownFields⟩

/-- `CopyFrom`, from another object. -/
def Message.copyFrom (m src : Message U F) : Message U F := (m.clear G).mergeFrom G src

/-! ## What is asked of a class -/

variable {rt G}

/-- `f` applied to the fields of a message. -/
def Message.mapFields (f : F → F) (m : Message U F) : Message U F := ⟨f m.fields, m.unknownFields⟩

/-- The switch has no case for the tag. -/
def Generated.Unusual (G : Generated F) (tag : UInt32) : Prop :=
  ∀ fields ptr, G.switch tag fields ptr = none

/-- The wire format of a class: the bytes of its fields, which of their values a parser accepts, and
that the generated functions agree with these. -/
structure Format (rt : Runtime U) (G : Generated F) (limit : Nat) where
  bytes : F → List UInt8
  Valid : F → Prop
  byteSize {f : F} : (G.byteSize f).1 ≤ limit → (G.byteSize f).1 = (bytes f).length
  serialize {f : F} (target : List UInt8) : (G.byteSize f).1 ≤ limit →
    G.serialize (G.byteSize f).2 target = target ++ bytes f
  unusual {tag : UInt32} {f : F} {p : List UInt8} : G.switch tag f p = none → G.Unusual tag
  shrinks {tag : UInt32} {f g : F} {p q : List UInt8} : G.switch tag f p = some (some (g, q)) →
    q.length ≤ p.length
  valid {tag : UInt32} {f g : F} {p q : List UInt8} : G.switch tag f p = some (some (g, q)) →
    Valid f → Valid g
  applies {f : F} : Valid f → (G.byteSize f).1 ≤ limit →
    Applies (parseField rt G) (bytes f) (Message.mapFields (G.mergeFrom · f))

variable {limit : Nat} {fmt : Format rt G limit}

/-- Its unknown fields are unknown to the class, and readable. -/
def Message.ReadableUnknown (rt : Runtime U) (G : Generated F) (m : Message U F) : Prop :=
  ∀ u ∈ m.unknownFields,
    G.Unusual (rt.unknownTag u) ∧ ¬ EndsMessage (rt.unknownTag u) ∧ rt.Readable u

/-- The message can be written and read again. -/
structure Message.Wf (fmt : Format rt G limit) (m : Message U F) : Prop where
  valid : fmt.Valid m.fields
  unknown : m.ReadableUnknown rt G

/-- The size of the message does not exceed what a length prefix can tell. -/
def Message.Fits (rt : Runtime U) (G : Generated F) (limit : Nat) (m : Message U F) : Prop :=
  (m.byteSizeLong rt G).1 ≤ limit

instance (m : Message U F) : Decidable (m.Fits rt G limit) :=
  inferInstanceAs (Decidable (_ ≤ _))

theorem Message.Fits.fields {m : Message U F} (hrt : rt.Documented limit)
    (h : m.Fits rt G limit) : (G.byteSize m.fields).1 ≤ limit := by
  unfold Message.Fits Message.byteSizeLong at h
  dsimp only at h
  split at h
  · exact h
  · rw [hrt.computeUnknownFieldsSize] at h
    exact (Nat.le_add_right _ _).trans h

/-! ## Writing -/

theorem serialize_eq (hrt : rt.Documented limit) (fmt : Format rt G limit) {m : Message U F}
    (hm : m.Fits rt G limit) :
    m.serialize rt G = fmt.bytes m.fields ++ m.unknownFields.flatMap rt.unknownBytes := by
  unfold Message.serialize Message.internalSerialize Message.byteSizeLong
  dsimp only
  rw [fmt.serialize [] (hm.fields hrt), List.nil_append, hrt.serializeUnknownFields]
  split
  · rename_i h
    rw [h, List.flatMap_nil, List.append_nil]
  · rfl

/-- **`ByteSizeLong` is the number of bytes written.** -/
theorem length_serialize (hrt : rt.Documented limit) (fmt : Format rt G limit) {m : Message U F}
    (hm : m.Fits rt G limit) : (m.serialize rt G).length = (m.byteSizeLong rt G).1 := by
  rw [serialize_eq hrt fmt hm, List.length_append, ← fmt.byteSize (hm.fields hrt)]
  unfold Message.byteSizeLong
  dsimp only
  split
  · rename_i h
    rw [h]
    rfl
  · rw [hrt.computeUnknownFieldsSize]

/-! ## Reading -/

/-- A record of a field whose case of the switch reads what stands behind the tag. -/
theorem applies_field (hrt : rt.Documented limit) (tag : UInt32) {payload : List UInt8}
    {f : F → F}
    (h : ∀ fields rest, G.switch tag fields (payload ++ rest) = some (some (f fields, rest))) :
    Applies (parseField rt G) (encode tag.toNat ++ payload) (Message.mapFields f) := by
  refine Applies.record (fun hnil => Lib.Varint.encode_ne_nil _ (List.append_eq_nil_iff.mp hnil).1)
    fun m rest => ?_
  simp only [parseField, List.append_assoc, hrt.readTag, h]
  rfl

theorem applies_unknown (hrt : rt.Documented limit) {u : U} (hu : G.Unusual (rt.unknownTag u))
    (hend : ¬ EndsMessage (rt.unknownTag u)) (hread : rt.Readable u) :
    Applies (parseField rt G) (rt.unknownBytes u)
      (fun m => ⟨m.fields, m.unknownFields ++ [u]⟩) := by
  refine Applies.record (fun hnil => Lib.Varint.encode_ne_nil _ (List.append_eq_nil_iff.mp hnil).1)
    fun m rest => ?_
  simp only [parseField, Runtime.unknownBytes, List.append_assoc, hrt.readTag, hu _ _, if_neg hend,
    hread _ _]

theorem foldl_unknown (us : List U) (m : Message U F) :
    us.foldl (fun (m : Message U F) u => ⟨m.fields, m.unknownFields ++ [u]⟩) m =
      ⟨m.fields, m.unknownFields ++ us⟩ := by
  induction us generalizing m with
  | nil => rw [List.foldl_nil, List.append_nil]
  | cons u us ih => rw [List.foldl_cons, ih, List.append_assoc, List.singleton_append]

/-- What a message writes merges it. -/
theorem applies_message (hrt : rt.Documented limit) {x : Message U F} (hx : x.Wf fmt)
    (hfits : x.Fits rt G limit) :
    Applies (parseField rt G) (x.serialize rt G) (·.mergeFrom G x) := by
  have hfields := fmt.applies hx.valid (hfits.fields hrt)
  have hunknown : Applies (parseField rt G) (x.unknownFields.flatMap rt.unknownBytes)
      (x.unknownFields.foldl fun (m : Message U F) u => ⟨m.fields, m.unknownFields ++ [u]⟩) :=
    Applies.flatMap fun u hu =>
      applies_unknown hrt (hx.unknown u hu).1 (hx.unknown u hu).2.1 (hx.unknown u hu).2.2
  have hall := hfields.append hunknown
  rw [← serialize_eq hrt fmt hfits] at hall
  intro m rest
  have hm := hall m rest
  rw [Function.comp_apply, foldl_unknown] at hm
  exact hm

theorem shrinks_parseField (hrt : rt.Documented limit) (fmt : Format rt G limit) :
    Shrinks (parseField rt G) := by
  intro s t h
  unfold parseField at h
  split at h
  · cases h
  · rename_i tag ptr htag
    have hlt := hrt.readTag_lt htag
    split at h
    · rename_i fields ptr' hswitch
      have hle := fmt.shrinks hswitch
      obtain rfl := Except.ok.inj h
      exact Nat.lt_of_le_of_lt hle hlt
    · cases h
    · split at h
      · cases h
      · split at h
        · rename_i us ptr' hus
          have hle := (hrt.unknownFieldParse hus).1
          obtain rfl := Except.ok.inj h
          exact Nat.lt_of_le_of_lt hle hlt
        · cases h

/-- **`_InternalParse` returns**, on any input. -/
theorem internalParse_total (hrt : rt.Documented limit) (fmt : Format rt G limit)
    (m : Message U F) (ptr : List UInt8) : ∃ o, m.internalParse rt G ptr = some o := by
  obtain ⟨r, hr⟩ := parse_total (shrinks_parseField hrt fmt) (m, ptr)
  exact ⟨returned r, by rw [Message.internalParse, hr, Option.map_some]⟩

theorem internalParse_nil (m : Message U F) :
    m.internalParse rt G [] = some (.success m [] none) := by
  rw [Message.internalParse, parse_nil]
  rfl

/-- **Parsing what a message wrote is merging it**, whatever follows. -/
theorem parse_serialize (hrt : rt.Documented limit) {x : Message U F} (hx : x.Wf fmt)
    (hfits : x.Fits rt G limit) (m : Message U F) (rest : List UInt8) :
    m.internalParse rt G (x.serialize rt G ++ rest) =
      (m.mergeFrom G x).internalParse rt G rest := by
  rw [Message.internalParse,
    parse_applies (shrinks_parseField hrt fmt) (applies_message hrt hx hfits)]
  rfl

theorem parse_serialize_one (hrt : rt.Documented limit) {x : Message U F} (hx : x.Wf fmt)
    (hfits : x.Fits rt G limit) (m : Message U F) :
    m.internalParse rt G (x.serialize rt G) = some (.success (m.mergeFrom G x) [] none) := by
  have h := parse_serialize hrt hx hfits m []
  rwa [List.append_nil, internalParse_nil] at h

/-- Into a cleared message it is `CopyFrom`. -/
theorem parse_clear_serialize (hrt : rt.Documented limit) {x : Message U F} (hx : x.Wf fmt)
    (hfits : x.Fits rt G limit) (m : Message U F) :
    (m.clear G).internalParse rt G (x.serialize rt G) = some (.success (m.copyFrom G x) [] none) :=
  parse_serialize_one hrt hx hfits (m.clear G)

/-- Any number of messages behind one another are merged in turn. -/
theorem parse_serialize_all (hrt : rt.Documented limit) :
    ∀ {xs : List (Message U F)}, (∀ x ∈ xs, x.Wf fmt ∧ x.Fits rt G limit) → ∀ m : Message U F,
      m.internalParse rt G (xs.flatMap (·.serialize rt G)) =
        some (.success (xs.foldl (·.mergeFrom G ·) m) [] none)
  | [], _, m => internalParse_nil m
  | x :: xs, h, m => by
    obtain ⟨hx, hfits⟩ := h x List.mem_cons_self
    rw [List.flatMap_cons, parse_serialize hrt hx hfits, List.foldl_cons]
    exact parse_serialize_all hrt (fun y hy => h y (List.mem_cons_of_mem x hy)) _

/-! ## What has been read -/

/-- A round of the loop keeps the message well formed. -/
theorem parseField_wf (hrt : rt.Documented limit) {m : Message U F} (hm : m.Wf fmt)
    (ptr : List UInt8) :
    Lib.Hoare.Ends (fun t => t.1.Wf fmt) (·.Holds (·.Wf fmt)) (parseField rt G (m, ptr)) := by
  unfold parseField
  split
  · trivial
  · rename_i tag ptr htag
    split
    · rename_i fields ptr' hswitch
      exact ⟨fmt.valid hswitch hm.valid, hm.unknown⟩
    · trivial
    · rename_i hnone
      split
      · exact hm
      · rename_i hend
        split
        · rename_i us ptr' hus
          obtain ⟨-, u, rfl, rfl, hread⟩ := hrt.unknownFieldParse hus
          refine ⟨hm.valid, fun v hv => ?_⟩
          rcases List.mem_append.mp hv with hv | hv
          · exact hm.unknown v hv
          · obtain rfl := List.mem_singleton.mp hv
            exact ⟨fmt.unusual hnone, hend, hread⟩
        · trivial

/-- **What has been parsed is well formed**, so that it can be written and read again. -/
theorem parse_wf (hrt : rt.Documented limit) {m t : Message U F} (hm : m.Wf fmt)
    {ptr p : List UInt8} {tag : Option UInt32}
    (h : m.internalParse rt G ptr = some (.success t p tag)) : t.Wf fmt := by
  obtain ⟨r, hr, ht⟩ := Option.map_eq_some_iff.mp h
  have hends := @parse_ends _ _ _ _ (·.Wf fmt) (·.Holds (·.Wf fmt))
    (fun m ptr hm => parseField_wf hrt hm ptr) m ptr r hm hr
  cases r with
  | ok s =>
    cases ht
    exact hends
  | error o =>
    cases ht
    exact hends

end AsioLearn.Protobuf
