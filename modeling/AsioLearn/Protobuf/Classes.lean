import AsioLearn.Protobuf.Message

/-!
# The generated classes

`TaskRequest` and `TaskResult` of `nqueen.pb.cc`, `HelloRequest` and `HelloReply` of `demo.pb.cc`,
`Book` of `msg.pb.cc`. What the generator emits for an `int32` and for a `string` field stands here
once; each class is written with it, field by field.

* `partial_` is `board`, as in the service; `_partial_cached_byte_size_`, which `ByteSizeLong`
  stores and `_InternalSerialize` reads, is `boardCachedByteSize`.
* A `std::string` is its bytes and a `float` its bits. `VerifyUtf8String(…, SERIALIZE, …)` only
  logs.

Results:
* `TaskRequest.format`, `TaskResult.format`, `Hello.format`, `Book.format`: the wire format of each
  class.
-/

namespace AsioLearn.Protobuf

open Lib.Varint (encode)
open Lib.Records

variable {U F : Type} (rt : Runtime U)

/-! ## Fields -/

/-- `x_ = ReadVarint64(&ptr); CHK_(ptr);`. -/
def int32Case (set : Int32 → F) (ptr : List UInt8) : Option (F × List UInt8) :=
  (rt.readVarint64 ptr).map fun r => (set r.1.toUInt32.toInt32, r.2)

/-- `ptr = InlineGreedyStringParser(str, ptr, ctx); CHK_(VerifyUTF8(str, …)); CHK_(ptr);`. -/
def stringCase (field : String) (set : List UInt8 → F) (ptr : List UInt8) :
    Option (F × List UInt8) :=
  match rt.inlineGreedyStringParser ptr with
  | some (str, ptr) => if rt.verifyUTF8 str field then some (set str, ptr) else none
  | none => none

/-- An `int32` field in `ByteSizeLong`. -/
def int32FieldSize (v : Int32) : Nat := if v ≠ 0 then 1 + rt.int32Size v else 0

/-- An `int32` field in `_InternalSerialize`. -/
def writeInt32Field (field : Nat) (v : Int32) (target : List UInt8) : List UInt8 :=
  if v ≠ 0 then rt.writeInt32ToArray field v target else target

/-- A `string` field in `ByteSizeLong`. -/
def stringFieldSize (s : List UInt8) : Nat := if 0 < s.length then 1 + rt.stringSize s else 0

/-- A `string` field in `_InternalSerialize`. -/
def writeStringField (field : Nat) (s : List UInt8) (target : List UInt8) : List UInt8 :=
  if 0 < s.length then rt.writeStringMaybeAliased field s target else target

/-! ## `nqueen.pb.cc` -/

/-- The fields of `TaskRequest`. -/
structure TaskRequest where
  n : Int32
  board : List Int32
  boardCachedByteSize : Int32
  deriving DecidableEq

/-- The cases of `TaskRequest::_InternalParse`. -/
def TaskRequest.switch (tag : UInt32) (m : TaskRequest) (ptr : List UInt8) :
    Option (Option (TaskRequest × List UInt8)) :=
  if tag >>> 3 = 1 then
    if tag.toUInt8 = 8 then some (int32Case rt (fun v => { m with n := v }) ptr) else none
  else if tag >>> 3 = 2 then
    if tag.toUInt8 = 18 then
      some ((rt.packedInt32Parser m.board ptr).map fun r => ({ m with board := r.1 }, r.2))
    else if tag.toUInt8 = 16 then
      some (int32Case rt (fun v => { m with board := m.board ++ [v] }) ptr)
    else none
  else none

/-- `TaskRequest::ByteSizeLong`. -/
def TaskRequest.byteSize (m : TaskRequest) : Nat × TaskRequest :=
  let dataSize := rt.int32ListSize m.board
  let totalSize := (if 0 < dataSize then 1 + rt.int32Size (Int32.ofNat dataSize) else 0) + dataSize
  (totalSize + int32FieldSize rt m.n, { m with boardCachedByteSize := Int32.ofNat dataSize })

/-- `TaskRequest::_InternalSerialize`. -/
def TaskRequest.serialize (m : TaskRequest) (target : List UInt8) : List UInt8 :=
  let target := writeInt32Field rt 1 m.n target
  if 0 < m.boardCachedByteSize then
    rt.writeInt32Packed 2 m.board m.boardCachedByteSize target
  else target

/-- `TaskRequest::MergeFrom`. -/
def TaskRequest.mergeFrom (m src : TaskRequest) : TaskRequest :=
  let m := { m with board := m.board ++ src.board }
  if src.n ≠ 0 then { m with n := src.n } else m

/-- What is generated for `TaskRequest`. -/
def TaskRequest.generated : Generated TaskRequest where
  clear m := { m with n := 0, board := [] }
  switch := switch rt
  serialize := serialize rt
  byteSize := byteSize rt
  mergeFrom := mergeFrom

/-- The fields of `TaskResult`. -/
structure TaskResult where
  solutions : Int32
  deriving DecidableEq

/-- What is generated for `TaskResult`. -/
def TaskResult.generated : Generated TaskResult where
  clear _ := ⟨0⟩
  switch tag _ ptr :=
    if tag >>> 3 = 1 then
      if tag.toUInt8 = 8 then some (int32Case rt (fun v => ⟨v⟩) ptr) else none
    else none
  serialize m target := writeInt32Field rt 1 m.solutions target
  byteSize m := (int32FieldSize rt m.solutions, m)
  mergeFrom m src := if src.solutions ≠ 0 then ⟨src.solutions⟩ else m

/-! ## `demo.pb.cc` -/

/-- The fields of `HelloRequest`, and of `HelloReply`. -/
structure Hello where
  message : List UInt8
  deriving DecidableEq

/-- What is generated for a message of `demo.proto`, `field` being the name of its field. -/
def Hello.generated (field : String) : Generated Hello where
  clear _ := ⟨[]⟩
  switch tag _ ptr :=
    if tag >>> 3 = 1 then
      if tag.toUInt8 = 10 then some (stringCase rt field (fun s => ⟨s⟩) ptr) else none
    else none
  serialize m target := writeStringField rt 1 m.message target
  byteSize m := (stringFieldSize rt m.message, m)
  mergeFrom m src := if 0 < src.message.length then ⟨src.message⟩ else m

/-- What is generated for `HelloRequest`. -/
def HelloRequest.generated : Generated Hello := Hello.generated rt "hello.HelloRequest.message"

/-- What is generated for `HelloReply`. -/
def HelloReply.generated : Generated Hello := Hello.generated rt "hello.HelloReply.message"

/-! ## `msg.pb.cc` -/

/-- The fields of `Book`; `price` is the bits of a `float`. -/
structure Book where
  name : List UInt8
  pages : Int32
  price : UInt32
  deriving DecidableEq

/-- `price <= 0 && price >= 0`: one of the two zeros. -/
def ZeroPrice (price : UInt32) : Prop := price = 0 ∨ price = 0x80000000

instance (price : UInt32) : Decidable (ZeroPrice price) := inferInstanceAs (Decidable (_ ∨ _))

/-- The cases of `Book::_InternalParse`. -/
def Book.switch (tag : UInt32) (m : Book) (ptr : List UInt8) :
    Option (Option (Book × List UInt8)) :=
  if tag >>> 3 = 1 then
    if tag.toUInt8 = 10 then some (stringCase rt "Book.name" (fun s => { m with name := s }) ptr)
    else none
  else if tag >>> 3 = 2 then
    if tag.toUInt8 = 16 then some (int32Case rt (fun v => { m with pages := v }) ptr) else none
  else if tag >>> 3 = 3 then
    if tag.toUInt8 = 29 then
      some ((rt.unalignedLoadFloat ptr).map fun r => ({ m with price := r.1 }, r.2))
    else none
  else none

/-- `Book::_InternalSerialize`. -/
def Book.serialize (m : Book) (target : List UInt8) : List UInt8 :=
  let target := writeStringField rt 1 m.name target
  let target := writeInt32Field rt 2 m.pages target
  if ¬ ZeroPrice m.price then rt.writeFloatToArray 3 m.price target else target

/-- `Book::MergeFrom`. -/
def Book.mergeFrom (m src : Book) : Book :=
  let m := if 0 < src.name.length then { m with name := src.name } else m
  let m := if src.pages ≠ 0 then { m with pages := src.pages } else m
  if ¬ ZeroPrice src.price then { m with price := src.price } else m

/-- What is generated for `Book`. -/
def Book.generated : Generated Book where
  clear _ := ⟨[], 0, 0⟩
  switch := switch rt
  serialize := serialize rt
  byteSize m := (stringFieldSize rt m.name + int32FieldSize rt m.pages +
    (if ¬ ZeroPrice m.price then 1 + 4 else 0), m)
  mergeFrom := mergeFrom

/-! ## Integers on the wire -/

variable {rt}

theorem toInt32_toUInt64 (v : Int32) : v.toInt64.toUInt64.toUInt32.toInt32 = v := by
  apply Int32.toBitVec_inj.mp
  change (v.toBitVec.signExtend 64).setWidth 32 = v.toBitVec
  ext i hi
  rw [BitVec.getElem_setWidth, BitVec.getLsbD_signExtend]
  simp [hi, (by omega : i < 64)]

theorem toNat_ofNat {d : Nat} (h : d < 2 ^ 31) : (Int32.ofNat d).toUInt32.toNat = d := by
  change (BitVec.ofNat 32 d).toNat = d
  rw [BitVec.toNat_ofNat, Nat.mod_eq_of_lt (by omega)]

theorem pos_ofNat {d : Nat} (h : d < 2 ^ 31) : 0 < Int32.ofNat d ↔ 0 < d := by
  rw [Int32.lt_iff_toInt_lt, Int32.toInt_ofNat_of_lt h, Int32.toInt_zero]
  omega

theorem int32Bytes_ofNat {d : Nat} (h : d < 2 ^ 31) : int32Bytes (Int32.ofNat d) = encode d := by
  have hmsb : (BitVec.ofNat 32 d).msb = false := by
    rw [BitVec.msb_eq_decide, BitVec.toNat_ofNat, Nat.mod_eq_of_lt (by omega)]
    exact decide_eq_false (by omega)
  have htoNat : ((BitVec.ofNat 32 d).signExtend 64).toNat = d := by
    rw [BitVec.signExtend_eq_setWidth_of_msb_false hmsb, BitVec.toNat_setWidth, BitVec.toNat_ofNat]
    omega
  exact congrArg encode htoNat

/-! ## What the fields write -/

variable {G : Generated F} {limit : Nat}

/-- The bytes of an `int32` field. -/
def int32Field (field : Nat) (v : Int32) : List UInt8 :=
  if v ≠ 0 then tagBytes field 0 ++ int32Bytes v else []

/-- The bytes of a `string` field. -/
def stringField (field : Nat) (s : List UInt8) : List UInt8 :=
  if 0 < s.length then tagBytes field 2 ++ stringBytes s else []

/-- The bytes of a repeated `int32` field. -/
def packedField (field : Nat) (xs : List Int32) : List UInt8 :=
  if 0 < (xs.flatMap int32Bytes).length then tagBytes field 2 ++ packedBytes xs else []

/-- The bytes of a `float` field. -/
def floatField (field : Nat) (bits : UInt32) : List UInt8 :=
  if ¬ ZeroPrice bits then tagBytes field 5 ++ floatBytes bits else []

theorem length_tagBytes {field wireType : Nat} (h : 8 * field + wireType < 128) :
    (tagBytes field wireType).length = 1 := by
  rw [tagBytes, Lib.Varint.encode_singleton h]
  rfl

theorem length_int32Field (hrt : rt.Documented limit) {field : Nat} (h : field < 16) (v : Int32) :
    int32FieldSize rt v = (int32Field field v).length := by
  unfold int32FieldSize int32Field
  split_ifs
  · rw [hrt.int32Size, List.length_append, length_tagBytes (by omega)]
  · rfl

theorem writeInt32Field_eq (hrt : rt.Documented limit) (field : Nat) (v : Int32)
    (target : List UInt8) : writeInt32Field rt field v target = target ++ int32Field field v := by
  unfold writeInt32Field int32Field
  split_ifs
  · rw [hrt.writeInt32ToArray]
  · rw [List.append_nil]

theorem length_stringField (hrt : rt.Documented limit) {field : Nat} (h : field < 15)
    (s : List UInt8) : stringFieldSize rt s = (stringField field s).length := by
  unfold stringFieldSize stringField
  split_ifs
  · rw [hrt.stringSize, List.length_append, length_tagBytes (by omega)]
  · rfl

theorem length_le_stringFieldSize (hrt : rt.Documented limit) (s : List UInt8) :
    s.length ≤ stringFieldSize rt s := by
  unfold stringFieldSize
  split_ifs
  · rw [hrt.stringSize, stringBytes, List.length_append]
    omega
  · omega

theorem writeStringField_eq (hrt : rt.Documented limit) (field : Nat) {s : List UInt8}
    (hs : s.length ≤ limit) (target : List UInt8) :
    writeStringField rt field s target = target ++ stringField field s := by
  unfold writeStringField stringField
  split_ifs
  · rw [hrt.writeStringMaybeAliased field target hs]
  · rw [List.append_nil]

/-! ## What the fields read -/

theorem int32Case_bytes (hrt : rt.Documented limit) (set : Int32 → F) (v : Int32)
    (rest : List UInt8) : int32Case rt set (int32Bytes v ++ rest) = some (set v, rest) := by
  rw [int32Case, int32Bytes, hrt.readVarint64, Option.map_some, toInt32_toUInt64]

theorem int32Case_le (hrt : rt.Documented limit) {set : Int32 → F} {g : F} {p q : List UInt8}
    (h : int32Case rt set p = some (g, q)) : q.length ≤ p.length := by
  obtain ⟨r, hr, heq⟩ := Option.map_eq_some_iff.mp h
  obtain ⟨-, rfl⟩ := Prod.mk.inj heq
  exact hrt.readVarint64_le hr

theorem stringCase_bytes (hrt : rt.Documented limit) {field : String} (set : List UInt8 → F)
    {s : List UInt8} (hs : s.length ≤ limit) (rest : List UInt8) :
    stringCase rt field set (stringBytes s ++ rest) =
      if Utf8 s then some (set s, rest) else none := by
  rw [stringCase, hrt.inlineGreedyStringParser rest hs]
  dsimp only
  simp only [hrt.verifyUTF8]

theorem stringCase_cases (hrt : rt.Documented limit) {field : String} {set : List UInt8 → F} {g : F}
    {p q : List UInt8} (h : stringCase rt field set p = some (g, q)) :
    q.length ≤ p.length ∧ ∃ s, Utf8 s ∧ g = set s := by
  unfold stringCase at h
  split at h
  · rename_i s ptr hs
    split at h
    · rename_i hutf8
      obtain ⟨rfl, rfl⟩ := Prod.mk.inj (Option.some.inj h)
      exact ⟨hrt.inlineGreedyStringParser_le hs, s, (hrt.verifyUTF8 s field).mp hutf8, rfl⟩
    · cases h
  · cases h

theorem applies_int32Field (hrt : rt.Documented limit) (field : Nat) (tag : UInt32)
    (htag : tag.toNat = 8 * field) (set : F → Int32 → F)
    (hswitch : ∀ f ptr, G.switch tag f ptr = some (int32Case rt (set f) ptr)) (v : Int32) :
    Applies (parseField rt G) (int32Field field v)
      (Message.mapFields fun f => if v ≠ 0 then set f v else f) := by
  refine Applies.ite (fun hv => ?_) fun hv => ?_
  · simp only [if_pos hv]
    rw [tagBytes, Nat.add_zero, ← htag]
    exact applies_field hrt tag fun f rest => by rw [hswitch, int32Case_bytes hrt]
  · simp only [if_neg hv]
    rfl

theorem applies_stringField (hrt : rt.Documented limit) {name : String} (field : Nat) (tag : UInt32)
    (htag : tag.toNat = 8 * field + 2) (set : F → List UInt8 → F)
    (hswitch : ∀ f ptr, G.switch tag f ptr = some (stringCase rt name (set f) ptr))
    {s : List UInt8} (hs : s.length ≤ limit) (hutf8 : Utf8 s) :
    Applies (parseField rt G) (stringField field s)
      (Message.mapFields fun f => if 0 < s.length then set f s else f) := by
  refine Applies.ite (fun hv => ?_) fun hv => ?_
  · simp only [if_pos hv]
    rw [tagBytes, ← htag]
    exact applies_field hrt tag fun f rest => by
      rw [hswitch, stringCase_bytes hrt (set f) hs, if_pos hutf8]
  · simp only [if_neg hv]
    rfl

/-- A string that is not UTF-8 is written, and fails to be read. -/
theorem parse_invalid (hrt : rt.Documented limit) {name : String} (field : Nat) (tag : UInt32)
    (htag : tag.toNat = 8 * field + 2) (set : F → List UInt8 → F)
    (hswitch : ∀ f ptr, G.switch tag f ptr = some (stringCase rt name (set f) ptr))
    {s : List UInt8} (hs : s.length ≤ limit) (hutf8 : ¬ Utf8 s) (m : Message U F)
    (rest : List UInt8) :
    m.internalParse rt G (stringField field s ++ rest) = some .failure := by
  have hpos : 0 < s.length := by
    refine List.length_pos_of_ne_nil fun hnil => hutf8 ?_
    rw [hnil]
    exact ByteArray.isValidUTF8_empty
  have hfield : stringField field s ++ rest = encode tag.toNat ++ (stringBytes s ++ rest) := by
    rw [stringField, if_pos hpos, tagBytes, ← htag, List.append_assoc]
  have hbody : parseField rt G (m, encode tag.toNat ++ (stringBytes s ++ rest)) =
      .error .failure := by
    simp only [parseField, hrt.readTag, hswitch, stringCase_bytes hrt _ hs, if_neg hutf8]
  rw [Message.internalParse, hfield,
    parse_error (more_append (Lib.Varint.encode_ne_nil _) _) hbody]
  rfl

/-! ## The formats -/

theorem flatMap_int32Bytes_eq_nil {xs : List Int32} (h : ¬ 0 < (xs.flatMap int32Bytes).length) :
    xs = [] := by
  cases xs with
  | nil => rfl
  | cons x xs =>
    rw [List.flatMap_cons, List.length_append] at h
    have := List.length_pos_of_ne_nil (Lib.Varint.encode_ne_nil x.toInt64.toUInt64.toNat)
    rw [← int32Bytes] at this
    omega

theorem TaskRequest.size_le (hrt : rt.Documented limit) {m : TaskRequest}
    (h : (m.byteSize rt).1 ≤ limit) : (m.board.flatMap int32Bytes).length ≤ limit := by
  have hle : rt.int32ListSize m.board ≤ (m.byteSize rt).1 := by
    unfold byteSize
    dsimp only
    omega
  rw [hrt.int32ListSize] at hle
  exact hle.trans h

/-- The wire format of `TaskRequest`. -/
def TaskRequest.format (hrt : rt.Documented limit) : Format rt (generated rt) limit where
  bytes m := int32Field 1 m.n ++ packedField 2 m.board
  Valid _ := True
  byteSize {m} h := by
    have hlt := Nat.lt_of_le_of_lt (size_le hrt h) hrt.limit_lt
    simp only [generated, byteSize, hrt.int32ListSize, length_int32Field hrt (by omega : 1 < 16),
      List.length_append, packedField]
    split_ifs
    · rw [hrt.int32Size, int32Bytes_ofNat hlt, packedBytes]
      simp only [List.length_append, length_tagBytes (by omega : 8 * 2 + 2 < 128)]
      omega
    · simp only [List.length_nil]
      omega
  serialize {m} target h := by
    have hlt := Nat.lt_of_le_of_lt (size_le hrt h) hrt.limit_lt
    simp only [generated, serialize, byteSize, hrt.int32ListSize, pos_ofNat hlt, packedField,
      writeInt32Field_eq hrt]
    split_ifs
    · rw [hrt.writeInt32Packed, toNat_ofNat hlt, List.append_assoc, packedBytes]
    · rw [List.append_nil]
  unusual {tag m p} h := by
    intro m' p'
    simp only [generated, switch] at h ⊢
    split_ifs at h ⊢ <;> rfl
  shrinks {tag f g p q} h := by
    simp only [generated, switch] at h
    split_ifs at h
    · exact int32Case_le hrt (Option.some.inj h)
    · obtain ⟨r, hr, heq⟩ := Option.map_eq_some_iff.mp (Option.some.inj h)
      obtain ⟨-, rfl⟩ := Prod.mk.inj heq
      exact hrt.packedInt32Parser_le hr
    · exact int32Case_le hrt (Option.some.inj h)
  valid _ _ := trivial
  applies {m} _ h := by
    have hn : Applies (parseField rt (generated rt)) (int32Field 1 m.n) (Message.mapFields
        fun f : TaskRequest => if m.n ≠ 0 then { f with n := m.n } else f) :=
      applies_int32Field hrt 1 8 rfl (fun (f : TaskRequest) v => { f with n := v })
        (fun _ _ => rfl) m.n
    have hboard : Applies (parseField rt (generated rt)) (packedField 2 m.board) (Message.mapFields
        fun f : TaskRequest => { f with board := f.board ++ m.board }) := by
      refine Applies.ite (fun _ => ?_) fun hnil => ?_
      · refine applies_field hrt 18 fun f rest => ?_
        have hcase : (generated rt).switch 18 f (packedBytes m.board ++ rest) =
            some ((rt.packedInt32Parser f.board (packedBytes m.board ++ rest)).map
              fun r => ({ f with board := r.1 }, r.2)) := rfl
        rw [hcase, hrt.packedInt32Parser f.board rest (size_le hrt h), Option.map_some]
      · rw [flatMap_int32Bytes_eq_nil hnil]
        funext f
        simp only [List.append_nil, Message.mapFields, id]
    have hboth := hn.append hboard
    have hmerge : (Message.mapFields (fun f : TaskRequest => { f with board := f.board ++ m.board })
          ∘ Message.mapFields fun f : TaskRequest => if m.n ≠ 0 then { f with n := m.n } else f) =
        Message.mapFields (U := U) ((generated rt).mergeFrom · m) := by
      funext f
      simp only [Function.comp_apply, Message.mapFields, generated, mergeFrom]
      split_ifs <;> rfl
    rw [hmerge] at hboth
    exact hboth

/-- The wire format of `TaskResult`. -/
def TaskResult.format (hrt : rt.Documented limit) : Format rt (generated rt) limit where
  bytes m := int32Field 1 m.solutions
  Valid _ := True
  byteSize {m} _ := length_int32Field hrt (by omega) m.solutions
  serialize {m} target _ := writeInt32Field_eq hrt 1 m.solutions target
  unusual {tag m p} h := by
    intro m' p'
    simp only [generated] at h ⊢
    split_ifs at h ⊢ <;> rfl
  shrinks {tag f g p q} h := by
    simp only [generated] at h
    split_ifs at h
    exact int32Case_le hrt (Option.some.inj h)
  valid _ _ := trivial
  applies {m} _ _ :=
    applies_int32Field hrt 1 8 rfl (fun (_ : TaskResult) v => ⟨v⟩) (fun _ _ => rfl) m.solutions

/-- The wire format of `HelloRequest` and of `HelloReply`. -/
def Hello.format (hrt : rt.Documented limit) (field : String) :
    Format rt (generated rt field) limit where
  bytes m := stringField 1 m.message
  Valid m := Utf8 m.message
  byteSize {m} _ := length_stringField hrt (by omega) m.message
  serialize {m} target h :=
    writeStringField_eq hrt 1 ((length_le_stringFieldSize hrt m.message).trans h) target
  unusual {tag m p} h := by
    intro m' p'
    simp only [generated] at h ⊢
    split_ifs at h ⊢ <;> rfl
  shrinks {tag f g p q} h := by
    simp only [generated] at h
    split_ifs at h
    exact (stringCase_cases hrt (Option.some.inj h)).1
  valid {tag f g p q} h _ := by
    simp only [generated] at h
    split_ifs at h
    obtain ⟨-, s, hs, rfl⟩ := stringCase_cases hrt (Option.some.inj h)
    exact hs
  applies {m} hutf8 h :=
    applies_stringField hrt 1 10 rfl (fun (_ : Hello) s => ⟨s⟩) (fun _ _ => rfl)
      ((length_le_stringFieldSize hrt m.message).trans h) hutf8

theorem Book.length_name_le (hrt : rt.Documented limit) {m : Book}
    (h : ((generated rt).byteSize m).1 ≤ limit) : m.name.length ≤ limit := by
  have hname := length_le_stringFieldSize hrt m.name
  have hsum : stringFieldSize rt m.name ≤ ((generated rt).byteSize m).1 := by
    simp only [generated]
    omega
  exact (hname.trans hsum).trans h

/-- The wire format of `Book`. -/
def Book.format (hrt : rt.Documented limit) : Format rt (generated rt) limit where
  bytes m := stringField 1 m.name ++ int32Field 2 m.pages ++ floatField 3 m.price
  Valid m := Utf8 m.name
  byteSize {m} _ := by
    simp only [generated, length_stringField hrt (by omega : 1 < 15),
      length_int32Field hrt (by omega : 2 < 16), List.length_append, floatField]
    split_ifs
    · rfl
    · rw [List.length_append, length_tagBytes (by omega)]
      rfl
  serialize {m} target h := by
    simp only [generated, serialize, floatField, writeInt32Field_eq hrt,
      writeStringField_eq hrt 1 (length_name_le hrt h)]
    split_ifs
    · simp only [List.append_assoc, List.append_nil]
    · rw [hrt.writeFloatToArray]
      simp only [List.append_assoc]
  unusual {tag m p} h := by
    intro m' p'
    simp only [generated, switch] at h ⊢
    split_ifs at h ⊢ <;> rfl
  shrinks {tag f g p q} h := by
    simp only [generated, switch] at h
    split_ifs at h
    · exact (stringCase_cases hrt (Option.some.inj h)).1
    · exact int32Case_le hrt (Option.some.inj h)
    · obtain ⟨r, hr, heq⟩ := Option.map_eq_some_iff.mp (Option.some.inj h)
      obtain ⟨-, rfl⟩ := Prod.mk.inj heq
      exact hrt.unalignedLoadFloat_le hr
  valid {tag f g p q} h hf := by
    simp only [generated, switch] at h
    split_ifs at h
    · obtain ⟨-, s, hs, rfl⟩ := stringCase_cases hrt (Option.some.inj h)
      exact hs
    · obtain ⟨r, -, heq⟩ := Option.map_eq_some_iff.mp (Option.some.inj h)
      obtain ⟨rfl, -⟩ := Prod.mk.inj heq
      exact hf
    · obtain ⟨r, -, heq⟩ := Option.map_eq_some_iff.mp (Option.some.inj h)
      obtain ⟨rfl, -⟩ := Prod.mk.inj heq
      exact hf
  applies {m} hutf8 h := by
    have hname := applies_stringField hrt (G := generated rt) 1 10 rfl
      (fun (f : Book) s => { f with name := s }) (fun _ _ => rfl) (length_name_le hrt h) hutf8
    have hpages := applies_int32Field hrt (G := generated rt) 2 16 rfl
      (fun (f : Book) v => { f with pages := v }) (fun _ _ => rfl) m.pages
    have hprice : Applies (parseField rt (generated rt)) (floatField 3 m.price)
        (Message.mapFields fun f : Book =>
          if ¬ ZeroPrice m.price then { f with price := m.price } else f) := by
      refine Applies.ite (fun hp => ?_) fun hp => ?_
      · simp only [if_pos hp]
        refine applies_field hrt 29 fun f rest => ?_
        have hcase : (generated rt).switch 29 f (floatBytes m.price ++ rest) =
            some ((rt.unalignedLoadFloat (floatBytes m.price ++ rest)).map
              fun r => ({ f with price := r.1 }, r.2)) := rfl
        rw [hcase, hrt.unalignedLoadFloat, Option.map_some]
      · simp only [if_neg hp]
        rfl
    exact (hname.append hpages).append hprice

end AsioLearn.Protobuf
