import AsioLearn.Protobuf.WireFormat

/-!
# Writing and reading the generated classes

The five classes together (`Class`), so that what is said of all of them is said once.

Results:
* **`stream_merged`**: what objects of a class wrote one behind the other, any object of the class
  reads as their merges in turn if all their strings are UTF-8, and else cannot read;
  `ByteSizeLong` has told the length of each.
* **`accepted_rewritten`**: an object that was read, from whatever bytes, and is written and read
  again is the same, except for a price of -0, and is written with the same bytes from then on.
* `TaskRequest.foldl_mergeFrom`: what requests merge to: the last `n` that is not zero, and all
  entries.
* **`book_restored_iff`**: a `Book` is read back as it was iff its name is UTF-8 and its price is
  not the negative zero.
-/

namespace AsioLearn.Protobuf

/-! ## The classes together -/

/-- A class that `protoc` generated. -/
inductive Class where
  | taskRequest
  | taskResult
  | helloRequest
  | helloReply
  | book
  deriving DecidableEq

/-- The fields of its objects. -/
def Class.Fields : Class → Type
  | taskRequest => TaskRequest
  | taskResult => TaskResult
  | helloRequest => Hello
  | helloReply => Hello
  | book => Book

variable {U : Type} {rt : Runtime U} {limit : Nat}

/-- What is generated for it. -/
def Class.generated (rt : Runtime U) : (c : Class) → Generated c.Fields
  | taskRequest => TaskRequest.generated rt
  | taskResult => TaskResult.generated rt
  | helloRequest => HelloRequest.generated rt
  | helloReply => HelloReply.generated rt
  | book => Book.generated rt

/-- Its wire format. -/
def Class.format (hrt : rt.Documented limit) : (c : Class) → Format rt (c.generated rt) limit
  | taskRequest => TaskRequest.format hrt
  | taskResult => TaskResult.format hrt
  | helloRequest => Hello.format hrt _
  | helloReply => Hello.format hrt _
  | book => Book.format hrt

/-- Its strings are UTF-8, which reading asks for and writing does not. -/
def Class.Utf8Strings : (c : Class) → c.Fields → Prop
  | taskRequest => fun _ => True
  | taskResult => fun _ => True
  | helloRequest => fun (x : Hello) => Utf8 x.message
  | helloReply => fun (x : Hello) => Utf8 x.message
  | book => fun (x : Book) => Utf8 x.name

theorem Class.valid_iff (hrt : rt.Documented limit) (c : Class) (x : c.Fields) :
    (c.format hrt).Valid x ↔ c.Utf8Strings x := by
  cases c <;> exact Iff.rfl

/-! ## Streams -/

/-- A message with a string that is not UTF-8 is written, and stops the reader. -/
theorem parse_not_utf8 (hrt : rt.Documented limit) (c : Class) {x : Message U c.Fields}
    (hx : ¬ c.Utf8Strings x.fields) (hfits : x.Fits rt (c.generated rt) limit)
    (m : Message U c.Fields) (rest : List UInt8) :
    m.internalParse rt (c.generated rt) (x.serialize rt (c.generated rt) ++ rest) =
      some .failure := by
  rw [serialize_eq hrt (c.format hrt) hfits, List.append_assoc]
  have hsize := hfits.fields hrt
  cases c with
  | taskRequest => exact absurd trivial hx
  | taskResult => exact absurd trivial hx
  | helloRequest =>
    exact parse_invalid hrt 1 10 rfl (fun (_ : Hello) s => ⟨s⟩) (fun _ _ => rfl)
      ((length_le_stringFieldSize hrt _).trans hsize) hx m _
  | helloReply =>
    exact parse_invalid hrt 1 10 rfl (fun (_ : Hello) s => ⟨s⟩) (fun _ _ => rfl)
      ((length_le_stringFieldSize hrt _).trans hsize) hx m _
  | book =>
    simp only [Class.format, Book.format, List.append_assoc]
    exact parse_invalid hrt 1 10 rfl (fun (f : Book) s => { f with name := s }) (fun _ _ => rfl)
      (Book.length_name_le hrt hsize) hx m _

/-- One such message in a stream is enough. -/
theorem parse_stream_not_utf8 (hrt : rt.Documented limit) (c : Class) :
    ∀ {xs : List (Message U c.Fields)},
      (∀ x ∈ xs, x.ReadableUnknown rt (c.generated rt) ∧ x.Fits rt (c.generated rt) limit) →
      (∃ x ∈ xs, ¬ c.Utf8Strings x.fields) → ∀ m : Message U c.Fields,
        m.internalParse rt (c.generated rt) (xs.flatMap (·.serialize rt (c.generated rt))) =
          some .failure
  | [], _, ⟨_, hx, _⟩, _ => absurd hx List.not_mem_nil
  | x :: xs, h, hnot, m => by
    obtain ⟨hunknown, hfits⟩ := h x List.mem_cons_self
    rw [List.flatMap_cons]
    by_cases hx : c.Utf8Strings x.fields
    · obtain ⟨y, hy, hynot⟩ := hnot
      have hyxs : y ∈ xs := by
        rcases List.mem_cons.mp hy with rfl | hy
        · exact absurd hx hynot
        · exact hy
      rw [parse_serialize hrt ⟨(c.valid_iff hrt _).mpr hx, hunknown⟩ hfits]
      exact parse_stream_not_utf8 hrt c (fun z hz => h z (List.mem_cons_of_mem x hz))
        ⟨y, hyxs, hynot⟩ _
    · exact parse_not_utf8 hrt c hx hfits m _

/-- **A stream of messages** whose unknown fields are readable and that are not too long: it is
merged if all strings are UTF-8, and else it cannot be read. -/
theorem stream_merged (hrt : rt.Documented limit) (c : Class) {xs : List (Message U c.Fields)}
    (hxs : ∀ x ∈ xs, x.ReadableUnknown rt (c.generated rt) ∧ x.Fits rt (c.generated rt) limit)
    (m : Message U c.Fields) :
    (∀ x ∈ xs, (x.serialize rt (c.generated rt)).length = (x.byteSizeLong rt (c.generated rt)).1) ∧
    ((∀ x ∈ xs, c.Utf8Strings x.fields) →
      m.internalParse rt (c.generated rt) (xs.flatMap (·.serialize rt (c.generated rt))) =
        some (.success (xs.foldl (·.mergeFrom (c.generated rt) ·) m) [] none)) ∧
    ((∃ x ∈ xs, ¬ c.Utf8Strings x.fields) →
      m.internalParse rt (c.generated rt) (xs.flatMap (·.serialize rt (c.generated rt))) =
        some .failure) := by
  refine ⟨fun x hx => length_serialize hrt (c.format hrt) (hxs x hx).2, fun hutf8 => ?_,
    fun hnot => parse_stream_not_utf8 hrt c hxs hnot m⟩
  have hwf : ∀ x ∈ xs, x.Wf (c.format hrt) ∧ x.Fits rt (c.generated rt) limit := fun x hx =>
    ⟨⟨(c.valid_iff hrt _).mpr (hutf8 x hx), (hxs x hx).1⟩, (hxs x hx).2⟩
  exact parse_serialize_all hrt hwf m

/-- A request, with an unknown string in field 5. -/
def sampleRequest : Message UnknownField TaskRequest := ⟨⟨4, [1, -1], 0⟩, [⟨42, [1, 104]⟩]⟩

theorem sampleRequest_wf :
    sampleRequest.Wf (TaskRequest.format (wire_documented (by decide : 1000 < 2 ^ 31))) := by
  refine ⟨trivial, fun u hu => ?_⟩
  obtain rfl := List.mem_singleton.mp hu
  exact ⟨fun _ _ => rfl, by decide, @readable_of_payload 1000 _ [1, 104] [] (by decide +kernel)⟩

/-- The request twice, behind the entries and the unknown field that are there; and a greeting
behind a byte that is not UTF-8. -/
theorem stream_merged_twice :
    ((∀ x ∈ [sampleRequest, sampleRequest],
      (x.serialize (wire 1000) (TaskRequest.generated (wire 1000))).length =
        (x.byteSizeLong (wire 1000) (TaskRequest.generated (wire 1000))).1) ∧
    sampleRequest.internalParse (wire 1000) (TaskRequest.generated (wire 1000))
        ([sampleRequest, sampleRequest].flatMap
          (·.serialize (wire 1000) (TaskRequest.generated (wire 1000)))) =
      some (.success ⟨⟨4, [1, -1, 1, -1, 1, -1], 0⟩,
        [⟨42, [1, 104]⟩, ⟨42, [1, 104]⟩, ⟨42, [1, 104]⟩]⟩ [] none)) ∧
    Message.internalParse (wire 1000) (HelloRequest.generated (wire 1000)) ⟨⟨[]⟩, []⟩
        ([⟨⟨[0xFF]⟩, []⟩, ⟨⟨[104]⟩, []⟩].flatMap
          (Message.serialize (wire 1000) (HelloRequest.generated (wire 1000)))) =
      some .failure := by
  have hrt : (wire 1000).Documented 1000 := wire_documented (by decide)
  have hok := And.intro sampleRequest_wf.unknown
    (by decide +kernel : sampleRequest.Fits (wire 1000) (TaskRequest.generated (wire 1000)) 1000)
  obtain ⟨hlength, hmerged, -⟩ := @stream_merged _ _ _ hrt .taskRequest
    [sampleRequest, sampleRequest]
    (List.forall_mem_cons.mpr ⟨hok, List.forall_mem_singleton.mpr hok⟩) sampleRequest
  obtain ⟨-, -, hfails⟩ := @stream_merged _ _ _ hrt .helloRequest
    [⟨⟨[0xFF]⟩, []⟩, ⟨⟨[104]⟩, []⟩]
    (List.forall_mem_cons.mpr ⟨⟨fun _ hu => absurd hu List.not_mem_nil, by decide +kernel⟩,
      List.forall_mem_singleton.mpr ⟨fun _ hu => absurd hu List.not_mem_nil, by decide +kernel⟩⟩)
    ⟨⟨[]⟩, []⟩
  exact ⟨⟨hlength, hmerged fun _ _ => trivial⟩,
    hfails ⟨_, List.mem_cons_self, (by decide +kernel : ¬ Utf8 [0xFF])⟩⟩

/-! ## What was accepted -/

/-- What `y` is in a cleared object that has read what `x` wrote. -/
def Class.Restored : (c : Class) → c.Fields → c.Fields → Prop
  | taskRequest => fun (x y : TaskRequest) => y.n = x.n ∧ y.board = x.board
  | taskResult => fun x y => y = x
  | helloRequest => fun x y => y = x
  | helloReply => fun x y => y = x
  | book => fun (x y : Book) => y = { x with price := if ZeroPrice x.price then 0 else x.price }

theorem Book.mergeFrom_clear_eq (m x : Book) :
    mergeFrom ((generated rt).clear m) x =
      { x with price := if ZeroPrice x.price then 0 else x.price } := by
  obtain ⟨name, pages, price⟩ := x
  have hname : (if 0 < name.length then (⟨name, 0, 0⟩ : Book) else ⟨[], 0, 0⟩) = ⟨name, 0, 0⟩ := by
    split_ifs with h
    · rfl
    · rw [List.length_pos_iff, not_not] at h
      rw [h]
  have hpages : (if pages ≠ 0 then (⟨name, pages, 0⟩ : Book) else ⟨name, 0, 0⟩) =
      ⟨name, pages, 0⟩ := by
    split_ifs with h
    · rfl
    · rw [not_not.mp h]
  simp only [mergeFrom, generated, hname, hpages, ite_not]
  split_ifs <;> rfl

theorem Hello.mergeFrom_clear (field : String) (m x : Hello) :
    (generated rt field).mergeFrom ((generated rt field).clear m) x = x := by
  simp only [generated]
  split_ifs with h
  · rfl
  · rw [List.length_pos_iff, not_not] at h
    exact congrArg Hello.mk h.symm

theorem TaskResult.mergeFrom_clear (m x : TaskResult) :
    (generated rt).mergeFrom ((generated rt).clear m) x = x := by
  simp only [generated]
  split_ifs with h
  · rfl
  · exact congrArg TaskResult.mk (not_not.mp h).symm

theorem TaskRequest.mergeFrom_clear (m x : TaskRequest) :
    mergeFrom ((generated rt).clear m) x =
      { x with boardCachedByteSize := m.boardCachedByteSize } := by
  simp only [mergeFrom, generated, List.nil_append]
  split_ifs with h
  · rfl
  · rw [← not_not.mp h]

theorem Class.restored_copyFrom (c : Class) (m x : Message U c.Fields) :
    c.Restored x.fields (m.copyFrom (c.generated rt) x).fields := by
  cases c with
  | taskRequest =>
    have heq := @TaskRequest.mergeFrom_clear U rt m.fields x.fields
    have hn := congrArg TaskRequest.n heq
    have hboard := congrArg TaskRequest.board heq
    exact ⟨hn, hboard⟩
  | taskResult => exact @TaskResult.mergeFrom_clear U rt m.fields x.fields
  | helloRequest =>
    exact @Hello.mergeFrom_clear U rt "hello.HelloRequest.message" m.fields x.fields
  | helloReply => exact @Hello.mergeFrom_clear U rt "hello.HelloReply.message" m.fields x.fields
  | book => exact @Book.mergeFrom_clear_eq U rt m.fields x.fields

/-- What has been restored is written as it was. -/
theorem Class.Restored.bytes_eq (hrt : rt.Documented limit) {c : Class} {x y : c.Fields}
    (h : c.Restored x y) :
    ((c.generated rt).byteSize y).1 = ((c.generated rt).byteSize x).1 ∧
      (c.format hrt).bytes y = (c.format hrt).bytes x := by
  cases c with
  | taskRequest =>
    obtain ⟨n, board, cached⟩ := y
    obtain ⟨rfl, rfl⟩ := h
    exact ⟨rfl, rfl⟩
  | taskResult | helloRequest | helloReply =>
    obtain rfl := h
    exact ⟨rfl, rfl⟩
  | book =>
    obtain rfl := h
    have hzero : ZeroPrice (if ZeroPrice x.price then 0 else x.price) ↔ ZeroPrice x.price := by
      split_ifs with hx
      · exact iff_of_true (Or.inl rfl) hx
      · exact Iff.rfl
    refine ⟨?_, ?_⟩
    · simp only [Class.generated, Book.generated, hzero]
    · simp only [Class.format, Book.format, floatField, hzero]
      split_ifs <;> rfl

/-- **What was accepted, written and read again**: whatever bytes a cleared object has accepted, the
object `t` it has become is merged whole where it is read again, a cleared object that reads it has
the fields and the unknown fields of `t` (the price of a book that is one of the zeros is 0), and
writes the same bytes. -/
theorem accepted_rewritten (hrt : rt.Documented limit) (c : Class) {m t : Message U c.Fields}
    {ptr p : List UInt8} {tag : Option UInt32}
    (h : (m.clear (c.generated rt)).internalParse rt (c.generated rt) ptr =
      some (.success t p tag))
    (hfits : t.Fits rt (c.generated rt) limit) (m' : Message U c.Fields) :
    (∀ rest, m'.internalParse rt (c.generated rt) (t.serialize rt (c.generated rt) ++ rest) =
      (m'.mergeFrom (c.generated rt) t).internalParse rt (c.generated rt) rest) ∧
    ∃ r : Message U c.Fields,
      (m'.clear (c.generated rt)).internalParse rt (c.generated rt)
          (t.serialize rt (c.generated rt)) = some (.success r [] none) ∧
      c.Restored t.fields r.fields ∧ r.unknownFields = t.unknownFields ∧
      r.serialize rt (c.generated rt) = t.serialize rt (c.generated rt) := by
  have hclear : (m.clear (c.generated rt)).Wf (c.format hrt) := by
    refine ⟨(c.valid_iff hrt _).mpr ?_, fun _ hu => absurd hu List.not_mem_nil⟩
    cases c with
    | taskRequest | taskResult => exact trivial
    | helloRequest | helloReply | book => exact ByteArray.isValidUTF8_empty
  have ht := parse_wf hrt hclear h
  have hrestored := @Class.restored_copyFrom _ rt c m' t
  have hunknown : (m'.copyFrom (c.generated rt) t).unknownFields = t.unknownFields :=
    List.nil_append _
  obtain ⟨hsize, hbytes⟩ := hrestored.bytes_eq hrt
  have hfits' : (m'.copyFrom (c.generated rt) t).Fits rt (c.generated rt) limit := by
    unfold Message.Fits Message.byteSizeLong at hfits ⊢
    dsimp only at hfits ⊢
    rwa [hsize, hunknown]
  refine ⟨parse_serialize hrt ht hfits m', _, parse_clear_serialize hrt ht hfits m', hrestored,
    hunknown, ?_⟩
  rw [serialize_eq hrt (c.format hrt) hfits', serialize_eq hrt (c.format hrt) hfits, hbytes,
    hunknown]

/-- The price is the negative zero, `pages` stands before `name` and twice, the last time as 0, and
a varint stands in two bytes in field 5: the object read back has the price 0. -/
theorem accepted_rewritten_unpacked : ∃ t r : Message UnknownField Book,
    Message.internalParse (wire 1000) (Book.generated (wire 1000)) ⟨⟨[], 0, 0⟩, []⟩
        [16, 7, 29, 0, 0, 0, 128, 10, 1, 97, 16, 0, 40, 128, 0] = some (.success t [] none) ∧
      Message.internalParse (wire 1000) (Book.generated (wire 1000)) ⟨⟨[], 0, 0⟩, []⟩
        (t.serialize (wire 1000) (Book.generated (wire 1000))) = some (.success r [] none) ∧
      r.fields = { t.fields with price := 0 } ∧ r.unknownFields = t.unknownFields ∧
      r.serialize (wire 1000) (Book.generated (wire 1000)) =
        t.serialize (wire 1000) (Book.generated (wire 1000)) ∧ r ≠ t := by
  have hparse : Message.internalParse (wire 1000) (Book.generated (wire 1000)) ⟨⟨[], 0, 0⟩, []⟩
      [16, 7, 29, 0, 0, 0, 128, 10, 1, 97, 16, 0, 40, 128, 0] =
        some (.success ⟨⟨[97], 0, 0x80000000⟩, [⟨40, [0]⟩]⟩ [] none) := by decide +kernel
  have hfits : Message.Fits (wire 1000) (Book.generated (wire 1000)) 1000
      ⟨⟨[97], 0, 0x80000000⟩, [⟨40, [0]⟩]⟩ := by decide +kernel
  obtain ⟨-, r, hr, hfields, hunknown, hsame⟩ := @accepted_rewritten _ (wire 1000) 1000
    (wire_documented (by decide)) .book ⟨⟨[], 0, 0⟩, []⟩ _ _ _ _ hparse hfits ⟨⟨[], 0, 0⟩, []⟩
  refine ⟨_, r, hparse, hr, hfields, hunknown, hsame, fun heq => ?_⟩
  have hprice := congrArg Book.price ((congrArg Message.fields heq).symm.trans hfields)
  exact absurd hprice (by decide)

/-! ## What requests merge to -/

theorem TaskRequest.foldl_mergeFrom (xs : List (Message U TaskRequest))
    (m : Message U TaskRequest) :
    xs.foldl (·.mergeFrom (generated rt) ·) m =
      ⟨⟨((xs.map (·.fields.n)).filter (· ≠ 0)).getLastD m.fields.n,
          m.fields.board ++ xs.flatMap (·.fields.board), m.fields.boardCachedByteSize⟩,
        m.unknownFields ++ xs.flatMap (·.unknownFields)⟩ := by
  induction xs generalizing m with
  | nil =>
    rw [List.foldl_nil, List.flatMap_nil, List.flatMap_nil, List.append_nil, List.append_nil]
    rfl
  | cons x xs ih =>
    rw [List.foldl_cons, ih, List.flatMap_cons, List.flatMap_cons, List.map_cons, List.filter_cons]
    simp only [Message.mergeFrom, generated, mergeFrom, decide_eq_true_eq, List.append_assoc]
    split_ifs with hn
    · rw [List.getLastD_cons]
      dsimp only
      rw [List.append_assoc]
    · dsimp only
      rw [List.append_assoc]

/-- **Requests behind one another**, read into a request that has been cleared. -/
theorem requests_merged (hrt : rt.Documented limit) {xs : List (Message U TaskRequest)}
    (hxs : ∀ x ∈ xs, x.ReadableUnknown rt (TaskRequest.generated rt) ∧
      x.Fits rt (TaskRequest.generated rt) limit) (m : Message U TaskRequest) :
    (m.clear (TaskRequest.generated rt)).internalParse rt (TaskRequest.generated rt)
        (xs.flatMap (·.serialize rt (TaskRequest.generated rt))) =
      some (.success ⟨⟨((xs.map (·.fields.n)).filter (· ≠ 0)).getLastD 0,
          xs.flatMap (·.fields.board), m.fields.boardCachedByteSize⟩,
        xs.flatMap (·.unknownFields)⟩ [] none) := by
  have hwf : ∀ x ∈ xs, x.Wf (TaskRequest.format hrt) ∧ x.Fits rt (TaskRequest.generated rt) limit :=
    fun x hx => ⟨⟨trivial, (hxs x hx).1⟩, (hxs x hx).2⟩
  rw [parse_serialize_all hrt hwf, TaskRequest.foldl_mergeFrom]
  rfl

/-- The second request has no `n`. -/
theorem requests_merged_two :
    (sampleRequest.clear (TaskRequest.generated (wire 1000))).internalParse (wire 1000)
        (TaskRequest.generated (wire 1000)) ([sampleRequest, ⟨⟨0, [2], 0⟩, []⟩].flatMap
          (·.serialize (wire 1000) (TaskRequest.generated (wire 1000)))) =
      some (.success ⟨⟨4, [1, -1, 2], 0⟩, [⟨42, [1, 104]⟩]⟩ [] none) :=
  @requests_merged _ (wire 1000) 1000 (wire_documented (by decide))
    [sampleRequest, ⟨⟨0, [2], 0⟩, []⟩]
    (List.forall_mem_cons.mpr ⟨⟨sampleRequest_wf.unknown, by decide +kernel⟩,
      List.forall_mem_singleton.mpr ⟨fun _ hu => absurd hu List.not_mem_nil, by decide +kernel⟩⟩)
    sampleRequest

/-! ## A book -/

theorem Book.mergeFrom_clear (m x : Book) :
    mergeFrom ((generated rt).clear m) x = x ↔ x.price ≠ 0x80000000 := by
  have hzeros : (0 : UInt32) ≠ 0x80000000 := by decide
  rw [mergeFrom_clear_eq]
  obtain ⟨name, pages, price⟩ := x
  dsimp only
  split_ifs with h
  · rcases h with rfl | rfl
    · exact iff_of_true rfl hzeros
    · exact iff_of_false (fun heq => hzeros (congrArg Book.price heq)) fun hne => hne rfl
  · exact iff_of_true rfl fun heq => h (Or.inr heq)

/-- **When a book is restored**: parsing what a book wrote gives the book itself iff its name is
UTF-8, which writing it does not ask for, and its price is not the negative zero, which is not
written. -/
theorem book_restored_iff (hrt : rt.Documented limit) {x : Message U Book}
    (hunknown : x.ReadableUnknown rt (Book.generated rt))
    (hfits : x.Fits rt (Book.generated rt) limit) (m : Message U Book) :
    (m.clear (Book.generated rt)).internalParse rt (Book.generated rt)
        (x.serialize rt (Book.generated rt)) = some (.success x [] none) ↔
      Utf8 x.fields.name ∧ x.fields.price ≠ 0x80000000 := by
  by_cases hutf8 : Utf8 x.fields.name
  · have hwf : x.Wf (Book.format hrt) := ⟨hutf8, hunknown⟩
    have hparse := parse_clear_serialize hrt hwf hfits m
    have hmerge := @Book.mergeFrom_clear U rt m.fields x.fields
    rw [hparse]
    constructor
    · intro h
      obtain ⟨h, -⟩ := Outcome.success.inj (Option.some.inj h)
      exact ⟨hutf8, hmerge.mp (congrArg Message.fields h)⟩
    · rintro ⟨-, hprice⟩
      have hx : m.copyFrom (Book.generated rt) x = x := by
        unfold Message.copyFrom Message.mergeFrom Message.clear
        rw [List.nil_append]
        exact congrArg (Message.mk · x.unknownFields) (hmerge.mpr hprice)
      rw [hx]
  · refine iff_of_false (fun h => ?_) fun h => hutf8 h.1
    have hfails := parse_not_utf8 hrt .book hutf8 hfits (m.clear (Book.generated rt)) []
    rw [List.append_nil] at hfails
    cases h.symm.trans hfails

/-- The book of `demo.cc`; its price is 200. -/
def demoBook : Message UnknownField Book :=
  ⟨⟨"CPP programing".toUTF8.toList, 100, 0x43480000⟩, []⟩

theorem book_restored_demo :
    (demoBook.clear (Book.generated (wire 1000))).internalParse (wire 1000)
        (Book.generated (wire 1000)) (demoBook.serialize (wire 1000) (Book.generated (wire 1000))) =
      some (.success demoBook [] none) :=
  (@book_restored_iff _ (wire 1000) 1000 (wire_documented (by decide)) demoBook
    (fun _ hu => absurd hu List.not_mem_nil) (by decide +kernel) demoBook).mpr (by decide +kernel)

end AsioLearn.Protobuf
