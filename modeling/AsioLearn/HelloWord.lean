import AsioLearn.Cpp
import Mathlib.Logic.Function.Basic

/-!
# The callback of both servers (`LogicSystem.cc`)

`LogicSystem::HelloWordCallBack` of `logicServer` and `LogicSystem::HelloWorldCallBack` of
`BoostCoServer` are the same statements: parse the payload, read two members of the root, replace
one of them, and send the styled text back. Neither looks at what `parse` returns, nor at the type
of anything it reads.

* jsoncpp is the parameter `JsonCpp`. An operation that can throw gives `none` when it does; what is
  relied on is `JsonCpp.Documented`.
* `send` is the session's `Send(text, id)` as its caller sees it: it may throw as well, or run into
  undefined behaviour (`Cpp.Fault`).
* The text printed on the way is left out, the reads it takes are not.

Results:
* `helloWordCallBack_ok_iff`: the callback returns exactly when the root is an object or null, its
  members `id` and `data` can be converted, and the reply can be sent.
* `sampleJson_documented`: jsoncpp on two documents, the request of a client and an array, behaves
  as documented; `readable_hello`, `unreadable_poison` are these two.
-/

namespace AsioLearn

open AsioLearn.Cpp

/-- `Json::ValueType`. -/
inductive ValueType where
  | nullValue
  | intValue
  | uintValue
  | realValue
  | stringValue
  | booleanValue
  | arrayValue
  | objectValue
  deriving DecidableEq, Repr

/-- What the callbacks use of jsoncpp. -/
structure JsonCpp where
  Value : Type
  /-- `Json::Value root; reader.parse(document, root)`: what `root` holds after that, whatever
  `parse` returned. -/
  parse : List UInt8 → Value
  /-- `value.type()`. -/
  type : Value → ValueType
  /-- `value.get(key, Json::Value())`: the member, null when there is none. -/
  get : Value → String → Value
  /-- `value[key]`: the value after it (null has become an object, a missing member is there) and
  the member. -/
  subscript : Value → String → Option (Value × Value)
  /-- `value[key] = member`. -/
  assign : Value → String → Value → Option Value
  /-- `value.isConvertibleTo(Json::intValue)`. -/
  isConvertibleToInt : Value → Bool
  asInt : Value → Option Int32
  asString : Value → Option (List UInt8)
  /-- `Json::Value(text)`. -/
  ofString : List UInt8 → Value
  toStyledString : Value → List UInt8

/-- The value can have members: `operator[]` with a key does not throw. -/
def JsonCpp.HasMembers (J : JsonCpp) (v : J.Value) : Prop :=
  J.type v = .nullValue ∨ J.type v = .objectValue

/-- `asString` does not throw. -/
def JsonCpp.HasText (J : JsonCpp) (v : J.Value) : Prop :=
  J.type v ≠ .arrayValue ∧ J.type v ≠ .objectValue

/-- The documented behaviour of jsoncpp the callbacks rely on. -/
structure JsonCpp.Documented (J : JsonCpp) : Prop where
  subscript_throws : ∀ v key, J.subscript v key = none ↔ ¬ J.HasMembers v
  subscript_type : ∀ v key v' x, J.subscript v key = some (v', x) → J.type v' = .objectValue
  subscript_get : ∀ v key v' x, J.subscript v key = some (v', x) →
    x = J.get v key ∧ ∀ key', J.get v' key' = J.get v key'
  assign_throws : ∀ v key x, J.assign v key x = none ↔ ¬ J.HasMembers v
  assign_type : ∀ v key x v', J.assign v key x = some v' → J.type v' = .objectValue
  assign_get : ∀ v key x v', J.assign v key x = some v' →
    J.get v' key = x ∧ ∀ key', key' ≠ key → J.get v' key' = J.get v key'
  asInt_throws : ∀ v, J.asInt v = none ↔ J.isConvertibleToInt v = false
  asString_throws : ∀ v, J.asString v = none ↔ ¬ J.HasText v

/-- How a callback can fail to return. -/
inductive Failure where
  /-- An exception of jsoncpp. -/
  | jsonError
  /-- `std::length_error`: the length of the payload is negative. -/
  | lengthError
  /-- The payload is read past the block of its node. -/
  | outOfBounds
  /-- What `Send` came to. -/
  | send (f : Fault)
  deriving DecidableEq, Repr

/-- An operation of jsoncpp that may throw. -/
def checked {α : Type} : Option α → Except Failure α
  | some a => .ok a
  | none => .error .jsonError

/-- `"server has received msg, msg data is "`. -/
def greeting : List UInt8 := "server has received msg, msg data is ".toUTF8.toList

/-- The callback up to `toStyledString`: the root with its member `data` replaced. -/
def replyRoot (J : JsonCpp) (msgData : List UInt8) : Except Failure J.Value := do
  let root := J.parse msgData
  let (root, id) ← checked (J.subscript root "id")
  let _ ← checked (J.asInt id)
  let (root, data) ← checked (J.subscript root "data")
  let _ ← checked (J.asString data)
  let (root, data) ← checked (J.subscript root "data")
  let text ← checked (J.asString data)
  checked (J.assign root "data" (J.ofString (greeting ++ text)))

/-- `HelloWordCallBack`, `HelloWorldCallBack`. -/
def helloWordCallBack {κ : Type} (J : JsonCpp) (send : List UInt8 → Int16 → Except Fault κ)
    (msgData : List UInt8) : Except Failure κ := do
  let root ← replyRoot J msgData
  let returnStr := J.toStyledString root
  let (_, id) ← checked (J.subscript root "id")
  let id ← checked (J.asInt id)
  match send returnStr (short id.toInt) with
  | .ok s => return s
  | .error f => throw (.send f)

/-- The text of the reply, if there is one. -/
def replyText (J : JsonCpp) (msgData : List UInt8) : List UInt8 :=
  match replyRoot J msgData with
  | .ok root => J.toStyledString root
  | .error _ => []

/-- `value[key]`: the value after it. -/
def JsonCpp.touch (J : JsonCpp) (v : J.Value) (key : String) : J.Value :=
  match J.subscript v key with
  | some (v', _) => v'
  | none => v

/-- A document with the greeting in front of the text of its member `data`, styled; its members `id`
and `data` are there. -/
def answerText (J : JsonCpp) (document : J.Value) : List UInt8 :=
  let touched := J.touch (J.touch (J.touch document "id") "data") "data"
  match J.asString (J.get document "data") with
  | some text =>
    ((J.assign touched "data" (J.ofString (greeting ++ text))).map J.toStyledString).getD []
  | none => []

/-- The id of the reply: the member `id`, as a `short`. -/
def replyId (J : JsonCpp) (msgData : List UInt8) : Int16 :=
  short ((J.asInt (J.get (J.parse msgData) "id")).getD 0).toInt

/-! ## When it returns -/

/-- The payload is one the callback can read. -/
structure Readable (J : JsonCpp) (msgData : List UInt8) : Prop where
  root : J.HasMembers (J.parse msgData)
  id : J.isConvertibleToInt (J.get (J.parse msgData) "id") = true
  data : J.HasText (J.get (J.parse msgData) "data")

section

variable {J : JsonCpp} (hJ : J.Documented)

include hJ

theorem subscript_ok {v : J.Value} (hv : J.HasMembers v) (key : String) :
    ∃ v', J.subscript v key = some (v', J.get v key) ∧ J.type v' = .objectValue ∧
      ∀ key', J.get v' key' = J.get v key' := by
  cases h : J.subscript v key with
  | none => exact absurd hv ((hJ.subscript_throws v key).mp h)
  | some p =>
    obtain ⟨v', x⟩ := p
    obtain ⟨rfl, hget⟩ := hJ.subscript_get v key v' x h
    exact ⟨v', rfl, hJ.subscript_type v key v' _ h, hget⟩

theorem assign_ok {v : J.Value} (hv : J.HasMembers v) (key : String) (x : J.Value) :
    ∃ v', J.assign v key x = some v' ∧ J.type v' = .objectValue ∧
      ∀ key', key' ≠ key → J.get v' key' = J.get v key' := by
  cases h : J.assign v key x with
  | none => exact absurd hv ((hJ.assign_throws v key x).mp h)
  | some v' => exact ⟨v', rfl, hJ.assign_type v key x v' h, (hJ.assign_get v key x v' h).2⟩

theorem asInt_ok {v : J.Value} (hv : J.isConvertibleToInt v = true) :
    ∃ i, J.asInt v = some i := by
  cases h : J.asInt v with
  | none =>
    rw [(hJ.asInt_throws v).mp h] at hv
    cases hv
  | some i => exact ⟨i, rfl⟩

theorem asString_ok {v : J.Value} (hv : J.HasText v) : ∃ text, J.asString v = some text := by
  cases h : J.asString v with
  | none => exact absurd hv ((hJ.asString_throws v).mp h)
  | some text => exact ⟨text, rfl⟩

/-- A readable payload is answered with an object that has the same `id`. -/
theorem replyRoot_ok {msgData : List UInt8} (h : Readable J msgData) :
    ∃ root, replyRoot J msgData = .ok root ∧ J.type root = .objectValue ∧
      J.get root "id" = J.get (J.parse msgData) "id" ∧
      J.toStyledString root = answerText J (J.parse msgData) := by
  obtain ⟨v₁, h₁, ht₁, hg₁⟩ := subscript_ok hJ h.root "id"
  obtain ⟨i, hi⟩ := asInt_ok hJ h.id
  obtain ⟨v₂, h₂, ht₂, hg₂⟩ := subscript_ok hJ (Or.inr ht₁) "data"
  obtain ⟨v₃, h₃, ht₃, hg₃⟩ := subscript_ok hJ (Or.inr ht₂) "data"
  obtain ⟨text, htext⟩ := asString_ok hJ h.data
  obtain ⟨v₄, h₄, ht₄, hg₄⟩ := assign_ok hJ (Or.inr ht₃) "data" (J.ofString (greeting ++ text))
  rw [hg₁] at h₂
  rw [hg₂, hg₁] at h₃
  refine ⟨v₄, ?_, ht₄, ?_, ?_⟩
  · simp [replyRoot, checked, h₁, hi, h₂, htext, h₃, h₄, bind, Except.bind]
  · rw [hg₄ "id" (by decide), hg₃, hg₂, hg₁]
  · simp [answerText, JsonCpp.touch, h₁, h₂, h₃, htext, h₄]

/-- An unreadable one makes an operation of jsoncpp throw. -/
theorem replyRoot_throws {msgData : List UInt8} (h : ¬ Readable J msgData) :
    replyRoot J msgData = .error .jsonError := by
  unfold replyRoot
  by_cases hroot : J.HasMembers (J.parse msgData)
  · obtain ⟨v₁, h₁, ht₁, hg₁⟩ := subscript_ok hJ hroot "id"
    simp only [h₁, checked, bind, Except.bind]
    by_cases hid : J.isConvertibleToInt (J.get (J.parse msgData) "id") = true
    · obtain ⟨i, hi⟩ := asInt_ok hJ hid
      obtain ⟨v₂, h₂, -, -⟩ := subscript_ok hJ (Or.inr ht₁) "data"
      have hdata : J.asString (J.get (J.parse msgData) "data") = none :=
        (hJ.asString_throws _).mpr fun hd => h ⟨hroot, hid, hd⟩
      rw [hg₁] at h₂
      simp only [hi, h₂, hdata]
    · have hnone : J.asInt (J.get (J.parse msgData) "id") = none :=
        (hJ.asInt_throws _).mpr (by simpa using hid)
      simp only [hnone]
  · simp only [(hJ.subscript_throws _ _).mpr hroot, checked, bind, Except.bind]

/-- The reply is the answer to the document that was parsed. -/
theorem replyText_eq {msgData : List UInt8} (h : Readable J msgData) :
    replyText J msgData = answerText J (J.parse msgData) := by
  obtain ⟨root, hroot, -, -, htext⟩ := replyRoot_ok hJ h
  unfold replyText
  rw [hroot]
  exact htext

variable {κ : Type} {send : List UInt8 → Int16 → Except Fault κ}

/-- On a readable payload the callback comes to what `Send` comes to. -/
theorem helloWordCallBack_readable {msgData : List UInt8} (h : Readable J msgData) :
    helloWordCallBack J send msgData =
      match send (replyText J msgData) (replyId J msgData) with
      | .ok s => .ok s
      | .error f => .error (.send f) := by
  obtain ⟨root, hroot, htype, hget, -⟩ := replyRoot_ok hJ h
  obtain ⟨root', hid, -, -⟩ := subscript_ok hJ (Or.inr htype) "id"
  obtain ⟨i, hi⟩ := asInt_ok hJ h.id
  rw [hget] at hid
  simp only [helloWordCallBack, replyText, replyId, hroot, hid, hi, checked, bind, Except.bind,
    Option.getD_some]
  cases send (J.toStyledString root) (short i.toInt) <;> rfl

/-- On any other an exception leaves it. -/
theorem helloWordCallBack_unreadable {msgData : List UInt8} (h : ¬ Readable J msgData) :
    helloWordCallBack J send msgData = .error .jsonError := by
  unfold helloWordCallBack
  rw [replyRoot_throws hJ h]
  rfl

/-- **When the callback returns.** -/
theorem helloWordCallBack_ok_iff {msgData : List UInt8} :
    (∃ s, helloWordCallBack J send msgData = .ok s) ↔ Readable J msgData ∧
      ∃ s, send (answerText J (J.parse msgData)) (replyId J msgData) = .ok s := by
  by_cases h : Readable J msgData
  · rw [helloWordCallBack_readable hJ h, and_iff_right h, ← replyText_eq hJ h]
    cases send (replyText J msgData) (replyId J msgData) <;> simp
  · rw [helloWordCallBack_unreadable hJ h]
    simp [h]

end

/-! ## Two documents -/

/-- JSON values, as far as the documents below need them. -/
inductive SampleValue where
  | null
  | int (i : Int32)
  | string (text : List UInt8)
  | array
  | object (member : String → SampleValue)

/-- A value that has become an object. -/
def SampleValue.member : SampleValue → String → SampleValue
  | .object member => member
  | _ => fun _ => .null

def SampleValue.type : SampleValue → ValueType
  | .null => .nullValue
  | .int _ => .intValue
  | .string _ => .stringValue
  | .array => .arrayValue
  | .object _ => .objectValue

/-- A number or a quoted string. -/
def SampleValue.text : SampleValue → List UInt8
  | .int i => (toString i.toInt).toUTF8.toList
  | .string text => "\"".toUTF8.toList ++ text ++ "\"".toUTF8.toList
  | _ => "null".toUTF8.toList

/-- The request of a client: `{"id":1001,"data":"hi"}`. -/
def helloText : List UInt8 := "\x7b\"id\":1001,\"data\":\"hi\"\x7d".toUTF8.toList

/-- An array: `[1]`. -/
def poisonText : List UInt8 := "[1]".toUTF8.toList

def SampleValue.isObject : SampleValue → Bool
  | .null | .object _ => true
  | _ => false

/-- jsoncpp on these two documents. -/
def sampleJson : JsonCpp where
  Value := SampleValue
  parse document :=
    if document = helloText then
      .object fun key =>
        if key = "id" then .int 1001
        else if key = "data" then .string "hi".toUTF8.toList
        else .null
    else if document = poisonText then .array
    else .null
  type := SampleValue.type
  get v key := v.member key
  subscript v key := if v.isObject then some (.object v.member, v.member key) else none
  assign v key x := if v.isObject then some (.object (Function.update v.member key x)) else none
  isConvertibleToInt
    | .null | .int _ => true
    | _ => false
  asInt
    | .null => some 0
    | .int i => some i
    | _ => none
  asString
    | .null => some []
    | .int i => some (toString i.toInt).toUTF8.toList
    | .string text => some text
    | _ => none
  ofString := .string
  toStyledString v :=
    "\x7b\n   \"data\" : ".toUTF8.toList ++ (v.member "data").text ++
      ",\n   \"id\" : ".toUTF8.toList ++ (v.member "id").text ++ "\n\x7d\n".toUTF8.toList

theorem sampleJson_documented : sampleJson.Documented where
  subscript_throws v key := by
    cases v <;> simp [sampleJson, JsonCpp.HasMembers, SampleValue.isObject, SampleValue.type]
  subscript_type v key v' x h := by
    simp only [sampleJson] at h
    split_ifs at h
    obtain ⟨rfl, -⟩ := Prod.mk.inj (Option.some.inj h)
    rfl
  subscript_get v key v' x h := by
    simp only [sampleJson] at h
    split_ifs at h
    obtain ⟨rfl, rfl⟩ := Prod.mk.inj (Option.some.inj h)
    exact ⟨rfl, fun _ => rfl⟩
  assign_throws v key x := by
    cases v <;> simp [sampleJson, JsonCpp.HasMembers, SampleValue.isObject, SampleValue.type]
  assign_type v key x v' h := by
    simp only [sampleJson] at h
    split_ifs at h
    obtain rfl := Option.some.inj h
    rfl
  assign_get v key x v' h := by
    simp only [sampleJson] at h
    split_ifs at h
    obtain rfl := Option.some.inj h
    exact ⟨Function.update_self .., fun key' hne => Function.update_of_ne hne ..⟩
  asInt_throws v := by cases v <;> simp [sampleJson]
  asString_throws v := by cases v <;> simp [sampleJson, JsonCpp.HasText, SampleValue.type]

theorem parse_hello : sampleJson.parse helloText = .object fun key =>
    if key = "id" then .int 1001 else if key = "data" then .string "hi".toUTF8.toList else .null :=
  if_pos rfl

theorem parse_poison : sampleJson.parse poisonText = .array :=
  (if_neg (by decide +kernel)).trans (if_pos rfl)

theorem readable_hello : Readable sampleJson helloText where
  root := by
    rw [parse_hello]
    exact Or.inr rfl
  id := by
    rw [parse_hello]
    rfl
  data := by
    rw [parse_hello]
    exact ⟨by decide, by decide⟩

theorem unreadable_poison : ¬ Readable sampleJson poisonText := by
  intro h
  have hroot := h.root
  rw [parse_poison] at hroot
  rcases hroot with h | h <;> cases h

end AsioLearn
