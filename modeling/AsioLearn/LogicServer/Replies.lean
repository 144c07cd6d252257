import AsioLearn.Serving
import AsioLearn.SendLength

/-!
# Replies of `logicServer` as frames

A reply should be a frame that the peer's receive side takes, with the id that its own document
names (`Answers`). `HelloWordCallBack` bounds neither: the text is the request's document with the
greeting put in front of its member `data`, and the id is the document's, narrowed to `short`.

* Of `toStyledString` it is assumed that it styles an object member by member (`StylesMembers`). The
  length of the reply is then that of the request's own document, styled, and 37.

Results:
* `IsReply.decoded`: what the wire decoder makes of a proper reply;
* `reply_closed_iff`: a request is answered properly exactly when the queue is over its limit, and
  nothing is sent, or its document, styled and without the comments by `data`, is at least 37 bytes
  short of `maxLength` and its id is a `short` of at most `maxLength`.
-/

namespace AsioLearn.LogicServer

open Cpp Wire Lib.Lts

/-! ## Requests and replies -/

/-- `operator[]` with the key of a member leaves the value as it is. -/
def KeepsMembers (J : JsonCpp) : Prop :=
  ∀ v key v' x, J.subscript v key = some (v', x) → J.type x ≠ .nullValue → v' = v

/-- The styled text of an object has its text member `data` in it, in quotes. -/
def StylesData (J : JsonCpp) : Prop :=
  ∀ root text, J.type (J.get root "data") = .stringValue →
    J.asString (J.get root "data") = some text → text.length < (J.toStyledString root).length

/-- An object is styled member by member, and a string character by character: the greeting, which
has no character to escape, makes the text longer by its own length. Of the member that is replaced
only the comments that stood by it are lost, so many bytes. -/
def StylesMembers (J : JsonCpp) (comments : J.Value → Nat) : Prop :=
  ∀ v text v', J.type v = .objectValue → J.type (J.get v "data") = .stringValue →
    J.asString (J.get v "data") = some text →
    J.assign v "data" (J.ofString (greeting ++ text)) = some v' →
    (J.toStyledString v').length + comments (J.get v "data") =
      (J.toStyledString v).length + greeting.length

/-- A frame for the callback, with an object that has an integer `id`, one that fits an `int`, and
a string `data`. -/
structure Request (J : JsonCpp) extends Frame where
  hello : id = msgHelloWord
  object : J.type (J.parse payload) = .objectValue
  id_integer : J.type (J.get (J.parse payload) "id") = .intValue ∨
    J.type (J.get (J.parse payload) "id") = .uintValue
  id_fits : J.isConvertibleToInt (J.get (J.parse payload) "id") = true
  data_string : J.type (J.get (J.parse payload) "data") = .stringValue

variable {J : JsonCpp}

/-- The document of the request. -/
def Request.document (r : Request J) : J.Value := J.parse r.payload

/-- Its member `id`. -/
def Request.member (r : Request J) : Int :=
  ((J.asInt (J.get r.document "id")).getD 0).toInt

/-- The request's own document, styled, leaves room for the greeting. The comments by its member
`data` do not count. -/
def Request.LeavesRoom (comments : J.Value → Nat) (r : Request J) : Prop :=
  (J.toStyledString r.document).length + 37 ≤ maxLength + comments (J.get r.document "data")

/-- The node is a frame with the text of the document, and the document's id. -/
def IsReply (J : JsonCpp) (root : J.Value) (n : SendNode) : Prop :=
  ∃ (f : Frame) (i : Int32), n.buffer = f.bytes ∧ f.payload = J.toStyledString root ∧
    J.asInt (J.get root "id") = some i ∧ f.id.toInt = i.toInt

/-- The callback returns, having queued a proper reply, or nothing if the queue is over its
limit. -/
def Answers (s : SendSide) (r : Request J) : Prop :=
  ∃ t root, helloWordCallBack J s.call r.payload = .ok t ∧ replyRoot J r.payload = .ok root ∧
    (maxSendque < s.sendQue.length ∧ t = s ∨
      ∃ n, t.sendQue = s.sendQue ++ [n] ∧ IsReply J root n)

/-- **A proper reply is a message to the wire decoder**, with the id of the document. -/
theorem IsReply.decoded {root : J.Value} {n : SendNode} (h : IsReply J root n) :
    ∃ id i, decode n.buffer = (.header [], [(id, J.toStyledString root)]) ∧
      J.asInt (J.get root "id") = some i ∧ id.toInt = i.toInt := by
  obtain ⟨f, i, hbytes, hpayload, hi, hid⟩ := h
  have hframe := feed_frames [f]
  rw [List.flatMap_cons, List.flatMap_nil, List.append_nil, ← hbytes] at hframe
  refine ⟨f.id, i, hframe.trans ?_, hi, hid⟩
  rw [← hpayload]
  rfl

/-! ## What the callback does with a request -/

theorem Request.readable (r : Request J) : Readable J r.payload where
  root := Or.inr r.object
  id := r.id_fits
  data := by
    unfold JsonCpp.HasText
    rw [r.data_string]
    exact ⟨by decide, by decide⟩

theorem greeting_length : greeting.length = 37 := by decide +kernel

/-- The document of the reply. -/
theorem Request.replyRoot_eq (hJ : J.Documented) (hk : KeepsMembers J) (r : Request J) :
    ∃ root i text, replyRoot J r.payload = .ok root ∧
      J.asString (J.get r.document "data") = some text ∧
      J.assign r.document "data" (J.ofString (greeting ++ text)) = some root ∧
      J.asInt (J.get root "id") = some i ∧ r.member = i.toInt := by
  have hroot : J.HasMembers r.document := Or.inr r.object
  have hid : J.type (J.get r.document "id") ≠ .nullValue := by
    rcases r.id_integer with h | h
    · rw [show J.type (J.get r.document "id") = .intValue from h]
      decide
    · rw [show J.type (J.get r.document "id") = .uintValue from h]
      decide
  have hdata : J.type (J.get r.document "data") ≠ .nullValue := by
    rw [show J.type (J.get r.document "data") = .stringValue from r.data_string]
    decide
  obtain ⟨v₁, h₁, -, -⟩ := subscript_ok hJ hroot "id"
  obtain ⟨v₂, h₂, -, -⟩ := subscript_ok hJ hroot "data"
  obtain rfl := hk _ _ _ _ h₁ hid
  obtain rfl := hk _ _ _ _ h₂ hdata
  obtain ⟨i, hi⟩ := asInt_ok hJ r.id_fits
  obtain ⟨text, htext⟩ := asString_ok hJ r.readable.data
  have hmember : J.asInt (J.get r.document "id") = some i := hi
  have htext' : J.asString (J.get r.document "data") = some text := htext
  obtain ⟨root, ha, -, hget⟩ := assign_ok hJ hroot "data" (J.ofString (greeting ++ text))
  refine ⟨root, i, text, ?_, htext', ha, ?_, ?_⟩
  · unfold replyRoot
    rw [show J.parse r.payload = r.document from rfl]
    simp [checked, h₁, h₂, hmember, htext', ha, bind, Except.bind]
  · rw [hget "id" (by decide)]
    exact hmember
  · unfold Request.member
    rw [hmember]
    rfl

/-- **The length of the reply** is bounded exactly if the document leaves room for the greeting. -/
theorem Request.leavesRoom_iff {comments : J.Value → Nat} (hs : StylesMembers J comments)
    {r : Request J} {root : J.Value} {text : List UInt8}
    (htext : J.asString (J.get r.document "data") = some text)
    (hroot : J.assign r.document "data" (J.ofString (greeting ++ text)) = some root) :
    r.LeavesRoom comments ↔ (J.toStyledString root).length ≤ maxLength := by
  have hlen := hs r.document text root r.object r.data_string htext hroot
  have hmax : maxLength = 2048 := rfl
  rw [greeting_length] at hlen
  unfold Request.LeavesRoom
  omega

/-- A call of `Send` with room in the queue. -/
theorem call_room {s : SendSide} {msg : List UInt8} {msgid : Int16}
    (hroom : ¬ maxSendque < s.sendQue.length) :
    (∃ n t, SendNode.new (fun _ => 0) (msg ++ [0]) (short msg.length) msgid = .ok n ∧
      s.call msg msgid = .ok t ∧ t.sendQue = s.sendQue ++ [n]) ∨
    ∃ f, SendNode.new (fun _ => 0) (msg ++ [0]) (short msg.length) msgid = .error f ∧
      s.call msg msgid = .error f := by
  cases hnode : SendNode.new (fun _ => 0) (msg ++ [0]) (short msg.length) msgid with
  | error f =>
    refine Or.inr ⟨f, rfl, ?_⟩
    unfold SendSide.call callerView
    rw [if_neg hroom, hnode]
  | ok n =>
    obtain ⟨t, ht, hqueue⟩ := Option.map_eq_some_iff.mp (sendString_ok hroom hnode)
    refine Or.inl ⟨n, t, rfl, ?_, hqueue⟩
    unfold SendSide.call callerView
    rw [if_neg hroom, hnode, ht]

/-- The first field of a node is its id. -/
theorem id_of_buffer {n : SendNode} {f : Frame} {msg : List UInt8} {len id : Int16}
    (hn : SendNode.new (fun _ => 0) msg len id = .ok n) (hf : n.buffer = f.bytes) : f.id = id := by
  obtain ⟨-, -, -, -, -, hbuf⟩ := AsioLearn.sendNode_cases hn
  rw [hbuf] at hf
  unfold Frame.bytes at hf
  rw [List.append_assoc, List.append_assoc] at hf
  have htwo := (List.append_inj hf rfl).1
  exact (networkToHostShort_hostToNetworkShort f.id htwo.symm).symm.trans
    (networkToHostShort_hostToNetworkShort id rfl)

/-- A node of a text within the bounds is a frame. -/
theorem frame_of_text {msg : List UInt8} {id : Int16} (hlen : msg.length ≤ maxLength)
    (hid : id.toInt ≤ maxLength) {n : SendNode}
    (hn : SendNode.new (fun _ => 0) (msg ++ [0]) (short msg.length) id = .ok n) :
    n.buffer = (Frame.mk id msg hid hlen).bytes := by
  have hlen' : msg.length ≤ 2048 := hlen
  have hshort : (short msg.length).toInt = msg.length := short_toInt (by omega) (by omega)
  obtain ⟨-, -, -, -, -, hbuf⟩ := AsioLearn.sendNode_cases hn
  rw [hbuf, hshort, Int.toNat_natCast, List.take_append_of_le_length le_rfl, List.take_length]
  rfl

/-- The callback sends the document of the reply, under its id as a `short`. -/
theorem Request.callBack_eq (hJ : J.Documented) (r : Request J) {root : J.Value} {i : Int32}
    (hroot : replyRoot J r.payload = .ok root) (hi : J.asInt (J.get root "id") = some i)
    (s : SendSide) :
    helloWordCallBack J s.call r.payload =
      match s.call (J.toStyledString root) (short i.toInt) with
      | .ok t => .ok t
      | .error f => .error (.send f) := by
  obtain ⟨root', hroot', -, hget, -⟩ := replyRoot_ok hJ r.readable
  obtain rfl := Except.ok.inj (hroot.symm.trans hroot')
  have htext : replyText J r.payload = J.toStyledString root := by
    unfold replyText
    rw [hroot]
  have hid : replyId J r.payload = short i.toInt := by
    unfold replyId
    rw [← hget, hi, Option.getD_some]
  rw [helloWordCallBack_readable hJ r.readable, htext, hid]
  cases s.call (J.toStyledString root) (short i.toInt) <;> rfl

/-- A reply within the bounds is queued as a frame. -/
theorem answers_of_bounds (hJ : J.Documented) (hk : KeepsMembers J) {comments : J.Value → Nat}
    (hs : StylesMembers J comments) {s : SendSide} {r : Request J} (hlen : r.LeavesRoom comments)
    (hlow : -2 ^ 15 ≤ r.member) (hhigh : r.member ≤ maxLength)
    (hroom : ¬ maxSendque < s.sendQue.length) : Answers s r := by
  obtain ⟨root, i, text, hroot, htext, hassign, hi, hmember⟩ := r.replyRoot_eq hJ hk
  have hcall := r.callBack_eq hJ hroot hi s
  have hmax : maxLength = 2048 := rfl
  rw [hmember] at hlow hhigh
  rw [Request.leavesRoom_iff hs htext hassign] at hlen
  have hshort : (short i.toInt).toInt = i.toInt := short_toInt hlow (by omega)
  obtain ⟨n, hn, -⟩ := @carries_of_le (fun _ => 0) (J.toStyledString root) (short i.toInt)
    (hlen.trans (by decide))
  rcases @call_room s (J.toStyledString root) (short i.toInt) hroom with
    ⟨n', t, hn', ht, hqueue⟩ | ⟨fault, herror, -⟩
  · obtain rfl := Except.ok.inj (hn.symm.trans hn')
    rw [ht] at hcall
    refine ⟨t, root, hcall, hroot, Or.inr ⟨n, hqueue, ?_⟩⟩
    exact ⟨_, i, frame_of_text hlen (by rw [hshort]; exact hhigh) hn, rfl, hi, hshort⟩
  · cases hn.symm.trans herror

/-- A reply that is queued as a frame is within the bounds. -/
theorem bounds_of_answers (hJ : J.Documented) (hk : KeepsMembers J) {comments : J.Value → Nat}
    (hs : StylesMembers J comments) {s : SendSide} {r : Request J} (h : Answers s r)
    (hroom : ¬ maxSendque < s.sendQue.length) :
    r.LeavesRoom comments ∧ -2 ^ 15 ≤ r.member ∧ r.member ≤ maxLength := by
  obtain ⟨root, i, text, hroot, htext, hassign, hi, hmember⟩ := r.replyRoot_eq hJ hk
  have hcall := r.callBack_eq hJ hroot hi s
  obtain ⟨t, root', ht, hroot', hreply⟩ := h
  obtain rfl := Except.ok.inj (hroot.symm.trans hroot')
  obtain ⟨n, hqueue, f, i', hbytes, hpayload, hi', hfid⟩ :=
    hreply.resolve_left fun hc => hroom hc.1
  obtain rfl := Option.some.inj (hi.symm.trans hi')
  rw [hmember, Request.leavesRoom_iff hs htext hassign]
  rcases @call_room s (J.toStyledString root) (short i.toInt) hroom with
    ⟨n', t', hn, ht', hqueue'⟩ | ⟨fault, -, hfault⟩
  · rw [ht'] at hcall
    obtain rfl := Except.ok.inj (ht.symm.trans hcall)
    have hsnoc := List.append_cancel_left (hqueue.symm.trans hqueue')
    obtain rfl : n = n' := (List.cons.inj hsnoc).1
    have hshort : (short i.toInt).toInt = i.toInt := by
      rw [← id_of_buffer hn hbytes]
      exact hfid
    have hle : f.id.toInt ≤ maxLength := f.id_le
    refine ⟨hpayload ▸ f.length_le, (short_toInt_iff.mp hshort).1, ?_⟩
    rw [← hfid]
    exact hle
  · rw [hfault] at hcall
    cases ht.symm.trans hcall

/-- Over the limit nothing is queued. -/
theorem answers_full (hJ : J.Documented) (hk : KeepsMembers J) {s : SendSide} (r : Request J)
    (hfull : maxSendque < s.sendQue.length) : Answers s r := by
  obtain ⟨root, i, text, hroot, -, -, hi, -⟩ := r.replyRoot_eq hJ hk
  have hcall := r.callBack_eq hJ hroot hi s
  have hsame : s.call (J.toStyledString root) (short i.toInt) = .ok s := if_pos hfull
  rw [hsame] at hcall
  exact ⟨s, root, hcall, hroot, Or.inl ⟨hfull, rfl⟩⟩

/-- **When a request is answered properly.** -/
theorem reply_closed_iff (hJ : J.Documented) (hk : KeepsMembers J) {comments : J.Value → Nat}
    (hs : StylesMembers J comments) (s : SendSide) (r : Request J) :
    Answers s r ↔ maxSendque < s.sendQue.length ∨
      (r.LeavesRoom comments ∧ -2 ^ 15 ≤ r.member ∧ r.member ≤ maxLength) := by
  by_cases hfull : maxSendque < s.sendQue.length
  · exact iff_of_true (answers_full hJ hk r hfull) (Or.inl hfull)
  · rw [or_iff_right hfull]
    constructor
    · exact fun h => bounds_of_answers hJ hk hs h hfull
    · rintro ⟨hlen, hlow, hhigh⟩
      exact answers_of_bounds hJ hk hs hlen hlow hhigh hfull

/-! ## Two requests -/

theorem sampleJson_keeps : KeepsMembers sampleJson := by
  intro v key v' x h hx
  simp only [sampleJson] at h hx
  split_ifs at h
  obtain ⟨rfl, rfl⟩ := Prod.mk.inj (Option.some.inj h)
  cases v with
  | object member => rfl
  | null => exact absurd rfl hx
  | int _ => exact absurd rfl hx
  | string _ => exact absurd rfl hx
  | array => exact absurd rfl hx

theorem sampleJson_styles : StylesData sampleJson := by
  intro root text htype htext
  simp only [sampleJson] at htype htext ⊢
  cases hdata : root.member "data" with
  | string t =>
    rw [hdata] at htext
    obtain rfl := Option.some.inj htext
    simp only [SampleValue.text, List.length_append]
    have hquote : "\"".toUTF8.toList.length = 1 := by decide +kernel
    omega
  | object _ =>
    rw [hdata] at htype
    cases htype
  | null =>
    rw [hdata] at htype
    cases htype
  | int _ =>
    rw [hdata] at htype
    cases htype
  | array =>
    rw [hdata] at htype
    cases htype

/-- There are no comments in these documents, and no characters to escape. -/
theorem sampleJson_stylesMembers : StylesMembers sampleJson fun _ => 0 := by
  intro v text v' hobject hstring htext hassign
  obtain ⟨member, rfl⟩ : ∃ member, v = SampleValue.object member := by
    cases v with
    | object member => exact ⟨member, rfl⟩
    | _ => cases hobject
  have hold : member "data" = .string text := by
    change (member "data").type = .stringValue at hstring
    change sampleJson.asString (member "data") = some text at htext
    cases hdata : member "data" with
    | string t =>
      rw [hdata] at htext
      obtain rfl := Option.some.inj htext
      rfl
    | _ =>
      rw [hdata] at hstring
      cases hstring
  obtain rfl := Option.some.inj hassign
  have hid : Function.update member "data" (.string (greeting ++ text)) "id" = member "id" :=
    Function.update_of_ne (by decide) ..
  have hnew : Function.update member "data" (.string (greeting ++ text)) "data" =
      .string (greeting ++ text) := Function.update_self ..
  simp only [sampleJson, SampleValue.member, hid, hnew, hold, SampleValue.text, List.length_append]
  omega

/-- The request of a client: id 1001 in the header and in the document. -/
def helloRequest : Request sampleJson where
  id := msgHelloWord
  payload := helloText
  id_le := by decide
  length_le := by decide +kernel
  hello := rfl
  object := by
    rw [parse_hello]
    rfl
  id_integer := by
    rw [parse_hello]
    exact Or.inl rfl
  id_fits := readable_hello.id
  data_string := by
    rw [parse_hello]
    rfl

theorem reply_closed_hello : Answers SendSide.empty helloRequest := by
  refine (reply_closed_iff sampleJson_documented sampleJson_keeps sampleJson_stylesMembers
    SendSide.empty helloRequest).mpr (Or.inr ?_)
  unfold Request.LeavesRoom
  decide +kernel

/-- A document with a larger id: `\x7b"id":5000,"data":"hi"\x7d`. -/
def farText : List UInt8 := "\x7b\"id\":5000,\"data\":\"hi\"\x7d".toUTF8.toList

/-- What is relied on does not depend on what is parsed. -/
theorem documented_parse (hJ : J.Documented) (parse : List UInt8 → J.Value) :
    JsonCpp.Documented { J with parse } :=
  ⟨hJ.1, hJ.2, hJ.3, hJ.4, hJ.5, hJ.6, hJ.7, hJ.8⟩

theorem keeps_parse (hk : KeepsMembers J) (parse : List UInt8 → J.Value) :
    KeepsMembers { J with parse } := hk

theorem styles_parse (hs : StylesData J) (parse : List UInt8 → J.Value) :
    StylesData { J with parse } := hs

theorem stylesMembers_parse {comments : J.Value → Nat} (hs : StylesMembers J comments)
    (parse : List UInt8 → J.Value) : StylesMembers { J with parse } comments := hs

/-- jsoncpp on this document as well. -/
def farJson : JsonCpp :=
  { sampleJson with
    parse := fun document =>
      if document = farText then
        SampleValue.object fun key =>
          if key = "id" then .int 5000
          else if key = "data" then .string "hi".toUTF8.toList
          else .null
      else sampleJson.parse document }

theorem parse_far : farJson.parse farText = SampleValue.object fun key =>
    if key = "id" then .int 5000 else if key = "data" then .string "hi".toUTF8.toList else .null :=
  if_pos rfl

def farRequest : Request farJson where
  id := msgHelloWord
  payload := farText
  id_le := by decide
  length_le := by decide +kernel
  hello := rfl
  object := by
    rw [parse_far]
    rfl
  id_integer := by
    rw [parse_far]
    exact Or.inl rfl
  id_fits := by
    rw [parse_far]
    rfl
  data_string := by
    rw [parse_far]
    rfl

/-- The reply to the id 5000 is a frame with a header that its receiver rejects. -/
theorem reply_far : ¬ ∀ J : JsonCpp, J.Documented → KeepsMembers J → StylesData J →
    (∃ comments, StylesMembers J comments) → ∀ (s : SendSide) (r : Request J), Answers s r := by
  intro hall
  have hJ : farJson.Documented := documented_parse sampleJson_documented _
  have hk : KeepsMembers farJson := keeps_parse sampleJson_keeps _
  have hs : StylesData farJson := styles_parse sampleJson_styles _
  have hm : StylesMembers farJson fun _ => 0 := stylesMembers_parse sampleJson_stylesMembers _
  have h := bounds_of_answers hJ hk hm (hall farJson hJ hk hs ⟨_, hm⟩ .empty farRequest) (by decide)
  have hmember : farRequest.member = 5000 := by decide +kernel
  rw [hmember] at h
  exact absurd h.2.2 (by decide)

end AsioLearn.LogicServer
