import AsioLearn.Protobuf.RoundTrip
import AsioLearn.NQueen.Client
import AsioLearn.NQueen.Reply

/-!
# Calls that carry the generated classes

`grpcDemoServer.cc`, `grpcDemoClient.cc` and the two sides of the N-queens service, over the bytes
that their messages write. gRPC is the parameter `rpc`: what a call of the stub comes back with, a
reply or the message of a status that is not OK.

* `Unary` is what its documentation says of a call: the server parses what the stub wrote of the
  request, and the stub what was written of the response; a message that does not parse, or is too
  long, or a handler that does not come back, makes the status another than OK.
* `Connected`: nothing else does, as long as the connection holds.

Results:
* **`transport_of_unary`**: a call of the N-queens service that comes back OK brings back what the
  service replied to this request: the assumption the distributed count rests on.
* **`say_hello`**: the greeter answers a name that is UTF-8, and fails on any other.
-/

namespace AsioLearn.Protobuf

variable {U Q R : Type} {rt : Runtime U} {limit : Nat} {Gq : Generated Q} {Gr : Generated R}

/-! ## Calls -/

/-- The two messages of a call on their ways. `noRequest` and `noReply` are newly made objects. -/
structure Carried (rt : Runtime U) (limit : Nat) (Gq : Generated Q) (Gr : Generated R)
    (noRequest : Message U Q) (noReply : Message U R)
    (handler : Message U Q → Option (Message U R)) (request received : Message U Q)
    (response reply : Message U R) : Prop where
  requestFits : request.Fits rt Gq limit
  arrived : noRequest.internalParse rt Gq (request.serialize rt Gq) =
    some (.success received [] none)
  handled : handler received = some response
  responseFits : response.Fits rt Gr limit
  back : noReply.internalParse rt Gr (response.serialize rt Gr) = some (.success reply [] none)

/-- A call whose status is OK has carried its request and its response. -/
def Unary (rt : Runtime U) (limit : Nat) (Gq : Generated Q) (Gr : Generated R)
    (noRequest : Message U Q) (noReply : Message U R)
    (handler : Message U Q → Option (Message U R))
    (rpc : Message U Q → Except (List UInt8) (Message U R)) : Prop :=
  ∀ {request reply}, rpc request = .ok reply → ∃ received response,
    Carried rt limit Gq Gr noRequest noReply handler request received response reply

/-- A call that can be carried comes back with status OK. -/
def Connected (rt : Runtime U) (limit : Nat) (Gq : Generated Q) (Gr : Generated R)
    (noRequest : Message U Q) (noReply : Message U R)
    (handler : Message U Q → Option (Message U R))
    (rpc : Message U Q → Except (List UInt8) (Message U R)) : Prop :=
  ∀ {request received response reply},
    Carried rt limit Gq Gr noRequest noReply handler request received response reply →
      ∃ reply, rpc request = .ok reply

variable {noRequest : Message U Q} {noReply : Message U R}
  {handler : Message U Q → Option (Message U R)}

/-- What a call has carried is what was sent. -/
theorem Carried.exact {fmtq : Format rt Gq limit} {fmtr : Format rt Gr limit}
    (hrt : rt.Documented limit) {request received : Message U Q} {response reply : Message U R}
    (h : Carried rt limit Gq Gr noRequest noReply handler request received response reply)
    (hq : request.Wf fmtq) (hr : response.Wf fmtr) :
    received = noRequest.mergeFrom Gq request ∧ reply = noReply.mergeFrom Gr response := by
  have hreceived := h.arrived
  have hreplied := h.back
  rw [parse_serialize_one hrt hq h.requestFits] at hreceived
  rw [parse_serialize_one hrt hr h.responseFits] at hreplied
  exact ⟨(Outcome.success.inj (Option.some.inj hreceived)).1.symm,
    (Outcome.success.inj (Option.some.inj hreplied)).1.symm⟩

/-- A connection that holds. -/
def direct (rt : Runtime U) (limit : Nat) (Gq : Generated Q) (Gr : Generated R)
    (noRequest : Message U Q) (noReply : Message U R)
    (handler : Message U Q → Option (Message U R)) (request : Message U Q) :
    Except (List UInt8) (Message U R) :=
  if request.Fits rt Gq limit then
    match noRequest.internalParse rt Gq (request.serialize rt Gq) with
    | some (.success received [] none) =>
      match handler received with
      | some response =>
        if response.Fits rt Gr limit then
          match noReply.internalParse rt Gr (response.serialize rt Gr) with
          | some (.success reply [] none) => .ok reply
          | _ => .error []
        else .error []
      | none => .error []
    | _ => .error []
  else .error []

theorem unary_direct :
    Unary rt limit Gq Gr noRequest noReply handler
      (direct rt limit Gq Gr noRequest noReply handler) := by
  intro request reply h
  unfold direct at h
  split at h
  · rename_i hrequest
    split at h
    · rename_i received hreceived
      split at h
      · rename_i response hhandled
        split at h
        · rename_i hresponse
          split at h
          · rename_i reply' hreplied
            obtain rfl := Except.ok.inj h
            exact ⟨received, response, hrequest, hreceived, hhandled, hresponse, hreplied⟩
          · cases h
        · cases h
      · cases h
    · cases h
  · cases h

theorem connected_direct :
    Connected rt limit Gq Gr noRequest noReply handler
      (direct rt limit Gq Gr noRequest noReply handler) := by
  intro request received response reply h
  refine ⟨reply, ?_⟩
  unfold direct
  rw [if_pos h.requestFits, h.arrived]
  dsimp only
  rw [h.handled]
  dsimp only
  rw [if_pos h.responseFits, h.back]

/-! ## The N-queens service -/

/-- A newly made `TaskRequest`. -/
def noTask : Message U TaskRequest := ⟨⟨0, [], 0⟩, []⟩

/-- A newly made `TaskResult`. -/
def noResult : Message U TaskResult := ⟨⟨0⟩, []⟩

/-- The request the client makes with `set_n` and `add_partial`. -/
def taskMessage (request : NQueen.TaskRequest) : Message U TaskRequest :=
  ⟨⟨request.n, request.board, 0⟩, []⟩

/-- `NQueenServiceImpl::Solve` on the message. -/
def solveMessage (request : Message U TaskRequest) : Option (Message U TaskResult) :=
  match NQueen.NQueenServiceImpl.solveRequest NQueen.intInc
      ⟨request.fields.n, request.fields.board⟩ with
  | .ok reply => some ⟨⟨Int32.ofInt reply.solutions⟩, []⟩
  | .error _ => none

/-- What `stub_->Solve` comes back with, as the client sees it. -/
def solveCall (rpc : Nat → NQueen.Address → Message U TaskRequest →
    Except (List UInt8) (Message U TaskResult)) (i : Nat) (address : NQueen.Address)
    (request : NQueen.TaskRequest) : Option NQueen.TaskResult :=
  match rpc i address (taskMessage request) with
  | .ok reply => some ⟨reply.fields.solutions.toInt⟩
  | .error _ => none

theorem noTask_mergeFrom (request : NQueen.TaskRequest) :
    (noTask : Message U TaskRequest).mergeFrom (TaskRequest.generated rt) (taskMessage request) =
      taskMessage request :=
  congrArg (Message.mk · []) (@TaskRequest.mergeFrom_clear U rt ⟨0, [], 0⟩ (taskMessage request).1)

theorem noResult_mergeFrom (k : Int32) :
    (noResult : Message U TaskResult).mergeFrom (TaskResult.generated rt) ⟨⟨k⟩, []⟩ =
      ⟨⟨k⟩, []⟩ :=
  congrArg (Message.mk · []) (@TaskResult.mergeFrom_clear U rt ⟨0⟩ ⟨k⟩)

theorem solveRequest_int_negative {request : NQueen.TaskRequest} (hn : request.n.toInt < 0)
    {reply : NQueen.TaskResult}
    (h : NQueen.NQueenServiceImpl.solveRequest NQueen.intInc request = .ok reply) :
    NQueen.NQueenServiceImpl.solveRequest NQueen.exactInc request = .ok reply ∧
      reply.solutions = 1 := by
  have hzero : request.n.toInt.toNat = 0 := Int.toNat_of_nonpos hn.le
  unfold NQueen.NQueenServiceImpl.solveRequest at h ⊢
  dsimp only at h ⊢
  rw [hzero] at h ⊢
  cases hpad : NQueen.padBoard (request.board.map Int32.toInt) request.n.toInt with
  | error e =>
    rw [hpad] at h
    cases h
  | ok board =>
    rw [hpad] at h
    obtain rfl := Except.ok.inj h
    exact ⟨rfl, rfl⟩

/-- The count of a reply is exact, and an `int32`. -/
theorem solveRequest_int_exact {request : NQueen.TaskRequest} {reply : NQueen.TaskResult}
    (h : NQueen.NQueenServiceImpl.solveRequest NQueen.intInc request = .ok reply) :
    NQueen.NQueenServiceImpl.solveRequest NQueen.exactInc request = .ok reply ∧
      (Int32.ofInt reply.solutions).toInt = reply.solutions := by
  by_cases hn : 0 ≤ request.n.toInt
  · obtain ⟨k⟩ := reply
    obtain ⟨hfit, rfl, hlt⟩ := (NQueen.solveRequest_int_iff hn).mp h
    exact ⟨NQueen.solveRequest_exact hn hfit,
      Int32.toInt_ofInt_of_le (by simp only; omega) (by simp only; omega)⟩
  · obtain ⟨hexact, hone⟩ := solveRequest_int_negative (by omega) h
    refine ⟨hexact, ?_⟩
    rw [hone]
    rfl

theorem wf_nil {F : Type} {G : Generated F} {fmt : Format rt G limit} {f : F}
    (h : fmt.Valid f) : Message.Wf fmt (⟨f, []⟩ : Message U F) :=
  ⟨h, fun _ hu => absurd hu List.not_mem_nil⟩

/-- **What a call brings back** is what the service replied to this very request: the assumption on
`rpc` under which the distributed count is the local one. -/
theorem transport_of_unary (hrt : rt.Documented limit)
    {rpc : Nat → NQueen.Address → Message U TaskRequest →
      Except (List UInt8) (Message U TaskResult)}
    (hrpc : ∀ i address, Unary rt limit (TaskRequest.generated rt) (TaskResult.generated rt) noTask
      noResult solveMessage (rpc i address))
    (hport : ∀ i address request reply, rpc i address request = .ok reply →
      address.port < 2 ^ 16) : NQueen.Transport (solveCall rpc) where
  port i address request reply h := by
    unfold solveCall at h
    split at h
    · rename_i hreply
      exact hport _ _ _ _ hreply
    · cases h
  reply i address request reply h := by
    unfold solveCall at h
    split at h
    · rename_i back hback
      obtain rfl := Option.some.inj h
      obtain ⟨received, response, hcarried⟩ := hrpc i address hback
      have hsolved : solveMessage received = some response := hcarried.handled
      unfold solveMessage at hsolved
      split at hsolved
      · rename_i result hresult
        obtain rfl := Option.some.inj hsolved
        obtain ⟨rfl, rfl⟩ := hcarried.exact hrt (@wf_nil U rt limit _ _ (TaskRequest.format hrt) _
          trivial) (@wf_nil U rt limit _ _ (TaskResult.format hrt) _ trivial)
        rw [noTask_mergeFrom] at hresult
        obtain ⟨hexact, hint⟩ := solveRequest_int_exact hresult
        rw [noResult_mergeFrom, hint]
        exact hexact
      · cases hsolved
    · cases h

/-- Connections that hold, to ports that exist. -/
theorem transport_of_unary_direct : NQueen.Transport (solveCall fun _ address request =>
    if address.port < 2 ^ 16 then
      direct (wire 1000) 1000 (TaskRequest.generated (wire 1000)) (TaskResult.generated (wire 1000))
        noTask noResult solveMessage request
    else .error []) := by
  refine transport_of_unary (wire_documented (by decide : 1000 < 2 ^ 31)) ?_ ?_
  · intro i address request reply h
    split at h
    · exact unary_direct h
    · cases h
  · intro i address request reply h
    split at h
    · assumption
    · cases h

/-! ## The greeter -/

/-- `prefix` of `SayHello`. -/
def greeting : List UInt8 := "HELLO SERVER HAS RECEIVED : ".toUTF8.toList

/-- `GreeterServiceImpl::SayHello`, on a newly made reply. -/
def GreeterServiceImpl.sayHello (request : Message U Hello) : Option (Message U Hello) :=
  some ⟨⟨greeting ++ request.fields.message⟩, []⟩

/-- `FCClient::SayHello`. -/
def FCClient.sayHello (rpc : Message U Hello → Except (List UInt8) (Message U Hello))
    (name : List UInt8) : List UInt8 :=
  match rpc ⟨⟨name⟩, []⟩ with
  | .ok reply => reply.fields.message
  | .error message => "failure ".toUTF8.toList ++ message

theorem utf8_append {s t : List UInt8} (hs : Utf8 s) (ht : Utf8 t) : Utf8 (s ++ t) := by
  rw [Utf8, List.toByteArray_append]
  exact ByteArray.IsValidUTF8.append hs ht

/-- A newly made `HelloRequest` or `HelloReply`. -/
def noHello : Message U Hello := ⟨⟨[]⟩, []⟩

theorem noHello_mergeFrom (field : String) (s : List UInt8) :
    (noHello : Message U Hello).mergeFrom (Hello.generated rt field) ⟨⟨s⟩, []⟩ = ⟨⟨s⟩, []⟩ :=
  congrArg (Message.mk · []) (@Hello.mergeFrom_clear U rt field ⟨[]⟩ ⟨s⟩)

theorem utf8_greeting : Utf8 greeting := by decide +kernel

/-- **When the greeter answers**: on a connection that holds, `SayHello` returns the greeting for a
name that is UTF-8, and a failure for any other, which the client sends all the same. -/
theorem say_hello (hrt : rt.Documented limit)
    {rpc : Message U Hello → Except (List UInt8) (Message U Hello)}
    (hrpc : Unary rt limit (HelloRequest.generated rt) (HelloReply.generated rt) noHello noHello
      GreeterServiceImpl.sayHello rpc)
    (hconn : Connected rt limit (HelloRequest.generated rt) (HelloReply.generated rt) noHello
      noHello GreeterServiceImpl.sayHello rpc) {name : List UInt8}
    (hfits : Message.Fits rt (HelloRequest.generated rt) limit ⟨⟨name⟩, []⟩)
    (hfits' : Message.Fits rt (HelloReply.generated rt) limit ⟨⟨greeting ++ name⟩, []⟩) :
    (Utf8 name → FCClient.sayHello rpc name = greeting ++ name) ∧
    (¬ Utf8 name → ∃ message, rpc ⟨⟨name⟩, []⟩ = .error message ∧
      FCClient.sayHello rpc name = "failure ".toUTF8.toList ++ message) := by
  constructor
  · intro hutf8
    have hq : (⟨⟨name⟩, []⟩ : Message U Hello).Wf (Hello.format hrt "hello.HelloRequest.message") :=
      wf_nil hutf8
    have hr : (⟨⟨greeting ++ name⟩, []⟩ : Message U Hello).Wf
        (Hello.format hrt "hello.HelloReply.message") := wf_nil (utf8_append utf8_greeting hutf8)
    have hcarried : Carried rt limit (HelloRequest.generated rt) (HelloReply.generated rt) noHello
        noHello GreeterServiceImpl.sayHello ⟨⟨name⟩, []⟩ ⟨⟨name⟩, []⟩ ⟨⟨greeting ++ name⟩, []⟩
        ⟨⟨greeting ++ name⟩, []⟩ :=
      ⟨hfits, (parse_serialize_one hrt hq hfits _).trans (by rw [noHello_mergeFrom]), rfl, hfits',
        (parse_serialize_one hrt hr hfits' _).trans (by rw [noHello_mergeFrom])⟩
    obtain ⟨reply, hreply⟩ := hconn hcarried
    obtain ⟨received, response, hback⟩ := hrpc hreply
    have hreceived := hback.arrived.symm.trans hcarried.arrived
    obtain ⟨rfl, -⟩ := Outcome.success.inj (Option.some.inj hreceived)
    obtain rfl := Option.some.inj (hback.handled.symm.trans hcarried.handled)
    obtain ⟨rfl, -⟩ := Outcome.success.inj
      (Option.some.inj (hback.back.symm.trans hcarried.back))
    rw [FCClient.sayHello, hreply]
  · intro hutf8
    cases hreply : rpc ⟨⟨name⟩, []⟩ with
    | error message =>
      refine ⟨message, rfl, ?_⟩
      rw [FCClient.sayHello, hreply]
    | ok reply =>
      obtain ⟨received, response, hback⟩ := hrpc hreply
      have hfails := @parse_not_utf8 _ _ _ hrt .helloRequest ⟨⟨name⟩, []⟩ hutf8 hfits noHello []
      rw [List.append_nil] at hfails
      cases hback.arrived.symm.trans hfails

/-- The name that the client's `main` sends. -/
def demoName : List UInt8 := "hello guitou".toUTF8.toList

theorem say_hello_guitou :
    FCClient.sayHello (direct (wire 1000) 1000 (HelloRequest.generated (wire 1000))
      (HelloReply.generated (wire 1000)) noHello noHello GreeterServiceImpl.sayHello) demoName =
    greeting ++ demoName :=
  (say_hello (wire_documented (by decide : 1000 < 2 ^ 31)) unary_direct connected_direct
    (by decide +kernel) (by decide +kernel)).1 (by decide +kernel)

end AsioLearn.Protobuf
