import AsioLearn.HelloWord

/-!
# `beastHttpServer`: what a connection makes of a request (`beastHttpServer.cc`)

`http_connection::process_request` and the functions it calls, from the parsed request to the
response handed to `async_write`. None of them has a `try` block, so an exception of jsoncpp leaves
the read handler: the functions give `none` then.

* jsoncpp is `JsonCpp`, with what this server uses besides (`JsonReader`). `parse` takes any JSON
  value as root; only its result is looked at, not the type of the root.
* The lines printed to the console are left out, the reads they take are not.
* Header fields are those the server sets. `request_count()` is a counter handed through, `now()` a
  value handed in.

Results:
* `createPostResponse_isSome_iff`, `processRequest_isSome_iff`: which requests are answered
  (`Request.Harmless`);
* `processRequest_spec`: what every response has, whatever the request.
-/

namespace AsioLearn.BeastHttpServer

open Cpp

/-- `http::verb`, as far as the server tells verbs apart. -/
inductive Verb where
  | get
  | post
  | other
  deriving DecidableEq, Repr

/-- `http::request<http::dynamic_body>`. -/
structure Request where
  version : Nat
  method : Verb
  methodString : String
  target : String
  body : List UInt8
  deriving DecidableEq, Repr

/-- `http::status`. -/
inductive Status where
  | ok
  | badRequest
  | notFound
  deriving DecidableEq, Repr

/-- `http::response<http::dynamic_body>`. -/
structure Response where
  version : Nat
  keepAlive : Bool
  result : Status
  server : Option String
  contentType : Option String
  contentLength : Option Nat
  body : List UInt8
  deriving DecidableEq, Repr

/-- A response as it is constructed. -/
def Response.empty : Response := ⟨11, true, .ok, none, none, none, []⟩

/-- `beast::ostream(_response.body()) << text`. -/
def Response.write (response : Response) (text : List UInt8) : Response :=
  { response with body := response.body ++ text }

/-- The bytes of a string literal. -/
def bytes (text : String) : List UInt8 := text.toUTF8.toList

/-- jsoncpp, as this server uses it. -/
structure JsonReader extends JsonCpp where
  /-- What `reader.parse(document, root)` returns; `none` when it throws. -/
  parseSuccess : List UInt8 → Option Bool
  /-- `Json::Value()`. -/
  null : Value
  /-- `Json::Value(i)`. -/
  ofInt : Int32 → Value

/-- The documented behaviour of jsoncpp that is relied on. -/
structure JsonReader.Documented (J : JsonReader) : Prop where
  values : J.toJsonCpp.Documented
  null_type : J.type J.null = .nullValue

/-! ## The functions of `http_connection` -/

/-- `request_count`: the counter after the call. -/
def requestCount (count : Nat) : Nat := sizeAdd count 1

/-- The end both `create` functions share. -/
def fileNotFound (response : Response) : Response :=
  { response with result := .notFound, contentType := some "text/plain" }.write
    (bytes "File not found\r\n")

/-- `http_connection::create_response`; the counter after it as well. -/
def createResponse (request : Request) (time : Int) (count : Nat) (response : Response) :
    Response × Nat :=
  if request.target = "/count" then
    let count := requestCount count
    ({ response with contentType := some "text/html" }.write
      (bytes ("<html>\n" ++ "<head><title>Request count</title></head>\n" ++ "<body>\n" ++
        "<h1>Request count</h1>\n" ++ "<p>There have been " ++ toString count ++
        " requests so far.</p>\n" ++ "</body>\n" ++ "</html>\n")), count)
  else if request.target = "/time" then
    ({ response with contentType := some "text/html" }.write
      (bytes ("<html>\n" ++ "<head><title>Current time</title></head>\n" ++ "<body>\n" ++
        "<h1>Current time</h1>\n" ++ "<p>The current time is " ++ toString time ++
        " seconds since the epoch.</p>\n" ++ "</body>\n" ++ "</html>\n")), count)
  else (fileNotFound response, count)

/-- `http_connection::create_post_response`. -/
def createPostResponse (J : JsonReader) (request : Request) (response : Response) :
    Option Response :=
  if request.target = "/email" then do
    let response := { response with contentType := some "text/json" }
    let parseSuccess ← J.parseSuccess request.body
    let srcRoot := J.parse request.body
    if parseSuccess then
      let (srcRoot, email) ← J.subscript srcRoot "email"
      let _ ← J.asString email
      let root ← J.assign J.null "error" (J.ofInt 0)
      let (_, email) ← J.subscript srcRoot "email"
      let root ← J.assign root "email" email
      let root ← J.assign root "msg" (J.ofString (bytes "recevie email post success"))
      return response.write (J.toStyledString root)
    else
      let root ← J.assign J.null "error" (J.ofInt 1001)
      return response.write (J.toStyledString root)
  else some (fileNotFound response)

/-- `http_connection::write_response` up to the `async_write`. -/
def writeResponse (response : Response) : Response :=
  { response with contentLength := some response.body.length }

/-- `_response.version(_request.version()); _response.keep_alive(false);`. -/
def Response.to (request : Request) : Response :=
  { Response.empty with version := request.version, keepAlive := false }

/-- `_response.result(http::status::ok); _response.set(http::field::server, "beast");`. -/
def Response.served (response : Response) : Response :=
  { response with result := .ok, server := some "beast" }

/-- `http_connection::process_request`: the response that is written, and the counter. -/
def processRequest (J : JsonReader) (request : Request) (time : Int) (count : Nat) :
    Option (Response × Nat) :=
  let response := Response.to request
  match request.method with
  | .get =>
    let created := createResponse request time count response.served
    some (writeResponse created.1, created.2)
  | .post =>
    (createPostResponse J request response.served).map fun created =>
      (writeResponse created, count)
  | .other =>
    let response := { response with result := .badRequest, contentType := some "text/plain" }.write
      (bytes ("Invalid request-method '" ++ request.methodString ++ "'"))
    some (writeResponse response, count)

/-! ## Which requests are answered -/

/-- `parse` returns, and if it succeeds the root is an object or null with a member `email`, null
when there is none, that is neither an array nor an object. -/
def EmailReadable (J : JsonReader) (body : List UInt8) : Prop :=
  J.parseSuccess body = some false ∨
    (J.parseSuccess body = some true ∧ J.HasMembers (J.parse body) ∧
      J.HasText (J.get (J.parse body) "email"))

/-- Only a `POST` to `/email` looks at its body. -/
def Request.Harmless (J : JsonReader) (request : Request) : Prop :=
  request.method = .post → request.target = "/email" → EmailReadable J request.body

section

variable {J : JsonReader} (hJ : J.Documented)

include hJ

/-- Members can be put into a fresh value one after the other. -/
theorem assign_null (key : String) (x : J.Value) :
    ∃ root, J.assign J.null key x = some root ∧ J.type root = .objectValue := by
  obtain ⟨root, hroot, htype, -⟩ := assign_ok hJ.values (Or.inl hJ.null_type) key x
  exact ⟨root, hroot, htype⟩

theorem createPostResponse_isSome_iff {request : Request} {response : Response} :
    (createPostResponse J request response).isSome ↔
      (request.target = "/email" → EmailReadable J request.body) := by
  unfold createPostResponse EmailReadable
  by_cases htarget : request.target = "/email"
  · rw [if_pos htarget, forall_prop_of_true htarget]
    cases hparse : J.parseSuccess request.body with
    | none => simp
    | some success =>
      cases success with
      | false =>
        obtain ⟨root, hroot, -⟩ := assign_null hJ "error" (J.ofInt 1001)
        simp [hroot]
      | true =>
        simp only [Option.bind_eq_bind, Option.bind_some, if_true, Option.some.injEq,
          Bool.true_eq_false, true_and, false_or]
        by_cases hmem : J.HasMembers (J.parse request.body)
        · obtain ⟨v₁, h₁, ht₁, hg₁⟩ := subscript_ok hJ.values hmem "email"
          obtain ⟨v₂, h₂, -, -⟩ := subscript_ok hJ.values (Or.inr ht₁) "email"
          obtain ⟨r₁, hr₁, hrt₁⟩ := assign_null hJ "error" (J.ofInt 0)
          obtain ⟨r₂, hr₂, hrt₂, -⟩ := assign_ok hJ.values (Or.inr hrt₁) "email" (J.get v₁ "email")
          obtain ⟨r₃, hr₃, -, -⟩ := assign_ok hJ.values (Or.inr hrt₂) "msg"
            (J.ofString (bytes "recevie email post success"))
          rw [and_iff_right hmem, h₁]
          cases htext : J.asString (J.get (J.parse request.body) "email") with
          | none => simp [htext, (hJ.values.asString_throws _).mp htext]
          | some text =>
            have hhas : J.HasText (J.get (J.parse request.body) "email") := by
              by_contra hno
              rw [(hJ.values.asString_throws _).mpr hno] at htext
              cases htext
            simp [htext, hr₁, h₂, hr₂, hr₃, hhas]
        · rw [(hJ.values.subscript_throws _ _).mpr hmem]
          simp [hmem]
  · rw [if_neg htarget]
    simp [htarget]

/-- **Which requests are answered.** -/
theorem processRequest_isSome_iff {request : Request} {time : Int} {count : Nat} :
    (processRequest J request time count).isSome ↔ request.Harmless J := by
  unfold processRequest Request.Harmless
  cases hmethod : request.method with
  | get => simp
  | post =>
    rw [forall_prop_of_true rfl, Option.isSome_map]
    exact createPostResponse_isSome_iff hJ
  | other => simp

end

/-- The response keeps the version and the connection, and says what its body is. -/
structure Extends (response created : Response) : Prop where
  version : created.version = response.version
  keepAlive : created.keepAlive = response.keepAlive
  contentType : created.contentType.isSome

theorem createResponse_extends (request : Request) (time : Int) (count : Nat)
    (response : Response) : Extends response (createResponse request time count response).1 := by
  unfold createResponse
  split_ifs <;> exact ⟨rfl, rfl, rfl⟩

theorem createPostResponse_extends {J : JsonReader} {request : Request}
    {response created : Response} (h : createPostResponse J request response = some created) :
    Extends response created := by
  unfold createPostResponse at h
  split_ifs at h
  · simp only [Option.bind_eq_bind, Option.bind_eq_some_iff, Option.pure_def] at h
    obtain ⟨success, -, h⟩ := h
    cases success with
    | false =>
      simp only [Bool.false_eq_true, if_false, Option.bind_eq_some_iff, Option.some.injEq] at h
      obtain ⟨root, -, rfl⟩ := h
      exact ⟨rfl, rfl, rfl⟩
    | true =>
      simp only [if_true, Option.bind_eq_some_iff, Option.some.injEq] at h
      obtain ⟨_, -, _, -, _, -, _, -, _, -, _, -, rfl⟩ := h
      exact ⟨rfl, rfl, rfl⟩
  · obtain rfl := Option.some.inj h
    exact ⟨rfl, rfl, rfl⟩

/-- **Every response**: the version is the request's, the connection is not kept, the body has a
type, and its length is announced. -/
theorem processRequest_spec {J : JsonReader} {request : Request} {time : Int} {count count' : Nat}
    {response : Response} (h : processRequest J request time count = some (response, count')) :
    Extends (Response.to request) response ∧
      response.contentLength = some response.body.length := by
  unfold processRequest at h
  cases hmethod : request.method with
  | get =>
    rw [hmethod] at h
    obtain ⟨rfl, -⟩ := Prod.mk.inj (Option.some.inj h)
    obtain ⟨hversion, hkeep, htype⟩ :=
      createResponse_extends request time count (Response.to request).served
    exact ⟨⟨hversion, hkeep, htype⟩, rfl⟩
  | post =>
    rw [hmethod] at h
    obtain ⟨created, hcreated, heq⟩ := Option.map_eq_some_iff.mp h
    obtain ⟨rfl, -⟩ := Prod.mk.inj heq
    obtain ⟨hversion, hkeep, htype⟩ := createPostResponse_extends hcreated
    exact ⟨⟨hversion, hkeep, htype⟩, rfl⟩
  | other =>
    rw [hmethod] at h
    obtain ⟨rfl, -⟩ := Prod.mk.inj (Option.some.inj h)
    exact ⟨⟨rfl, rfl, rfl⟩, rfl⟩

end AsioLearn.BeastHttpServer
