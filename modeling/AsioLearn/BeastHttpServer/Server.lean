import AsioLearn.BeastHttpServer.Connection
import AsioLearn.Lib.Lts

/-!
# `beastHttpServer` as an event loop (`beastHttpServer.cc`)

`main` starts one `async_accept` and runs the handlers on one thread. A step is the completion of
one operation: an accept, the read of a request, the write of a response, or the timer of a
connection. The accept handler is `http_server` again, in the branch without an error only.

* An exception that leaves a handler leaves `io_context::run`: `unwound`, and there is no next
  step. `run` returns as well when nothing is outstanding (`Sys.running`).
* What can throw, besides jsoncpp, are the overloads without an `error_code`: `_dead_time.cancel()`
  in the write handler and `_socket.close()` in the timer handler.

Results:
* `stays_up_iff`: after each event of a run the loop is running with one accept outstanding
  (`Sys.Up`) if and only if no accept completes with an error, no request has a body that makes
  jsoncpp throw, and `cancel` and `close` do not throw (`Gentle`).
* `responses_sound`: in every run a connection is not read while its response is written, and the
  response is as long as it says.
-/

namespace AsioLearn.BeastHttpServer

open Lib.Lts

/-- `http_connection`, as far as it outlives a handler: its operations that are outstanding, and
the response being written. -/
structure HttpConnection where
  reading : Bool
  writing : Option Response
  waiting : Bool
  deriving DecidableEq, Repr

/-- `http_connection::start`: `read_request` and `check_deadline`. -/
def HttpConnection.start : HttpConnection := ⟨true, none, true⟩

/-- Some operation of the connection is outstanding. -/
def HttpConnection.busy (c : HttpConnection) : Bool := c.reading || c.writing.isSome || c.waiting

/-- The server; the connections are numbered as they were accepted. -/
structure Sys where
  /-- `async_accept` operations outstanding. -/
  accepts : Nat
  conns : List HttpConnection
  /-- The counter of `request_count`. -/
  count : Nat
  /-- An exception has left `io_context::run`. -/
  unwound : Bool
  deriving DecidableEq, Repr

/-- `http_server`. -/
def Sys.httpServer (s : Sys) : Sys := { s with accepts := s.accepts + 1 }

/-- `main` up to `ioc.run()`. -/
def Sys.init : Sys := Sys.httpServer ⟨0, [], 0, false⟩

/-- `io_context::run` has neither thrown nor returned. -/
def Sys.running (s : Sys) : Bool :=
  !s.unwound && (decide (0 < s.accepts) || s.conns.any HttpConnection.busy)

/-- What completes. -/
inductive Event where
  | accepted (error : Bool)
  /-- The read of connection `k`: a request, at the time `time`, or an error. -/
  | read (k : Nat) (request : Option Request) (time : Int)
  | written (k : Nat) (error cancelThrows : Bool)
  | deadline (k : Nat) (error closeThrows : Bool)
  deriving DecidableEq, Repr

/-- The accept handler. -/
def Sys.accepted (s : Sys) (error : Bool) : Option Sys :=
  if s.accepts = 0 then none
  else
    let s := { s with accepts := s.accepts - 1 }
    if error then some s
    else some { s with conns := s.conns ++ [HttpConnection.start] }.httpServer

/-- The read handler of `c`, which is connection `k`. -/
def Sys.readDone (J : JsonReader) (s : Sys) (k : Nat) (c : HttpConnection)
    (request : Option Request) (time : Int) : Option Sys :=
  if c.reading then
    let c := { c with reading := false }
    match request with
    | none => some { s with conns := s.conns.set k c }
    | some request =>
      match processRequest J request time s.count with
      | none => some { s with conns := s.conns.set k c, unwound := true }
      | some (response, count) =>
        some { s with conns := s.conns.set k { c with writing := some response }, count }
  else none

/-- The write handler; `shutdown` reports its error. -/
def Sys.writeDone (s : Sys) (k : Nat) (c : HttpConnection) (cancelThrows : Bool) : Option Sys :=
  match c.writing with
  | none => none
  | some _ =>
    some { s with conns := s.conns.set k { c with writing := none }, unwound := cancelThrows }

/-- The timer handler; `_socket.close()` is called when the time is up. -/
def Sys.deadlineDone (s : Sys) (k : Nat) (c : HttpConnection) (error closeThrows : Bool) :
    Option Sys :=
  if c.waiting then
    some { s with conns := s.conns.set k { c with waiting := false },
                  unwound := !error && closeThrows }
  else none

/-- One completion. -/
def Sys.step (J : JsonReader) (s : Sys) (e : Event) : Option Sys :=
  if s.unwound then none
  else
    match e with
    | .accepted error => s.accepted error
    | .read k request time => s.conns[k]?.bind fun c => s.readDone J k c request time
    | .written k _ cancelThrows => s.conns[k]?.bind fun c => s.writeDone k c cancelThrows
    | .deadline k error closeThrows =>
      s.conns[k]?.bind fun c => s.deadlineDone k c error closeThrows

/-- The loop is running and one accept is outstanding. -/
def Sys.Up (s : Sys) : Prop := s.running = true ∧ s.accepts = 1

/-- The completion is no accept error, no request that makes jsoncpp throw, and raises no exception
of asio. -/
def Gentle (J : JsonReader) : Event → Prop
  | .accepted error => error = false
  | .read _ request _ => ∀ r, request = some r → r.Harmless J
  | .written _ _ cancelThrows => cancelThrows = false
  | .deadline _ error closeThrows => error = false → closeThrows = false

/-! ## One completion -/

theorem up_iff {s : Sys} : s.Up ↔ s.unwound = false ∧ s.accepts = 1 := by
  unfold Sys.Up Sys.running
  constructor
  · rintro ⟨hrun, hone⟩
    exact ⟨by simpa using (Bool.and_eq_true_iff.mp hrun).1, hone⟩
  · rintro ⟨hun, hone⟩
    rw [hun, hone]
    exact ⟨rfl, rfl⟩

variable {J : JsonReader}

/-- The accept chain goes on exactly where the accept has completed without an error. -/
theorem accepted_effect {s t : Sys} {error : Bool} (h : s.accepted error = some t) :
    t.unwound = s.unwound ∧ (t.accepts = s.accepts ↔ error = false) := by
  unfold Sys.accepted at h
  split_ifs at h with h0 herr
  · obtain rfl := Option.some.inj h
    refine ⟨rfl, ?_⟩
    rw [herr]
    exact iff_of_false (by dsimp only; omega) fun hf => (by cases hf)
  · obtain rfl := Option.some.inj h
    refine ⟨rfl, iff_of_true ?_ (by simpa using herr)⟩
    exact Nat.sub_add_cancel (Nat.pos_of_ne_zero h0)

/-- The read handler returns exactly where the request is harmless. -/
theorem readDone_effect (hJ : J.Documented) {s t : Sys} {k : Nat} {c : HttpConnection}
    {request : Option Request} {time : Int} (hun : s.unwound = false)
    (h : s.readDone J k c request time = some t) :
    t.accepts = s.accepts ∧ (t.unwound = false ↔ ∀ r, request = some r → r.Harmless J) := by
  unfold Sys.readDone at h
  split_ifs at h
  cases request with
  | none =>
    obtain rfl := Option.some.inj h
    exact ⟨rfl, iff_of_true hun fun r hr => (by cases hr)⟩
  | some r =>
    have hone : (∀ r', some r = some r' → r'.Harmless J) ↔ r.Harmless J :=
      ⟨fun hall => hall r rfl, fun hr r' hr' => Option.some.inj hr' ▸ hr⟩
    rw [hone, ← @processRequest_isSome_iff J hJ r time s.count]
    dsimp only at h
    cases hp : processRequest J r time s.count with
    | none =>
      rw [hp] at h
      obtain rfl := Option.some.inj h
      exact ⟨rfl, by simp⟩
    | some answer =>
      rw [hp] at h
      obtain rfl := Option.some.inj h
      exact ⟨rfl, by simpa using hun⟩

/-- **What a completion does to the loop and the accept chain.** -/
theorem step_effect (hJ : J.Documented) {s t : Sys} {e : Event} (h : s.step J e = some t) :
    s.unwound = false ∧ (t.unwound = false ∧ t.accepts = s.accepts ↔ Gentle J e) := by
  unfold Sys.step at h
  split_ifs at h with hun
  have hun : s.unwound = false := by simpa using hun
  refine ⟨hun, ?_⟩
  cases e with
  | accepted error =>
    obtain ⟨hsame, haccepts⟩ := accepted_effect h
    rw [hsame, and_iff_right hun]
    exact haccepts
  | read k request time =>
    obtain ⟨c, -, h⟩ := Option.bind_eq_some_iff.mp h
    obtain ⟨haccepts, hsame⟩ := readDone_effect hJ hun h
    rw [and_iff_left haccepts]
    exact hsame
  | written k error cancelThrows =>
    obtain ⟨c, -, h⟩ := Option.bind_eq_some_iff.mp h
    unfold Sys.writeDone at h
    split at h
    · cases h
    · obtain rfl := Option.some.inj h
      exact and_iff_left rfl
  | deadline k error closeThrows =>
    obtain ⟨c, -, h⟩ := Option.bind_eq_some_iff.mp h
    unfold Sys.deadlineDone at h
    split_ifs at h
    obtain rfl := Option.some.inj h
    refine (and_iff_left rfl).trans ?_
    cases error <;> simp [Gentle]

theorem step_up (hJ : J.Documented) (s : Sys) (e : Event) (t : Sys) (hs : s.Up) (hg : Gentle J e)
    (h : s.step J e = some t) : t.Up := by
  obtain ⟨hun, haccepts⟩ := (step_effect hJ h).2.mpr hg
  exact up_iff.mpr ⟨hun, haccepts.trans hs.2⟩

theorem step_down (hJ : J.Documented) (s : Sys) (e : Event) (t : Sys) (hs : s.Up)
    (hg : ¬ Gentle J e) (h : s.step J e = some t) : ¬ t.Up := by
  intro ht
  obtain ⟨hun, hone⟩ := up_iff.mp ht
  exact hg ((step_effect hJ h).2.mp ⟨hun, hone.trans hs.2.symm⟩)

theorem up_init : Sys.init.Up := ⟨rfl, rfl⟩

/-- **When the server stays up**: exactly as long as every completion is gentle. -/
theorem stays_up_iff (hJ : J.Documented) {es : List Event} {s : Sys}
    (h : run (Sys.step J) Sys.init es = some s) :
    (∀ es₁ es₂ u, es = es₁ ++ es₂ → run (Sys.step J) Sys.init es₁ = some u → u.Up) ↔
      Meets (Sys.step J) (fun _ e => Gentle J e) Sys.init es :=
  meets_iff (step_up hJ) (fun _ hs => hs) (step_down hJ) up_init h

/-- jsoncpp on the two documents of `sampleJson`. -/
def sampleReader : JsonReader where
  toJsonCpp := sampleJson
  parseSuccess document := some (decide (document = helloText ∨ document = poisonText))
  null := SampleValue.null
  ofInt := SampleValue.int

theorem sampleReader_documented : sampleReader.Documented := ⟨sampleJson_documented, rfl⟩

/-- A client asks for the time. -/
theorem stays_up_time : ∃ s, run (Sys.step sampleReader) Sys.init
      [.accepted false, .read 0 (some ⟨11, .get, "GET", "/time", []⟩) 0, .written 0 false false] =
        some s ∧
    ((∀ es₁ es₂ u,
      [.accepted false, .read 0 (some ⟨11, .get, "GET", "/time", []⟩) 0, .written 0 false false] =
        es₁ ++ es₂ → run (Sys.step sampleReader) Sys.init es₁ = some u → u.Up) ↔
      Meets (Sys.step sampleReader) (fun _ e => Gentle sampleReader e) Sys.init
        [.accepted false, .read 0 (some ⟨11, .get, "GET", "/time", []⟩) 0,
          .written 0 false false]) :=
  ⟨_, rfl, stays_up_iff sampleReader_documented rfl⟩

/-- The array `[1]` as the body of a `POST`. -/
def poisonPost : Request := ⟨11, .post, "POST", "/email", poisonText⟩

theorem poisonPost_throws (time : Int) (count : Nat) :
    processRequest sampleReader poisonPost time count = none := by
  have hnot : ¬ poisonPost.Harmless sampleReader := by
    intro hharmless
    have harray : sampleReader.parse poisonPost.body = SampleValue.array := parse_poison
    have hsuccess : sampleReader.parseSuccess poisonPost.body = some true :=
      congrArg some (decide_eq_true (Or.inr rfl))
    rcases hharmless rfl rfl with hfail | ⟨-, hmem, -⟩
    · rw [hsuccess] at hfail
      cases hfail
    · rw [harray] at hmem
      rcases hmem with h | h <;> cases h
  by_contra hne
  exact hnot ((processRequest_isSome_iff sampleReader_documented).mp
    (Option.isSome_iff_ne_none.mpr hne))

/-- One accept that fails, and one request with a body that is no object, each end the service. -/
theorem goes_down :
    (∃ s, run (Sys.step sampleReader) Sys.init [.accepted true] = some s ∧ ¬ s.Up) ∧
    ∃ s, run (Sys.step sampleReader) Sys.init
      [.accepted false, .read 0 (some poisonPost) 0] = some s ∧ ¬ s.Up := by
  constructor
  · exact ⟨_, rfl, fun h => absurd h.2 (by decide)⟩
  · refine ⟨⟨1, [⟨false, none, true⟩], 0, true⟩, ?_, fun h => absurd h.1 (by decide)⟩
    refine run_cons_eq_some.mpr ⟨⟨1, [HttpConnection.start], 0, false⟩, rfl, ?_⟩
    refine run_cons_eq_some.mpr ⟨⟨1, [⟨false, none, true⟩], 0, true⟩, ?_, rfl⟩
    simp [Sys.step, Sys.readDone, HttpConnection.start, poisonPost_throws]

/-! ## The connections -/

/-- A connection is read or answered, not both, and its response is as long as it says. -/
structure HttpConnection.Sound (c : HttpConnection) : Prop where
  turns : c.reading = true → c.writing = none
  length : ∀ response, c.writing = some response →
    response.contentLength = some response.body.length ∧ response.keepAlive = false

theorem mem_set {α : Type} {P : α → Prop} {l : List α} {k : Nat} {a : α} (hl : ∀ x ∈ l, P x)
    (ha : P a) : ∀ x ∈ l.set k a, P x := by
  intro x hx
  rcases List.mem_or_eq_of_mem_set hx with hx | rfl
  · exact hl x hx
  · exact ha

theorem step_sound (s : Sys) (e : Event) (t : Sys) (hs : ∀ c ∈ s.conns, c.Sound)
    (h : s.step J e = some t) : ∀ c ∈ t.conns, c.Sound := by
  unfold Sys.step at h
  split_ifs at h
  cases e with
  | accepted error =>
    change s.accepted error = some t at h
    unfold Sys.accepted at h
    split_ifs at h
    · obtain rfl := Option.some.inj h
      exact hs
    · obtain rfl := Option.some.inj h
      refine List.forall_mem_append.mpr ⟨hs, List.forall_mem_singleton.mpr ⟨fun _ => rfl, ?_⟩⟩
      intro response hr
      cases hr
  | read k request time =>
    obtain ⟨c, hc, h⟩ := Option.bind_eq_some_iff.mp h
    have hsound := hs c (List.mem_of_getElem? hc)
    unfold Sys.readDone at h
    split_ifs at h with hreading
    have hidle : HttpConnection.Sound { c with reading := false } :=
      ⟨fun hf => (by cases hf), hsound.length⟩
    split at h
    · obtain rfl := Option.some.inj h
      exact mem_set hs hidle
    · split at h
      · obtain rfl := Option.some.inj h
        exact mem_set hs hidle
      · rename_i response count hp
        obtain rfl := Option.some.inj h
        refine mem_set hs ⟨fun hf => (by cases hf), ?_⟩
        intro response' hr
        obtain rfl := Option.some.inj hr
        obtain ⟨hext, hlen⟩ := processRequest_spec hp
        exact ⟨hlen, hext.keepAlive⟩
  | written k error cancelThrows =>
    obtain ⟨c, hc, h⟩ := Option.bind_eq_some_iff.mp h
    unfold Sys.writeDone at h
    split at h
    · cases h
    · obtain rfl := Option.some.inj h
      refine mem_set hs ⟨fun _ => rfl, ?_⟩
      intro response hr
      cases hr
  | deadline k error closeThrows =>
    obtain ⟨c, hc, h⟩ := Option.bind_eq_some_iff.mp h
    have hsound := hs c (List.mem_of_getElem? hc)
    unfold Sys.deadlineDone at h
    split_ifs at h
    obtain rfl := Option.some.inj h
    exact mem_set hs ⟨hsound.turns, hsound.length⟩

/-- **What is written in any run is as long as it says**, and no connection is read meanwhile. -/
theorem responses_sound {es : List Event} {s : Sys} (h : run (Sys.step J) Sys.init es = some s) :
    ∀ c ∈ s.conns, c.Sound := by
  refine run_invariant step_sound ?_ h
  intro c hc
  cases hc

end AsioLearn.BeastHttpServer
