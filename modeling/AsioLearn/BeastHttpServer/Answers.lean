import AsioLearn.BeastHttpServer.Server
import AsioLearn.Lib.Ranking

/-!
# What the clients of `beastHttpServer` get (`beastHttpServer.cc`)

`request_count` is one counter for all connections, and a connection is read once, answered once and
timed once, whatever the others do meanwhile.

Results:
* `step_moves`: what each completion does.
* `count_eq`: the counter is the number of requests for `/count` that were read.
* `completions_le`: a connection takes at most three completions, no two of a kind.
* **`answers_numbered`**: in every run a connection is read once and written once at most; what is
  written is what `process_request` makes of its request, and the `i`-th request for `/count` that
  the server reads gets the page that says `i`.
* **`email_answered`**: a `POST` to `/email` in any run is answered exactly if jsoncpp can read it,
  with the member `email` of the body, or with the error if the body is no JSON.
-/

namespace AsioLearn.BeastHttpServer

open Cpp Lib.Lts

variable {J : JsonReader}

/-! ## What a completion does -/

/-- What each completion does, where it can happen. -/
inductive Moves (J : JsonReader) (s : Sys) : Event → Sys → Prop
  | refused (h : 0 < s.accepts) : Moves J s (.accepted true) { s with accepts := s.accepts - 1 }
  | accepted (h : 0 < s.accepts) : Moves J s (.accepted false)
      { s with conns := s.conns ++ [HttpConnection.start] }
  | readError (k : Nat) (time : Int) (c : HttpConnection) (hc : s.conns[k]? = some c)
      (hreading : c.reading = true) : Moves J s (.read k none time)
      { s with conns := s.conns.set k { c with reading := false } }
  | throws (k : Nat) (request : Request) (time : Int) (c : HttpConnection)
      (hc : s.conns[k]? = some c) (hreading : c.reading = true)
      (hp : processRequest J request time s.count = none) : Moves J s (.read k (some request) time)
      { s with conns := s.conns.set k { c with reading := false }, unwound := true }
  | answers (k : Nat) (request : Request) (time : Int) (c : HttpConnection)
      (hc : s.conns[k]? = some c) (hreading : c.reading = true) (response : Response) (count : Nat)
      (hp : processRequest J request time s.count = some (response, count)) :
      Moves J s (.read k (some request) time)
      { s with conns := s.conns.set k { c with reading := false, writing := some response }, count }
  | written (k : Nat) (error cancelThrows : Bool) (c : HttpConnection)
      (hc : s.conns[k]? = some c) (hwriting : c.writing.isSome) :
      Moves J s (.written k error cancelThrows)
      { s with conns := s.conns.set k { c with writing := none }, unwound := cancelThrows }
  | deadline (k : Nat) (error closeThrows : Bool) (c : HttpConnection)
      (hc : s.conns[k]? = some c) (hwaiting : c.waiting = true) :
      Moves J s (.deadline k error closeThrows)
      { s with conns := s.conns.set k { c with waiting := false },
               unwound := !error && closeThrows }

theorem step_moves {s t : Sys} {e : Event} (h : s.step J e = some t) : Moves J s e t := by
  unfold Sys.step at h
  split_ifs at h
  cases e with
  | accepted error =>
    change s.accepted error = some t at h
    unfold Sys.accepted at h
    split_ifs at h with h0 herr
    · obtain rfl := Option.some.inj h
      rw [herr]
      exact .refused (Nat.pos_of_ne_zero h0)
    · obtain rfl := Option.some.inj h
      have hpos := Nat.pos_of_ne_zero h0
      have hmove := @Moves.accepted J s hpos
      rw [Bool.not_eq_true] at herr
      rw [herr]
      simpa only [Sys.httpServer, Nat.sub_add_cancel hpos] using hmove
  | read k request time =>
    obtain ⟨c, hc, h⟩ := Option.bind_eq_some_iff.mp h
    unfold Sys.readDone at h
    split_ifs at h with hreading
    split at h
    · obtain rfl := Option.some.inj h
      exact .readError k time c hc hreading
    · split at h
      · rename_i hp
        obtain rfl := Option.some.inj h
        exact .throws k _ time c hc hreading hp
      · rename_i response count hp
        obtain rfl := Option.some.inj h
        exact .answers k _ time c hc hreading response count hp
  | written k error cancelThrows =>
    obtain ⟨c, hc, h⟩ := Option.bind_eq_some_iff.mp h
    unfold Sys.writeDone at h
    split at h
    · cases h
    · rename_i response hw
      obtain rfl := Option.some.inj h
      exact .written k error cancelThrows c hc (by rw [hw]; rfl)
  | deadline k error closeThrows =>
    obtain ⟨c, hc, h⟩ := Option.bind_eq_some_iff.mp h
    unfold Sys.deadlineDone at h
    split_ifs at h with hwaiting
    obtain rfl := Option.some.inj h
    exact .deadline k error closeThrows c hc hwaiting

/-! ## One connection -/

/-- Connection `k`, as it is or as it will start. -/
def Sys.conn (s : Sys) (k : Nat) : HttpConnection := s.conns[k]?.getD HttpConnection.start

/-- The read of connection `k` completes. -/
def Event.isRead (k : Nat) : Event → Bool
  | .read j _ _ => j == k
  | _ => false

def Event.isWritten (k : Nat) : Event → Bool
  | .written j _ _ => j == k
  | _ => false

def Event.isDeadline (k : Nat) : Event → Bool
  | .deadline j _ _ => j == k
  | _ => false

/-- The reads, writes and timers of a connection that are to complete. -/
def HttpConnection.reads (c : HttpConnection) : Nat := c.reading.toNat

def HttpConnection.writes (c : HttpConnection) : Nat := c.reading.toNat + c.writing.isSome.toNat

def HttpConnection.waits (c : HttpConnection) : Nat := c.waiting.toNat

theorem conn_of_getElem? {s : Sys} {k : Nat} {c : HttpConnection} (h : s.conns[k]? = some c) :
    s.conn k = c := by
  rw [Sys.conn, h, Option.getD_some]

/-- The state of a connection is replaced. -/
theorem conn_set {s t : Sys} {j : Nat} {c c' : HttpConnection} (hc : s.conns[j]? = some c)
    (ht : t.conns = s.conns.set j c') (k : Nat) : t.conn k = if j = k then c' else s.conn k := by
  obtain ⟨hlt, -⟩ := List.getElem?_eq_some_iff.mp hc
  unfold Sys.conn
  rw [ht]
  split_ifs with hk
  · rw [← hk, List.getElem?_set_self hlt, Option.getD_some]
  · rw [List.getElem?_set_ne hk]

/-- A new connection starts. -/
theorem conn_append {s t : Sys} (ht : t.conns = s.conns ++ [HttpConnection.start]) (k : Nat) :
    t.conn k = s.conn k := by
  unfold Sys.conn
  rw [ht]
  by_cases hlt : k < s.conns.length
  · rw [List.getElem?_append_left hlt]
  · have hge : s.conns.length ≤ k := Nat.le_of_not_lt hlt
    rw [List.getElem?_append_right hge, List.getElem?_eq_none hge]
    cases k - s.conns.length <;> rfl

/-- What an event takes from connection `k`, which is `c` before and `c'` after it. -/
structure Takes (e : Event) (k : Nat) (c c' : HttpConnection) : Prop where
  reads : (e.isRead k).toNat + c'.reads ≤ c.reads
  writes : (e.isWritten k).toNat + c'.writes ≤ c.writes
  waits : (e.isDeadline k).toNat + c'.waits ≤ c.waits

/-- An event that is not about the connection. -/
structure Event.Elsewhere (e : Event) (k : Nat) : Prop where
  read : e.isRead k = false
  written : e.isWritten k = false
  deadline : e.isDeadline k = false

theorem Takes.nothing {e : Event} {k : Nat} (he : e.Elsewhere k) (c : HttpConnection) :
    Takes e k c c where
  reads := by rw [he.read, Bool.toNat_false, Nat.zero_add]
  writes := by rw [he.written, Bool.toNat_false, Nat.zero_add]
  waits := by rw [he.deadline, Bool.toNat_false, Nat.zero_add]

theorem Takes.set {s t : Sys} {e : Event} {j : Nat} {c c' : HttpConnection}
    (hc : s.conns[j]? = some c) (ht : t.conns = s.conns.set j c') (hown : Takes e j c c')
    (hother : ∀ k, j ≠ k → e.Elsewhere k) (k : Nat) : Takes e k (s.conn k) (t.conn k) := by
  rw [conn_set hc ht k]
  split_ifs with hk
  · rw [← hk, conn_of_getElem? hc]
    exact hown
  · exact .nothing (hother k hk) _

/-- **What a completion takes from each connection.** -/
theorem step_takes {s t : Sys} {e : Event} (h : s.step J e = some t) (k : Nat) :
    Takes e k (s.conn k) (t.conn k) := by
  cases step_moves h with
  | refused hpos => exact .nothing ⟨rfl, rfl, rfl⟩ _
  | accepted hpos =>
    have hconn : Sys.conn { s with conns := s.conns ++ [HttpConnection.start] } k = s.conn k :=
      conn_append rfl k
    rw [hconn]
    exact .nothing ⟨rfl, rfl, rfl⟩ _
  | readError j time c hc hreading =>
    refine .set hc rfl ⟨?_, ?_, ?_⟩ (by exact fun k hk => ⟨beq_false_of_ne hk, rfl, rfl⟩) k
    all_goals simp [Event.isRead, Event.isWritten, Event.isDeadline, HttpConnection.reads,
      HttpConnection.writes, HttpConnection.waits, hreading]
  | throws j request time c hc hreading hp =>
    refine .set hc rfl ⟨?_, ?_, ?_⟩ (by exact fun k hk => ⟨beq_false_of_ne hk, rfl, rfl⟩) k
    all_goals simp [Event.isRead, Event.isWritten, Event.isDeadline, HttpConnection.reads,
      HttpConnection.writes, HttpConnection.waits, hreading]
  | answers j request time c hc hreading response count hp =>
    refine .set hc rfl ⟨?_, ?_, ?_⟩ (by exact fun k hk => ⟨beq_false_of_ne hk, rfl, rfl⟩) k
    all_goals simp [Event.isRead, Event.isWritten, Event.isDeadline, HttpConnection.reads,
      HttpConnection.writes, HttpConnection.waits, hreading]
  | written j error cancelThrows c hc hwriting =>
    refine .set hc rfl ⟨?_, ?_, ?_⟩ (by exact fun k hk => ⟨rfl, beq_false_of_ne hk, rfl⟩) k
    all_goals simp [Event.isRead, Event.isWritten, Event.isDeadline, HttpConnection.reads,
      HttpConnection.writes, HttpConnection.waits, hwriting, Nat.add_comm]
  | deadline j error closeThrows c hc hwaiting =>
    refine .set hc rfl ⟨?_, ?_, ?_⟩ (by exact fun k hk => ⟨rfl, rfl, beq_false_of_ne hk⟩) k
    all_goals simp [Event.isRead, Event.isWritten, Event.isDeadline, HttpConnection.reads,
      HttpConnection.writes, HttpConnection.waits, hwaiting]

/-- **A connection takes at most three completions**, no two of a kind. -/
theorem completions_le {s t : Sys} {es : List Event} (h : run (Sys.step J) s es = some t)
    (k : Nat) :
    es.countP (Event.isRead k) + (t.conn k).reads ≤ (s.conn k).reads ∧
      es.countP (Event.isWritten k) + (t.conn k).writes ≤ (s.conn k).writes ∧
      es.countP (Event.isDeadline k) + (t.conn k).waits ≤ (s.conn k).waits :=
  ⟨run_countP_le (Event.isRead k) (fun s => (s.conn k).reads)
      (fun _ _ _ h => (step_takes h k).reads) h,
    run_countP_le (Event.isWritten k) (fun s => (s.conn k).writes)
      (fun _ _ _ h => (step_takes h k).writes) h,
    run_countP_le (Event.isDeadline k) (fun s => (s.conn k).waits)
      (fun _ _ _ h => (step_takes h k).waits) h⟩

/-- What is being written stays until the write completes. -/
theorem step_writing {s t : Sys} {e : Event} {k : Nat} (hreading : (s.conn k).reading = false)
    (he : e.isWritten k = false) (h : s.step J e = some t) :
    (t.conn k).reading = false ∧ (t.conn k).writing = (s.conn k).writing := by
  have hset {t : Sys} {j : Nat} {c c' : HttpConnection} (hc : s.conns[j]? = some c)
      (ht : t.conns = s.conns.set j c')
      (hown : j = k → c'.reading = false ∧ c'.writing = c.writing) :
      (t.conn k).reading = false ∧ (t.conn k).writing = (s.conn k).writing := by
    rw [conn_set hc ht k]
    split_ifs with hk
    · rw [← hk, conn_of_getElem? hc]
      exact hown hk
    · exact ⟨hreading, rfl⟩
  have hown {j : Nat} {c : HttpConnection} (hc : s.conns[j]? = some c) (hk : j = k) :
      c.reading = false := by
    rw [← hk, conn_of_getElem? hc] at hreading
    exact hreading
  cases step_moves h with
  | refused hpos => exact ⟨hreading, rfl⟩
  | accepted hpos =>
    have hconn : Sys.conn { s with conns := s.conns ++ [HttpConnection.start] } k = s.conn k :=
      conn_append rfl k
    rw [hconn]
    exact ⟨hreading, rfl⟩
  | readError j time c hc hread =>
    exact hset hc rfl fun hk => absurd (hown hc hk) (by simp [hread])
  | throws j request time c hc hread hp =>
    exact hset hc rfl fun hk => absurd (hown hc hk) (by simp [hread])
  | answers j request time c hc hread response count hp =>
    exact hset hc rfl fun hk => absurd (hown hc hk) (by simp [hread])
  | written j error cancelThrows c hc hwriting =>
    exact hset hc rfl fun hk => absurd he (by simp [Event.isWritten, hk])
  | deadline j error closeThrows c hc hwaiting =>
    exact hset (c := c) hc rfl fun hk => ⟨hown (c := c) hc hk, rfl⟩

/-! ## The counter -/

/-- A request for `/count`. -/
def Request.counts (request : Request) : Prop := request.method = .get ∧ request.target = "/count"

instance (request : Request) : Decidable request.counts := inferInstanceAs (Decidable (_ ∧ _))

def Event.counts : Event → Bool
  | .read _ (some request) _ => decide request.counts
  | _ => false

/-- The page of `/count`. -/
def countPage (count : Nat) : List UInt8 :=
  bytes ("<html>\n" ++ "<head><title>Request count</title></head>\n" ++ "<body>\n" ++
    "<h1>Request count</h1>\n" ++ "<p>There have been " ++ toString count ++
    " requests so far.</p>\n" ++ "</body>\n" ++ "</html>\n")

theorem processRequest_counts {request : Request} (hr : request.counts) (time : Int) (count : Nat) :
    ∃ response, processRequest J request time count = some (response, requestCount count) ∧
      response.result = .ok ∧ response.body = countPage (requestCount count) := by
  unfold processRequest
  rw [hr.1]
  dsimp only
  unfold createResponse
  rw [if_pos hr.2]
  exact ⟨_, rfl, rfl, List.nil_append _⟩

/-- No other request touches the counter. -/
theorem processRequest_count {request : Request} (hr : ¬ request.counts) {time : Int} {count : Nat}
    {response : Response} {count' : Nat}
    (h : processRequest J request time count = some (response, count')) : count' = count := by
  unfold processRequest at h
  split at h
  · rename_i hmethod
    obtain ⟨-, rfl⟩ := Prod.mk.inj (Option.some.inj h)
    unfold createResponse
    rw [if_neg fun htarget => hr ⟨hmethod, htarget⟩]
    split_ifs <;> rfl
  · obtain ⟨created, -, heq⟩ := Option.map_eq_some_iff.mp h
    exact (Prod.mk.inj heq).2.symm
  · exact (Prod.mk.inj (Option.some.inj h)).2.symm

theorem step_count {s t : Sys} {e : Event} (h : s.step J e = some t) :
    t.count = if e.counts then requestCount s.count else s.count := by
  cases step_moves h with
  | refused hpos => rfl
  | accepted hpos => rfl
  | readError j time c hc hread => rfl
  | throws j request time c hc hread hp =>
    have hr : ¬ request.counts := fun hr => by
      obtain ⟨response, hanswer, -⟩ := processRequest_counts (J := J) hr time s.count
      rw [hp] at hanswer
      cases hanswer
    simp [Event.counts, hr]
  | answers j request time c hc hread response count hp =>
    by_cases hr : request.counts
    · obtain ⟨response', hanswer, -⟩ := processRequest_counts (J := J) hr time s.count
      obtain ⟨-, rfl⟩ := Prod.mk.inj (Option.some.inj (hp.symm.trans hanswer))
      simp [Event.counts, hr]
    · simp [Event.counts, hr, processRequest_count hr hp]
  | written j error cancelThrows c hc hwriting => rfl
  | deadline j error closeThrows c hc hwaiting => rfl

/-- **The counter is the number of requests for `/count`** that were read. -/
theorem count_eq {s t : Sys} {es : List Event} {a : Nat} (hs : s.count = a % 2 ^ 64)
    (h : run (Sys.step J) s es = some t) : t.count = (a + es.countP Event.counts) % 2 ^ 64 := by
  induction es generalizing s a with
  | nil =>
    obtain rfl := Option.some.inj h
    exact hs
  | cons e es ih =>
    obtain ⟨u, h1, h2⟩ := run_cons_eq_some.mp h
    have hcount := step_count h1
    rw [List.countP_cons]
    cases he : e.counts with
    | false =>
      rw [he, if_neg Bool.false_ne_true] at hcount
      simpa using ih (hcount.trans hs) h2
    | true =>
      rw [he, if_pos rfl, hs] at hcount
      have hu : u.count = (a + 1) % 2 ^ 64 := by
        rw [hcount, requestCount, sizeAdd]
        omega
      rw [ih hu h2]
      simp only [if_true]
      omega

/-! ## Every run -/

theorem init_conn (k : Nat) : Sys.init.conn k = HttpConnection.start := rfl

/-- A connection that is read is not written meanwhile. -/
theorem writing_of_reading {es : List Event} {s : Sys} {k : Nat}
    (h : run (Sys.step J) Sys.init es = some s) (hreading : (s.conn k).reading = true) :
    (s.conn k).writing = none ∧ es.countP (Event.isRead k) = 0 ∧
      es.countP (Event.isWritten k) = 0 := by
  obtain ⟨hreads, hwrites, -⟩ := completions_le h k
  rw [init_conn] at hreads hwrites
  simp only [HttpConnection.reads, HttpConnection.writes, HttpConnection.start, hreading,
    Bool.toNat_true, Option.isSome_none, Bool.toNat_false] at hreads hwrites
  refine ⟨?_, by omega, by omega⟩
  cases hw : (s.conn k).writing with
  | none => rfl
  | some response =>
    rw [hw, Option.isSome_some, Bool.toNat_true] at hwrites
    omega

/-- What the read of a request leads to. -/
theorem step_read {s t : Sys} {k : Nat} {request : Request} {time : Int}
    (h : s.step J (.read k (some request) time) = some t) :
    (s.conn k).reading = true ∧ (t.conn k).reading = false ∧
      ((s.conn k).writing = none →
        (t.conn k).writing = (processRequest J request time s.count).map Prod.fst) := by
  cases step_moves h with
  | throws k request time c hc hreading hp =>
    have hconn := conn_set hc (t := { s with
      conns := s.conns.set k { c with reading := false }, unwound := true }) rfl k
    rw [hconn, if_pos rfl, conn_of_getElem? hc, hp]
    exact ⟨hreading, rfl, fun hnone => hnone⟩
  | answers k request time c hc hreading response count hp =>
    have hconn := conn_set hc (t := { s with
      conns := s.conns.set k { c with reading := false, writing := some response }, count }) rfl k
    rw [hconn, if_pos rfl, conn_of_getElem? hc, hp]
    exact ⟨hreading, rfl, fun _ => rfl⟩

/-- The state in which a request has just been read. -/
structure Answered (J : JsonReader) (es : List Event) (k : Nat) (request : Request) (time : Int)
    (fs : List Event) (u s : Sys) : Prop where
  before : run (Sys.step J) Sys.init (es ++ [.read k (some request) time]) = some u
  after : run (Sys.step J) u fs = some s
  read : (u.conn k).reading = false
  writing : (u.conn k).writing =
    (processRequest J request time (es.countP Event.counts % 2 ^ 64)).map Prod.fst
  notRead : es.countP (Event.isRead k) = 0
  notWritten : es.countP (Event.isWritten k) = 0

theorem exists_answered {es fs : List Event} {k : Nat} {request : Request} {time : Int} {s : Sys}
    (h : run (Sys.step J) Sys.init (es ++ .read k (some request) time :: fs) = some s) :
    ∃ u, Answered J es k request time fs u s := by
  rw [run_append] at h
  obtain ⟨v, hv, h⟩ := Option.bind_eq_some_iff.mp h
  obtain ⟨u, hu, hs⟩ := run_cons_eq_some.mp h
  obtain ⟨hreading, hread, hwriting⟩ := step_read hu
  obtain ⟨hnone, hreads, hwrites⟩ := writing_of_reading hv hreading
  have hcount : v.count = es.countP Event.counts % 2 ^ 64 := by
    simpa using count_eq (a := 0) rfl hv
  have hanswer := hwriting hnone
  rw [hcount] at hanswer
  exact ⟨u, run_snoc hv hu, hs, hread, hanswer, hreads, hwrites⟩

/-- **Every request that is read is the only one of its connection and is answered once**, with what
`process_request` makes of it; the `i`-th request for `/count` gets the page that says `i`. -/
theorem answers_numbered {es fs : List Event} {k : Nat} {request : Request} {time : Int} {s : Sys}
    (h : run (Sys.step J) Sys.init (es ++ .read k (some request) time :: fs) = some s) :
    (es ++ fs).countP (Event.isRead k) = 0 ∧ es.countP (Event.isWritten k) = 0 ∧
      fs.countP (Event.isWritten k) ≤ 1 ∧
      ∃ u, run (Sys.step J) Sys.init (es ++ [.read k (some request) time]) = some u ∧
        (u.conn k).writing =
          (processRequest J request time (es.countP Event.counts % 2 ^ 64)).map Prod.fst ∧
        (request.counts → ∃ response, (u.conn k).writing = some response ∧
          response.result = .ok ∧
          response.body = countPage ((es.countP Event.counts + 1) % 2 ^ 64)) ∧
        (fs.countP (Event.isWritten k) = 0 → (s.conn k).writing = (u.conn k).writing) := by
  obtain ⟨u, hu⟩ := exists_answered h
  obtain ⟨hlater, hwritten, -⟩ := completions_le hu.after k
  refine ⟨?_, hu.notWritten, ?_, u, hu.before, hu.writing, ?_, ?_⟩
  · have hzero : (u.conn k).reads = 0 := by
      rw [HttpConnection.reads, hu.read, Bool.toNat_false]
    rw [List.countP_append, hu.notRead]
    omega
  · have hle : (u.conn k).writes ≤ 1 := by
      rw [HttpConnection.writes, hu.read, Bool.toNat_false, Nat.zero_add]
      exact Bool.toNat_le _
    omega
  · intro hr
    obtain ⟨response, hresponse, hok, hbody⟩ :=
      processRequest_counts (J := J) hr time (es.countP Event.counts % 2 ^ 64)
    have hnext : requestCount (es.countP Event.counts % 2 ^ 64) =
        (es.countP Event.counts + 1) % 2 ^ 64 := by
      rw [requestCount, sizeAdd]
      omega
    have hanswer := hu.writing
    rw [hresponse] at hanswer
    exact ⟨response, hanswer, hok, by rw [hbody, hnext]⟩
  · intro hzero
    have hnot : ∀ e ∈ fs, e.isWritten k = false := by
      intro e he
      simpa using List.countP_eq_zero.mp hzero e he
    exact (run_invariant_of_meets
      (I := fun t : Sys => (t.conn k).reading = false ∧ (t.conn k).writing = (u.conn k).writing)
      (C := fun _ e => e.isWritten k = false)
      (fun _ _ _ hI he h => (step_writing hI.1 he h).imp id fun hw => hw.trans hI.2)
      ⟨hu.read, rfl⟩ (meets_of_forall hnot) hu.after).2

/-- Two clients ask for the count while a third is being answered. -/
theorem answers_numbered_two : ∃ s, run (Sys.step sampleReader) Sys.init
      ([.accepted false, .accepted false, .read 1 (some ⟨11, .get, "GET", "/count", []⟩) 0,
        .accepted false, .read 2 (some ⟨11, .get, "GET", "/time", []⟩) 0] ++
      .read 0 (some ⟨11, .get, "GET", "/count", []⟩) 0 :: [.written 1 false false]) = some s ∧
    ∃ response, (s.conn 0).writing = some response ∧ response.body = countPage 2 := by
  refine ⟨_, rfl, ?_⟩
  obtain ⟨-, -, -, u, -, -, hpage, hkept⟩ := @answers_numbered sampleReader
    [.accepted false, .accepted false, .read 1 (some ⟨11, .get, "GET", "/count", []⟩) 0,
      .accepted false, .read 2 (some ⟨11, .get, "GET", "/time", []⟩) 0]
    [.written 1 false false] 0 ⟨11, .get, "GET", "/count", []⟩ 0 _ rfl
  obtain ⟨response, hresponse, -, hbody⟩ := hpage ⟨rfl, rfl⟩
  exact ⟨response, (hkept rfl).trans hresponse, hbody⟩

/-! ## `/email` -/

/-- The document that answers a `POST` to `/email`. -/
structure EmailReply (J : JsonReader) (body : List UInt8) (root : J.Value) : Prop where
  object : J.type root = .objectValue
  refused : J.parseSuccess body = some false → J.get root "error" = J.ofInt 1001
  taken : J.parseSuccess body = some true →
    J.get root "error" = J.ofInt 0 ∧ J.get root "email" = J.get (J.parse body) "email" ∧
      J.get root "msg" = J.ofString (bytes "recevie email post success")

section

variable (hJ : J.Documented)

include hJ

/-- One more member of a document. -/
theorem assign_member {v : J.Value} (hv : J.HasMembers v) (key : String) (x : J.Value) :
    ∃ v', J.assign v key x = some v' ∧ J.type v' = .objectValue ∧ J.get v' key = x ∧
      ∀ key', key' ≠ key → J.get v' key' = J.get v key' := by
  obtain ⟨v', hv', htype, hother⟩ := assign_ok hJ.values hv key x
  exact ⟨v', hv', htype, (hJ.values.assign_get v key x v' hv').1, hother⟩

theorem createPostResponse_email {request : Request} (htarget : request.target = "/email")
    (hread : EmailReadable J request.body) (response : Response) :
    ∃ root, EmailReply J request.body root ∧ createPostResponse J request response =
      some ({ response with contentType := some "text/json" }.write (J.toStyledString root)) := by
  unfold createPostResponse
  rw [if_pos htarget]
  rcases hread with hfail | ⟨hsuccess, hmem, htext⟩
  · obtain ⟨root, hroot, htype, herror, -⟩ :=
      assign_member hJ (Or.inl hJ.null_type) "error" (J.ofInt 1001)
    refine ⟨root, ⟨htype, fun _ => herror, fun h => ?_⟩, ?_⟩
    · rw [hfail] at h
      cases h
    · simp [hfail, hroot]
  · obtain ⟨v₁, h₁, ht₁, hg₁⟩ := subscript_ok hJ.values hmem "email"
    obtain ⟨text, htext⟩ := asString_ok hJ.values htext
    obtain ⟨v₂, h₂, -, -⟩ := subscript_ok hJ.values (Or.inr ht₁) "email"
    obtain ⟨r₁, hr₁, hrt₁, herror, -⟩ :=
      assign_member hJ (Or.inl hJ.null_type) "error" (J.ofInt 0)
    obtain ⟨r₂, hr₂, hrt₂, hemail, hkeep₂⟩ :=
      assign_member hJ (Or.inr hrt₁) "email" (J.get v₁ "email")
    obtain ⟨r₃, hr₃, hrt₃, hmsg, hkeep₃⟩ := assign_member hJ (Or.inr hrt₂) "msg"
      (J.ofString (bytes "recevie email post success"))
    refine ⟨r₃, ⟨hrt₃, fun h => ?_, fun _ => ⟨?_, ?_, hmsg⟩⟩, ?_⟩
    · rw [hsuccess] at h
      cases h
    · rw [hkeep₃ "error" (by decide), hkeep₂ "error" (by decide), herror]
    · rw [hkeep₃ "email" (by decide), hemail, hg₁]
    · simp [hsuccess, h₁, htext, h₂, hr₁, hr₂, hr₃]

/-- **A `POST` to `/email` in any run** is answered exactly if jsoncpp can read it, with what it
brought. -/
theorem email_answered {es fs : List Event} {k : Nat} {request : Request} {time : Int} {s : Sys}
    (hmethod : request.method = .post) (htarget : request.target = "/email")
    (h : run (Sys.step J) Sys.init (es ++ .read k (some request) time :: fs) = some s) :
    ∃ u, run (Sys.step J) Sys.init (es ++ [.read k (some request) time]) = some u ∧
      ((u.conn k).writing.isSome ↔ EmailReadable J request.body) ∧
      ∀ response, (u.conn k).writing = some response →
        response.result = .ok ∧ response.contentLength = some response.body.length ∧
          ∃ root, EmailReply J request.body root ∧ response.body = J.toStyledString root := by
  obtain ⟨u, hu⟩ := exists_answered h
  have hharmless : request.Harmless J ↔ EmailReadable J request.body :=
    ⟨fun h => h hmethod htarget, fun h _ _ => h⟩
  have hsome : (u.conn k).writing.isSome ↔ EmailReadable J request.body := by
    rw [hu.writing, Option.isSome_map, processRequest_isSome_iff hJ, hharmless]
  refine ⟨u, hu.before, hsome, ?_⟩
  intro response hresponse
  have hread := hsome.mp (hresponse ▸ rfl)
  obtain ⟨root, hroot, hcreated⟩ :=
    createPostResponse_email hJ htarget hread (Response.to request).served
  have hanswer := hu.writing
  simp only [hresponse, processRequest, hmethod, hcreated, Option.map_some] at hanswer
  obtain rfl := Option.some.inj hanswer
  exact ⟨rfl, rfl, root, hroot, List.nil_append _⟩

end

/-- The body `{"email":"a@b"}`. -/
def emailText : List UInt8 := "\x7b\"email\":\"a@b\"\x7d".toUTF8.toList

/-- jsoncpp on this document and on the reply to it. -/
def emailReader : JsonReader where
  toJsonCpp := { sampleJson with
    parse := fun document =>
      if document = emailText then
        .object fun key => if key = "email" then .string "a@b".toUTF8.toList else .null
      else .null
    toStyledString := fun v =>
      "\x7b\n   \"email\" : ".toUTF8.toList ++ (v.member "email").text ++
        ",\n   \"error\" : ".toUTF8.toList ++ (v.member "error").text ++
        ",\n   \"msg\" : ".toUTF8.toList ++ (v.member "msg").text ++ "\n\x7d\n".toUTF8.toList }
  parseSuccess document := some (decide (document = emailText))
  null := SampleValue.null
  ofInt := SampleValue.int

theorem emailReader_documented : emailReader.Documented where
  values :=
    { subscript_throws := sampleJson_documented.subscript_throws
      subscript_type := sampleJson_documented.subscript_type
      subscript_get := sampleJson_documented.subscript_get
      assign_throws := sampleJson_documented.assign_throws
      assign_type := sampleJson_documented.assign_type
      assign_get := sampleJson_documented.assign_get
      asInt_throws := sampleJson_documented.asInt_throws
      asString_throws := sampleJson_documented.asString_throws }
  null_type := rfl

theorem parse_email : emailReader.parse emailText =
    SampleValue.object fun key =>
      if key = "email" then .string "a@b".toUTF8.toList else .null :=
  if_pos rfl

theorem emailText_readable : EmailReadable emailReader emailText := by
  refine .inr ⟨congrArg some (decide_eq_true rfl), ?_, ?_⟩
  · rw [parse_email]
    exact .inr rfl
  · rw [parse_email]
    exact ⟨by decide, by decide⟩

/-- The address comes back. -/
theorem email_answered_sample : ∃ u response root, run (Sys.step emailReader) Sys.init
      ([.accepted false] ++ [.read 0 (some ⟨11, .post, "POST", "/email", emailText⟩) 0]) = some u ∧
    (u.conn 0).writing = some response ∧ response.body = emailReader.toStyledString root ∧
    emailReader.get root "email" = SampleValue.string "a@b".toUTF8.toList := by
  have hrun : ∃ s, run (Sys.step emailReader) Sys.init
      ([.accepted false] ++ .read 0 (some ⟨11, .post, "POST", "/email", emailText⟩) 0 :: []) =
        some s := Option.isSome_iff_exists.mp (by decide +kernel)
  obtain ⟨s, hs⟩ := hrun
  obtain ⟨u, hu, hsome, hresponse⟩ := email_answered emailReader_documented rfl rfl hs
  obtain ⟨response, hwriting⟩ := Option.isSome_iff_exists.mp (hsome.mpr emailText_readable)
  obtain ⟨-, -, root, hroot, hbody⟩ := hresponse response hwriting
  refine ⟨u, response, root, hu, hwriting, hbody, ?_⟩
  rw [(hroot.taken (congrArg some (decide_eq_true rfl))).2.1, parse_email]
  rfl

end AsioLearn.BeastHttpServer
