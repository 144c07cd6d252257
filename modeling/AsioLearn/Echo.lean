import AsioLearn.Lib.Ranking

/-!
# The echo programs (`coExample/`, `webSocket/websocket_server_coro.cc`, `websocket_client_coro.cc`)

A client writes a request and reads as much as it has written; a session of the server writes back
what each of its reads has brought. Each of them waits for its write before it goes on to read.

* Between them a connection takes up to so many units in each direction that have been written and
  not yet read. A unit is a byte in `coExample`; in `webSocket` it is a message, since Beast reads
  and writes whole ones.
* A write takes its units in any portions, and a read returns with any number of those that are
  there, up to what the caller has room for. The connection can break at any time; what is on the
  way is then lost from some place on, and every operation can fail.
* Resolving, connecting, the handshake and the texts printed about a failure are left out.

Results:
* **`reply_printed`**: whatever breaks and whenever, the client prints only what it has sent, and
  every run is bounded.
* **`exchange_finishes_iff`**: an exchange on a connection that holds cannot get stuck exactly if
  the request is at most one unit longer than what the connection takes in both directions.
* `coExample_finishes`, `websocketCoro_finishes`: the two programs.
-/

namespace AsioLearn.Echo

open AsioLearn.Lib.Lts

/-! ## The programs -/

/-- What the two pairs of programs differ in. -/
structure Program where
  /-- What a read of the server brings at most. -/
  max : Nat
  /-- The client closes the connection before it prints the reply. -/
  closes : Bool
  max_pos : 0 < max

/-- `coServer.cc` and `coClient.cc`. -/
def coExample : Program := ⟨1024, false, by decide⟩

/-- `websocket_server_coro.cc` and `websocket_client_coro.cc`. -/
def websocketCoro : Program := ⟨1, true, by decide⟩

/-- How much a connection takes in each direction. -/
structure Link where
  up : Nat
  down : Nat
  up_pos : 0 < up
  down_pos : 0 < down

/-- `MAX_LENGTH` of the client. -/
def MAX_LENGTH : Nat := 1024

/-- `cin.getline(request, MAX_LENGTH)`, as far as `strlen` counts. -/
def coExample.request (input : List UInt8) : List UInt8 :=
  ((input.takeWhile (· ≠ 10)).take (MAX_LENGTH - 1)).takeWhile (· ≠ 0)

/-- `net::buffer(std::string(text))`. -/
def websocketCoro.request (text : String) : List String := [text]

/-- What the client waits for. -/
inductive ClientPc where
  | writing
  | reading
  | closing
  | printed
  | failed
  deriving DecidableEq, Repr

/-- A client, the connection, and the session of the server. -/
structure State (α : Type*) where
  client : ClientPc
  /-- What the write of the client has left. -/
  rest : List α
  up : List α
  /-- What the write of the server has left; with nothing left the server reads. -/
  data : List α
  ended : Bool
  down : List α
  /-- What the client has read. -/
  reply : List α
  closed : Bool
  broken : Bool
  deriving DecidableEq, Repr

inductive Event where
  /-- The connection takes `k` units from the write of the client. -/
  | write (k : Nat)
  /-- The write of the client returns. -/
  | written
  /-- A read of the server returns. -/
  | serverRead (k : Nat)
  /-- The connection takes `k` units from the write of the server. -/
  | serverWrite (k : Nat)
  /-- The read of the client gets `k` units. -/
  | read (k : Nat)
  /-- It returns. -/
  | replied
  /-- `async_close` returns, or the program is left. -/
  | close
  /-- The session of the server ends. -/
  | serverEnds
  /-- The connection breaks, and loses what is behind these places. -/
  | breaks (i j : Nat)
  /-- An operation of the client fails. -/
  | fails
  deriving DecidableEq, Repr

variable {α : Type*} (p : Program) (link : Link) (request : List α)

def State.init : State α := ⟨.writing, request, [], [], false, [], [], false, false⟩

def State.step (s : State α) : Event → Option (State α)
  | .write k =>
    if s.client = .writing ∧ s.broken = false ∧ 0 < k ∧ k ≤ s.rest.length ∧
        s.up.length + k ≤ link.up then
      some { s with rest := s.rest.drop k, up := s.up ++ s.rest.take k }
    else none
  | .written =>
    if s.client = .writing ∧ s.rest = [] then some { s with client := .reading } else none
  | .serverRead k =>
    if s.ended = false ∧ s.data = [] ∧ 0 < k ∧ k ≤ min p.max s.up.length then
      some { s with up := s.up.drop k, data := s.up.take k }
    else none
  | .serverWrite k =>
    if s.ended = false ∧ s.broken = false ∧ 0 < k ∧ k ≤ s.data.length ∧
        s.down.length + k ≤ link.down then
      some { s with data := s.data.drop k, down := s.down ++ s.data.take k }
    else none
  | .read k =>
    if s.client = .reading ∧ 0 < k ∧
        k ≤ min s.down.length (request.length - s.reply.length) then
      some { s with down := s.down.drop k, reply := s.reply ++ s.down.take k }
    else none
  | .replied =>
    if s.client = .reading ∧ s.reply.length = request.length then
      if p.closes then some { s with client := .closing, closed := true }
      else some { s with client := .printed }
    else none
  | .close =>
    if s.client = .closing ∧ s.ended = true then some { s with client := .printed }
    else if s.client = .printed ∧ s.closed = false then some { s with closed := true }
    else none
  | .serverEnds =>
    -- the end of the stream or `error::closed` is behind everything that was written
    if s.ended = false ∧ (s.broken = true ∨ (s.data = [] ∧ s.up = [] ∧ s.closed = true)) then
      some { s with ended := true }
    else none
  | .breaks i j =>
    if s.broken = false then
      some { s with up := s.up.take i, down := s.down.take j, broken := true }
    else none
  | .fails =>
    if s.broken = true ∧ s.client ≠ .printed ∧ s.client ≠ .failed then
      some { s with client := .failed, closed := true }
    else none

/-- The connection is not what fails. -/
def Event.holds : Event → Prop
  | .breaks _ _ => False
  | _ => True

/-- Nothing can go on, unless the connection breaks. -/
def State.AtRest (s : State α) : Prop :=
  ∀ e : Event, e.holds → s.step p link request e = none

/-- The client has printed what it sent, and neither side is left waiting. -/
def State.Finished (s : State α) : Prop :=
  s.client = .printed ∧ s.reply = request ∧ s.closed = true ∧ s.ended = true

/-! ## What a step does -/

variable {p link request}

/-- What each event does, where it can happen. -/
inductive Moves (p : Program) (link : Link) (request : List α) (s : State α) :
    Event → State α → Prop
  | write (k : Nat) (hpc : s.client = .writing) (hbroken : s.broken = false) (hk : 0 < k)
      (hrest : k ≤ s.rest.length) (hroom : s.up.length + k ≤ link.up) :
      Moves p link request s (.write k)
        { s with rest := s.rest.drop k, up := s.up ++ s.rest.take k }
  | written (hpc : s.client = .writing) (hrest : s.rest = []) :
      Moves p link request s .written { s with client := .reading }
  | serverRead (k : Nat) (hended : s.ended = false) (hdata : s.data = []) (hk : 0 < k)
      (hmax : k ≤ p.max) (hup : k ≤ s.up.length) :
      Moves p link request s (.serverRead k)
        { s with up := s.up.drop k, data := s.up.take k }
  | serverWrite (k : Nat) (hended : s.ended = false) (hbroken : s.broken = false) (hk : 0 < k)
      (hdata : k ≤ s.data.length) (hroom : s.down.length + k ≤ link.down) :
      Moves p link request s (.serverWrite k)
        { s with data := s.data.drop k, down := s.down ++ s.data.take k }
  | read (k : Nat) (hpc : s.client = .reading) (hk : 0 < k) (hdown : k ≤ s.down.length)
      (hreply : k ≤ request.length - s.reply.length) :
      Moves p link request s (.read k)
        { s with down := s.down.drop k, reply := s.reply ++ s.down.take k }
  | closing (hpc : s.client = .reading) (hreply : s.reply.length = request.length)
      (hcloses : p.closes = true) :
      Moves p link request s .replied { s with client := .closing, closed := true }
  | prints (hpc : s.client = .reading) (hreply : s.reply.length = request.length) :
      Moves p link request s .replied { s with client := .printed }
  | close (hpc : s.client = .closing) (hended : s.ended = true) :
      Moves p link request s .close { s with client := .printed }
  | leave (hpc : s.client = .printed) (hclosed : s.closed = false) :
      Moves p link request s .close { s with closed := true }
  | serverEnds (hended : s.ended = false)
      (hend : s.broken = true ∨ (s.data = [] ∧ s.up = [] ∧ s.closed = true)) :
      Moves p link request s .serverEnds { s with ended := true }
  | breaks (i j : Nat) (hbroken : s.broken = false) :
      Moves p link request s (.breaks i j)
        { s with up := s.up.take i, down := s.down.take j, broken := true }
  | fails (hbroken : s.broken = true) (hprinted : s.client ≠ .printed)
      (hfailed : s.client ≠ .failed) :
      Moves p link request s .fails { s with client := .failed, closed := true }

theorem step_moves {s t : State α} {e : Event} (h : s.step p link request e = some t) :
    Moves p link request s e t := by
  cases e with
  | write k =>
    simp only [State.step] at h
    split_ifs at h with hif
    obtain rfl := Option.some.inj h
    exact .write k hif.1 hif.2.1 hif.2.2.1 hif.2.2.2.1 hif.2.2.2.2
  | written =>
    simp only [State.step] at h
    split_ifs at h with hif
    obtain rfl := Option.some.inj h
    exact .written hif.1 hif.2
  | serverRead k =>
    simp only [State.step] at h
    split_ifs at h with hif
    obtain rfl := Option.some.inj h
    exact .serverRead k hif.1 hif.2.1 hif.2.2.1 (le_min_iff.mp hif.2.2.2).1
      (le_min_iff.mp hif.2.2.2).2
  | serverWrite k =>
    simp only [State.step] at h
    split_ifs at h with hif
    obtain rfl := Option.some.inj h
    exact .serverWrite k hif.1 hif.2.1 hif.2.2.1 hif.2.2.2.1 hif.2.2.2.2
  | read k =>
    simp only [State.step] at h
    split_ifs at h with hif
    obtain rfl := Option.some.inj h
    exact .read k hif.1 hif.2.1 (le_min_iff.mp hif.2.2).1 (le_min_iff.mp hif.2.2).2
  | replied =>
    simp only [State.step] at h
    split_ifs at h with hif hcloses
    · obtain rfl := Option.some.inj h
      exact .closing hif.1 hif.2 hcloses
    · obtain rfl := Option.some.inj h
      exact .prints hif.1 hif.2
  | close =>
    simp only [State.step] at h
    split_ifs at h with hif hprinted
    · obtain rfl := Option.some.inj h
      exact .close hif.1 hif.2
    · obtain rfl := Option.some.inj h
      exact .leave hprinted.1 hprinted.2
  | serverEnds =>
    simp only [State.step] at h
    split_ifs at h with hif
    obtain rfl := Option.some.inj h
    exact .serverEnds hif.1 hif.2
  | breaks i j =>
    simp only [State.step] at h
    split_ifs at h with hif
    obtain rfl := Option.some.inj h
    exact .breaks i j hif
  | fails =>
    simp only [State.step] at h
    split_ifs at h with hif
    obtain rfl := Option.some.inj h
    exact .fails hif.1 hif.2.1 hif.2.2

/-! ## Steps come to an end -/

/-- The operations of the client that are still to return. -/
def ClientPc.work : ClientPc → Nat
  | .writing => 3
  | .reading => 2
  | .closing => 1
  | .printed | .failed => 0

/-- The steps that are left, if units move one by one. -/
def State.rank (s : State α) : Nat :=
  4 * s.rest.length + 3 * s.up.length + 2 * s.data.length + s.down.length + s.client.work +
    (!s.closed).toNat + (!s.ended).toNat + (!s.broken).toNat

/-- **Every step takes something off the rank.** -/
theorem rank_step {s t : State α} {e : Event} (h : s.step p link request e = some t) :
    t.rank < s.rank := by
  unfold State.rank
  cases step_moves h with
  | write k hpc hbroken hk hrest hroom =>
    simp only [List.length_append, List.length_take, List.length_drop]
    omega
  | written hpc hrest =>
    simp only [hpc, ClientPc.work]
    omega
  | serverRead k hended hdata hk hmax hup =>
    simp only [hdata, List.length_take, List.length_drop, List.length_nil]
    omega
  | serverWrite k hended hbroken hk hdata hroom =>
    simp only [List.length_append, List.length_take, List.length_drop]
    omega
  | read k hpc hk hdown hreply =>
    simp only [List.length_drop]
    omega
  | closing hpc hreply hcloses =>
    simp only [hpc, ClientPc.work, Bool.not_true, Bool.toNat_false]
    omega
  | prints hpc hreply =>
    simp only [hpc, ClientPc.work]
    omega
  | close hpc hended =>
    simp only [hpc, ClientPc.work]
    omega
  | leave hpc hclosed =>
    simp only [hclosed, Bool.not_true, Bool.not_false, Bool.toNat_true, Bool.toNat_false]
    omega
  | serverEnds hended hend =>
    simp only [hended, Bool.not_true, Bool.not_false, Bool.toNat_true, Bool.toNat_false]
    omega
  | breaks i j hbroken =>
    simp only [hbroken, List.length_take, Bool.not_true, Bool.not_false, Bool.toNat_true,
      Bool.toNat_false]
    omega
  | fails hbroken hprinted hfailed =>
    have hwork : 0 < s.client.work := by
      cases hpc : s.client with
      | writing => decide
      | reading => decide
      | closing => decide
      | printed => exact absurd hpc hprinted
      | failed => exact absurd hpc hfailed
    have hzero : ClientPc.failed.work = 0 := rfl
    simp only [hzero, Bool.not_true, Bool.toNat_false]
    omega

theorem rank_init : (State.init request).rank = 4 * request.length + 6 := by
  simp [State.init, State.rank, ClientPc.work]

/-! ## What holds of every run -/

/-- What holds of a client, its session and the connection at any time. -/
structure Inv (link : Link) (request : List α) (s : State α) : Prop where
  /-- Nothing is lost, doubled or overtaken. -/
  kept : s.broken = false → s.reply ++ s.down ++ s.data ++ s.up ++ s.rest = request
  begun : s.reply ++ s.down <+: request
  up_le : s.up.length ≤ link.up
  down_le : s.down.length ≤ link.down
  written : s.client = .reading → s.rest = []
  whole : s.client = .closing ∨ s.client = .printed → s.reply.length = request.length
  closing : s.client = .closing → s.closed = true
  closed : s.closed = true → s.broken = true ∨ s.client = .closing ∨ s.client = .printed
  ended : s.ended = true → s.broken = true ∨ s.closed = true
  failed : s.client = .failed → s.broken = true

theorem Inv.init : Inv link request (State.init request) where
  kept _ := rfl
  begun := List.nil_prefix
  up_le := Nat.zero_le _
  down_le := Nat.zero_le _
  written h := by cases h
  whole h := by rcases h with h | h <;> cases h
  closing h := by cases h
  closed h := by cases h
  ended h := by cases h
  failed h := by cases h

/-- A reply as long as the request is the request. -/
theorem Inv.reply_eq {s : State α} (hI : Inv link request s)
    (h : s.reply.length = request.length) : s.reply = request :=
  ((List.prefix_append s.reply s.down).trans hI.begun).eq_of_length h

theorem Inv.step {s t : State α} {e : Event} (hI : Inv link request s)
    (h : s.step p link request e = some t) : Inv link request t := by
  cases step_moves h with
  | write k hpc hbroken hk hrest hroom =>
    refine { hI with kept := fun hb => ?_, up_le := ?_, written := fun hr => ?_ }
    · have hkept := hI.kept hb
      simpa only [List.append_assoc, List.take_append_drop] using hkept
    · simp only [List.length_append, List.length_take]
      omega
    · exact absurd (hpc.symm.trans hr) (by decide)
  | written hpc hrest =>
    exact { hI with
      written := fun _ => hrest
      whole := fun hc => by rcases hc with hc | hc <;> cases hc
      closing := fun hc => by cases hc
      closed := fun hc => by
        have hor := hI.closed hc
        rw [hpc] at hor
        simpa using hor
      failed := fun hc => by cases hc }
  | serverRead k hended hdata hk hmax hup =>
    refine { hI with kept := fun hb => ?_, up_le := ?_ }
    · have hkept := hI.kept hb
      rw [hdata] at hkept
      simpa only [List.append_assoc, List.take_append_drop, List.append_nil, List.nil_append,
        ← List.append_assoc (s.up.take k)] using hkept
    · exact (List.drop_sublist k s.up).length_le.trans hI.up_le
  | serverWrite k hended hbroken hk hdata hroom =>
    have hkept := hI.kept hbroken
    have hmoved : s.reply ++ (s.down ++ s.data.take k) ++ s.data.drop k ++ s.up ++ s.rest =
        request := by
      simpa only [List.append_assoc, ← List.append_assoc (s.data.take k),
        List.take_append_drop] using hkept
    refine { hI with kept := fun _ => hmoved, begun := ?_, down_le := ?_ }
    · rw [List.append_assoc, List.append_assoc] at hmoved
      exact ⟨_, hmoved⟩
    · simp only [List.length_append, List.length_take]
      omega
  | read k hpc hk hdown hreply =>
    have heq : s.reply ++ s.down.take k ++ s.down.drop k = s.reply ++ s.down := by
      rw [List.append_assoc, List.take_append_drop]
    refine { hI with kept := fun hb => ?_, begun := ?_, down_le := ?_, whole := fun hc => ?_ }
    · exact heq.symm ▸ hI.kept hb
    · exact heq.symm ▸ hI.begun
    · exact (List.drop_sublist k s.down).length_le.trans hI.down_le
    · rw [hpc] at hc
      rcases hc with hc | hc <;> cases hc
  | closing hpc hreply hcloses =>
    exact { hI with
      written := fun hc => by cases hc
      whole := fun _ => hreply
      closing := fun _ => rfl
      closed := fun _ => .inr (.inl rfl)
      ended := fun _ => .inr rfl
      failed := fun hc => by cases hc }
  | prints hpc hreply =>
    exact { hI with
      written := fun hc => by cases hc
      whole := fun _ => hreply
      closing := fun hc => by cases hc
      closed := fun _ => .inr (.inr rfl)
      failed := fun hc => by cases hc }
  | close hpc hended =>
    exact { hI with
      written := fun hc => by cases hc
      whole := fun _ => hI.whole (.inl hpc)
      closing := fun hc => by cases hc
      closed := fun _ => .inr (.inr rfl)
      failed := fun hc => by cases hc }
  | leave hpc hclosed =>
    exact { hI with
      closing := fun _ => rfl
      closed := fun _ => .inr (.inr hpc)
      ended := fun _ => .inr rfl }
  | serverEnds hended hend =>
    exact { hI with ended := fun _ => hend.imp_right fun hc => hc.2.2 }
  | breaks i j hbroken =>
    refine { hI with
      kept := fun hb => nomatch hb
      begun := ?_
      up_le := ?_
      down_le := ?_
      closed := fun _ => .inl rfl
      ended := fun _ => .inl rfl
      failed := fun _ => rfl }
    · exact ((List.prefix_append_right_inj s.reply).mpr (List.take_prefix j s.down)).trans
        hI.begun
    · exact (List.take_sublist i s.up).length_le.trans hI.up_le
    · exact (List.take_sublist j s.down).length_le.trans hI.down_le
  | fails hbroken hprinted hfailed =>
    exact { hI with
      written := fun hc => by cases hc
      whole := fun hc => by rcases hc with hc | hc <;> cases hc
      closing := fun hc => by cases hc
      closed := fun _ => .inl hbroken
      ended := fun _ => .inl hbroken
      failed := fun _ => hbroken }

/-- The session does not end before the client has its reply. -/
theorem Inv.serving {s : State α} (hI : Inv link request s) (hb : s.broken = false)
    (hpc : s.client = .writing ∨ s.client = .reading) : s.ended = false := by
  by_contra hended
  have hclosed := (hI.ended (by simpa using hended)).resolve_left (by simp [hb])
  have hdone := (hI.closed hclosed).resolve_left (by simp [hb])
  rcases hpc with hpc | hpc <;> simp [hpc] at hdone

theorem Inv.run {s t : State α} {es : List Event} (hI : Inv link request s)
    (h : run (State.step p link request) s es = some t) : Inv link request t :=
  run_invariant (fun _ _ _ hI h => hI.step h) hI h

theorem run_length_le {t : State α} {es : List Event}
    (h : run (State.step p link request) (.init request) es = some t) :
    es.length ≤ 4 * request.length + 6 := by
  have hle : es.length + t.rank ≤ (State.init request).rank :=
    (run_ranked (I := fun _ => True) (P := fun _ => True)
      (fun _ _ _ _ _ h => ⟨trivial, rank_step h⟩) trivial (fun _ _ => trivial) h).2
  rw [rank_init] at hle
  omega

/-! ## Where nothing can go on -/

theorem State.AtRest.elim {s u : State α} (hr : s.AtRest p link request) (e : Event) (he : e.holds)
    (h : s.step p link request e = some u) : False := by
  rw [hr e he] at h
  cases h

/-- Both sides wait for room. -/
structure State.Blocked (link : Link) (s : State α) : Prop where
  client : s.client = .writing
  rest : s.rest ≠ []
  up : s.up.length = link.up
  data : s.data ≠ []
  down : s.down.length = link.down

theorem State.AtRest.broken {s : State α} (hr : s.AtRest p link request) (hb : s.broken = true) :
    s.ended = true ∧ (s.client = .printed ∨ s.client = .failed) := by
  constructor
  · by_contra hended
    exact hr.elim .serverEnds trivial (if_pos ⟨by simpa using hended, .inl hb⟩)
  · by_contra hpc
    rw [not_or] at hpc
    exact hr.elim .fails trivial (if_pos ⟨hb, hpc.1, hpc.2⟩)

/-- The server reads when it can. -/
theorem State.AtRest.server {s : State α} (hr : s.AtRest p link request) (hended : s.ended = false)
    (hdata : s.data = []) : s.up = [] := by
  by_contra hup
  have hpos := List.length_pos_iff.mpr hup
  exact hr.elim (.serverRead 1) trivial
    (if_pos ⟨hended, hdata, Nat.one_pos, le_min p.max_pos hpos⟩)

/-- The server writes when it can. -/
theorem State.AtRest.room {s : State α} (hr : s.AtRest p link request) (hended : s.ended = false)
    (hb : s.broken = false) (hdata : s.data ≠ []) : link.down ≤ s.down.length := by
  by_contra hroom
  have hpos := List.length_pos_iff.mpr hdata
  exact hr.elim (.serverWrite 1) trivial
    (if_pos ⟨hended, hb, Nat.one_pos, hpos, by omega⟩)

/-- The session ends once the client has closed. -/
theorem State.AtRest.ended {s : State α} (hr : s.AtRest p link request) (hI : Inv link request s)
    (hb : s.broken = false) (hreply : s.reply = request) (hclosed : s.closed = true) :
    s.ended = true := by
  have hkept := congrArg List.length (hI.kept hb)
  rw [hreply] at hkept
  simp only [List.length_append] at hkept
  by_contra hended
  exact hr.elim .serverEnds trivial (if_pos ⟨by simpa using hended,
    .inr ⟨List.length_eq_zero_iff.mp (by omega), List.length_eq_zero_iff.mp (by omega), hclosed⟩⟩)

theorem State.AtRest.writing {s : State α} (hr : s.AtRest p link request) (hI : Inv link request s)
    (hb : s.broken = false) (hpc : s.client = .writing) : s.Blocked link := by
  have hended := hI.serving hb (.inl hpc)
  have hrest : s.rest ≠ [] := fun h => hr.elim .written trivial (if_pos ⟨hpc, h⟩)
  have hup : link.up ≤ s.up.length := by
    by_contra hroom
    have hpos := List.length_pos_iff.mpr hrest
    exact hr.elim (.write 1) trivial (if_pos ⟨hpc, hb, Nat.one_pos, hpos, by omega⟩)
  have hdata : s.data ≠ [] := fun h => by
    have hlen := congrArg List.length (hr.server hended h)
    have hpos := link.up_pos
    rw [List.length_nil] at hlen
    omega
  exact ⟨hpc, hrest, hI.up_le.antisymm hup, hdata,
    hI.down_le.antisymm (hr.room hended hb hdata)⟩

/-- A client that reads is not left without its reply. -/
theorem State.AtRest.reading {s : State α} (hr : s.AtRest p link request) (hI : Inv link request s)
    (hb : s.broken = false) : s.client ≠ .reading := by
  intro hpc
  have hended := hI.serving hb (.inr hpc)
  have hlen := congrArg List.length (hI.kept hb)
  simp only [List.length_append, hI.written hpc, List.length_nil] at hlen
  have hreply : s.reply.length ≠ request.length := fun h => by
    by_cases hcloses : p.closes
    · exact hr.elim .replied trivial (by rw [State.step, if_pos ⟨hpc, h⟩, if_pos hcloses])
    · exact hr.elim .replied trivial (by rw [State.step, if_pos ⟨hpc, h⟩, if_neg hcloses])
  have hdown : s.down.length = 0 := by
    by_contra hpos
    exact hr.elim (.read 1) trivial
      (if_pos ⟨hpc, Nat.one_pos, le_min (by omega) (by omega)⟩)
  have hdata : s.data = [] := by
    by_contra hdata
    have hroom := hr.room hended hb hdata
    have hpos := link.down_pos
    omega
  have hup := hr.server hended hdata
  rw [hdata, hup, List.length_nil] at hlen
  omega

/-- **At rest, the exchange is over or both sides wait for room.** -/
theorem State.AtRest.finished_or_blocked {s : State α} (hr : s.AtRest p link request)
    (hI : Inv link request s) (hb : s.broken = false) :
    s.Finished request ∨ s.Blocked link := by
  cases hpc : s.client with
  | writing => exact .inr (hr.writing hI hb hpc)
  | reading => exact absurd hpc (hr.reading hI hb)
  | closing =>
    have hended := hr.ended hI hb (hI.reply_eq (hI.whole (.inl hpc))) (hI.closing hpc)
    exact (hr.elim .close trivial (if_pos ⟨hpc, hended⟩)).elim
  | printed =>
    have hreply := hI.reply_eq (hI.whole (.inr hpc))
    have hclosed : s.closed = true := by
      by_contra hclosed
      refine hr.elim .close trivial ((if_neg ?_).trans (if_pos ⟨hpc, by simpa using hclosed⟩))
      exact fun h => nomatch hpc.symm.trans h.1
    exact .inl ⟨hpc, hreply, hclosed, hr.ended hI hb hreply hclosed⟩
  | failed => exact (Bool.false_ne_true (hb.symm.trans (hI.failed hpc))).elim

/-- Two full directions, a unit that the server holds and one that the client does. -/
theorem State.Blocked.length_lt {s : State α} (h : s.Blocked link) (hI : Inv link request s)
    (hb : s.broken = false) : link.up + link.down + 1 < request.length := by
  have hlen := congrArg List.length (hI.kept hb)
  have hrest := List.length_pos_iff.mpr h.rest
  have hdata := List.length_pos_iff.mpr h.data
  have hup := h.up
  have hdown := h.down
  simp only [List.length_append] at hlen
  omega

/-! ## A run that gets stuck -/

/-- A client that has not finished its write, and a server that reads. -/
def State.sending (rest down : List α) : State α :=
  ⟨.writing, rest, [], [], false, down, [], false, false⟩

/-- One unit goes round. -/
def roundEvents : List Event := [.write 1, .serverRead 1, .serverWrite 1]

theorem step_write (x : α) (rest down : List α) :
    (State.sending (x :: rest) down).step p link request (.write 1) =
      some { State.sending rest down with up := [x] } :=
  if_pos ⟨rfl, rfl, Nat.one_pos, Nat.succ_le_succ (Nat.zero_le _), link.up_pos⟩

theorem step_serverRead (x : α) (rest down : List α) :
    ({ State.sending rest down with up := [x] } : State α).step p link request (.serverRead 1) =
      some { State.sending rest down with data := [x] } :=
  if_pos ⟨rfl, rfl, Nat.one_pos, le_min p.max_pos (Nat.le_refl 1)⟩

theorem run_round (x : α) (rest : List α) {down : List α} (h : down.length < link.down) :
    run (State.step p link request) (.sending (x :: rest) down) roundEvents =
      some (.sending rest (down ++ [x])) := by
  have hwrite : ({ State.sending rest down with data := [x] } : State α).step p link request
      (.serverWrite 1) = some (.sending rest (down ++ [x])) :=
    if_pos ⟨rfl, rfl, Nat.one_pos, Nat.le_refl 1, h⟩
  rw [roundEvents, run_cons, step_write, Option.bind_some, run_cons, step_serverRead,
    Option.bind_some, run_cons, hwrite, Option.bind_some, run_nil]

/-- The client writes on while the replies fill the way back. -/
theorem run_rounds (p : Program) (link : Link) (request xs rest : List α) {down : List α}
    (h : down.length + xs.length ≤ link.down) :
    run (State.step p link request) (.sending (xs ++ rest) down)
      (xs.flatMap fun _ => roundEvents) = some (.sending rest (down ++ xs)) := by
  induction xs generalizing down with
  | nil => simp only [List.nil_append, List.flatMap_nil, run_nil, List.append_nil]
  | cons x xs ih =>
    rw [List.length_cons] at h
    have hnext : (down ++ [x]).length + xs.length ≤ link.down := by
      rw [List.length_append, List.length_singleton]
      omega
    rw [List.cons_append, List.flatMap_cons, run_append, run_round x (xs ++ rest) (by omega),
      Option.bind_some, ih hnext, List.append_assoc, List.singleton_append]

/-- **A request that is longer can block both sides.** -/
theorem blocked_of_length_lt (p : Program) (h : link.up + link.down + 1 < request.length) :
    ∃ es t, (∀ e ∈ es, e.holds) ∧ run (State.step p link request) (.init request) es = some t ∧
      t.broken = false ∧ t.Blocked link := by
  obtain ⟨xs, ys, rfl, hxs⟩ : ∃ xs ys, request = xs ++ ys ∧ xs.length = link.down :=
    ⟨request.take link.down, request.drop link.down, (List.take_append_drop ..).symm, by
      rw [List.length_take]
      omega⟩
  rw [List.length_append] at h
  obtain ⟨y, zs, rfl⟩ := List.exists_cons_of_length_pos (l := ys) (by omega)
  rw [List.length_cons] at h
  refine ⟨(xs.flatMap fun _ => roundEvents) ++ [.write 1, .serverRead 1, .write link.up],
    { State.sending (zs.drop link.up) xs with up := zs.take link.up, data := [y] }, ?_, ?_, rfl,
    ⟨rfl, ?_, ?_, List.cons_ne_nil _ _, hxs⟩⟩
  · intro e he
    simp only [List.mem_append, List.mem_flatMap, roundEvents, List.mem_cons, List.not_mem_nil,
      or_false] at he
    rcases he with ⟨_, _, rfl | rfl | rfl⟩ | rfl | rfl | rfl <;> trivial
  · have hwrite : ({ State.sending zs xs with data := [y] } : State α).step p link
        (xs ++ y :: zs) (.write link.up) =
        some { State.sending (zs.drop link.up) xs with up := zs.take link.up, data := [y] } :=
      if_pos ⟨rfl, rfl, link.up_pos, (by omega : link.up ≤ zs.length), by simp [State.sending]⟩
    have hround := @run_rounds _ p link (xs ++ y :: zs) xs (y :: zs) [] (by simp [hxs])
    rw [List.nil_append] at hround
    change run _ (State.sending (xs ++ y :: zs) []) _ = _
    rw [run_append, hround, Option.bind_some, run_cons, step_write, Option.bind_some, run_cons,
      step_serverRead, Option.bind_some, run_cons, hwrite, Option.bind_some, run_nil]
  · have hpos : 0 < (zs.drop link.up).length := by
      rw [List.length_drop]
      omega
    exact List.ne_nil_of_length_pos hpos
  · exact List.length_take_of_le (by omega)

/-- A write that finds no room does not go on. -/
theorem State.Blocked.atRest {s : State α} (h : s.Blocked link) (hb : s.broken = false) :
    s.AtRest p link request := by
  intro e he
  cases hstep : s.step p link request e with
  | none => rfl
  | some t =>
    exfalso
    cases step_moves hstep with
    | write k hpc hbroken hk hrest hroom =>
      have hup := h.up
      omega
    | written hpc hrest => exact h.rest hrest
    | serverRead k hended hdata => exact h.data hdata
    | serverWrite k hended hbroken hk hdata hroom =>
      have hdown := h.down
      omega
    | read k hpc => exact nomatch h.client.symm.trans hpc
    | closing hpc => exact nomatch h.client.symm.trans hpc
    | prints hpc => exact nomatch h.client.symm.trans hpc
    | close hpc => exact nomatch h.client.symm.trans hpc
    | leave hpc => exact nomatch h.client.symm.trans hpc
    | serverEnds hended hend =>
      rcases hend with hend | hend
      · exact Bool.false_ne_true (hb.symm.trans hend)
      · exact h.data hend.1
    | breaks i j => exact he
    | fails hbroken => exact Bool.false_ne_true (hb.symm.trans hbroken)

/-! ## The exchange -/

theorem broken_of_holds {s t : State α} {e : Event} (he : e.holds) (hb : s.broken = false)
    (h : s.step p link request e = some t) : t.broken = false := by
  cases step_moves h with
  | breaks i j => exact he.elim
  | _ => exact hb

/-- **Whatever breaks and whenever**: a run is bounded, what the client has read begins its request,
it prints nothing but that, and once the connection is broken nobody is left waiting. -/
theorem reply_printed {t : State α} {es : List Event}
    (h : run (State.step p link request) (.init request) es = some t) :
    es.length ≤ 4 * request.length + 6 ∧ t.reply <+: request ∧
      (t.client = .printed → t.reply = request) ∧
      (t.AtRest p link request → t.broken = true →
        t.ended = true ∧ (t.client = .printed ∨ t.client = .failed)) := by
  have hI := Inv.init.run h
  exact ⟨run_length_le h, (List.prefix_append t.reply t.down).trans hI.begun,
    fun hpc => hI.reply_eq (hI.whole (.inr hpc)), fun hr hb => hr.broken hb⟩

/-- What a program prints is not cut, whatever breaks once the reply is there. -/
theorem reply_printed_hi :
    ∃ t, run (State.step coExample ⟨1, 1, Nat.one_pos, Nat.one_pos⟩ [104, 105])
        (.init [104, 105]) [.write 1, .serverRead 1, .write 1, .written, .serverWrite 1, .read 1,
          .serverRead 1, .serverWrite 1, .breaks 0 1, .read 1, .serverEnds, .replied] = some t ∧
      t.client = .printed ∧ t.broken = true ∧ t.reply = [104, 105] := by
  refine ⟨_, rfl, rfl, rfl, ?_⟩
  exact (@reply_printed _ coExample ⟨1, 1, Nat.one_pos, Nat.one_pos⟩ [104, 105] _
    [.write 1, .serverRead 1, .write 1, .written, .serverWrite 1, .read 1,
      .serverRead 1, .serverWrite 1, .breaks 0 1, .read 1, .serverEnds, .replied] rfl).2.2.1 rfl

/-- **No order of steps gets stuck exactly if the request is at most one unit longer than what the
connection takes in both directions.** -/
theorem exchange_finishes_iff :
    (∀ es t, (∀ e ∈ es, Event.holds e) →
      run (State.step p link request) (.init request) es = some t →
      t.AtRest p link request → t.Finished request) ↔
    request.length ≤ link.up + link.down + 1 := by
  constructor
  · intro h
    by_contra hlt
    obtain ⟨es, t, hes, hrun, hb, hblocked⟩ :=
      blocked_of_length_lt p (Nat.lt_of_not_le hlt)
    have hprinted := (h es t hes hrun (hblocked.atRest hb)).1
    exact nomatch hblocked.client.symm.trans hprinted
  · intro hle es t hes hrun hr
    have hI := Inv.init.run hrun
    have hb : t.broken = false := run_invariant_of_meets (I := fun s : State α => s.broken = false)
      (C := fun _ e => e.holds) (fun _ _ _ hb he h => broken_of_holds he hb h) rfl
      (meets_of_forall hes) hrun
    rcases hr.finished_or_blocked hI hb with hfinished | hblocked
    · exact hfinished
    · exact absurd (hblocked.length_lt hI hb) (by omega)

theorem coExample.request_length_le (input : List UInt8) :
    (coExample.request input).length ≤ MAX_LENGTH - 1 :=
  (List.takeWhile_prefix _).length_le.trans (List.length_take_le ..)

/-- `coExample` on a connection that takes almost what the client can send. -/
theorem coExample_finishes {input : List UInt8} (hlink : MAX_LENGTH - 2 ≤ link.up + link.down)
    {t : State UInt8} {es : List Event} (hes : ∀ e ∈ es, e.holds)
    (h : run (State.step coExample link (coExample.request input))
      (.init (coExample.request input)) es = some t)
    (hr : t.AtRest coExample link (coExample.request input)) :
    t.Finished (coExample.request input) := by
  refine exchange_finishes_iff.mpr ?_ es t hes h hr
  have hle := coExample.request_length_le input
  have hmax : MAX_LENGTH = 1024 := rfl
  omega

/-- A single message always comes back. -/
theorem websocketCoro_finishes {text : String} {t : State String} {es : List Event}
    (hes : ∀ e ∈ es, e.holds)
    (h : run (State.step websocketCoro link (websocketCoro.request text))
      (.init (websocketCoro.request text)) es = some t)
    (hr : t.AtRest websocketCoro link (websocketCoro.request text)) :
    t.Finished (websocketCoro.request text) := by
  refine exchange_finishes_iff.mpr ?_ es t hes h hr
  rw [websocketCoro.request, List.length_singleton]
  omega

end AsioLearn.Echo
