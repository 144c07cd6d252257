import AsioLearn.LogicServer.Refine
import AsioLearn.Lib.Lts

/-!
# `HandleRead` leaves its session reading or cleared

Every call of `HandleRead` should end with one new `async_read_some`, or with the session cleared
and no read armed (`Settled`): with neither it stays in the server's map for ever. A run is a list
of completions: reads with arbitrary bytes, read errors, and write errors, whose handler closes the
same socket and clears the session too, while a read is armed. That read still completes: with an
error, or with bytes if they had come before the socket was closed.

Results:
* `handle_isSome`: a call always ends, so a completion can always be taken.
* `handleRead_clearSession`: a call takes the same way on a session that has been cleared.
* `handleRead_settled_iff`: every call of a run is settled if and only if no read has a header with
  a negative length where `HandleRead` looks for one, no `Close()` throws on a read error, and no
  read completes with bytes on a cleared session, unless it stops at a header that is rejected. An
  exception goes to the `catch` block, which prints and does neither; a read on a cleared session
  arms the next one all the same.
-/

namespace AsioLearn.LogicServer

open AsioLearn.Cpp AsioLearn.Wire AsioLearn.Lib AsioLearn.Lib.Lts AsioLearn.Lib.Transducer
  AsioLearn.Lib.Hoare

/-! ## Completions -/

/-- What completes on the session's socket. -/
inductive Completion where
  | read (xs : List UInt8)
  | readError (closeThrows : Bool)
  | writeError (closeThrows : Bool)
  deriving DecidableEq, Repr

/-- The completion of a read, whose handler is `HandleRead`. -/
def Completion.OfRead : Completion → Prop
  | .read _ | .readError _ => True
  | .writeError _ => False

/-- The handler of a completion; `none` if no read is armed, or a read of such a size cannot be.
`HandleWrite` does to the receive side what `Close()` and `ClearSession` do. -/
def Session.handle (s : Session) : Completion → Option Exit
  | .read xs =>
    if s.armed = 0 ∨ xs = [] ∨ maxLength < xs.length then none
    else handleRead (s.deliver xs) xs.length
  | .readError closeThrows =>
    if s.armed = 0 then none else some (handleReadError closeThrows (s.deliver []))
  | .writeError closeThrows =>
    some (if closeThrows then .caught s else .returned { s with bClose := true }.clearSession)

/-- The next completion; there is none after undefined behaviour. -/
def Exit.handle : Exit → Completion → Option Exit
  | .undefined _, _ => none
  | .returned s, ev | .caught s, ev => s.handle ev

/-- One read is armed and the session is not cleared, or it is cleared and no read is armed. -/
def Settled : Exit → Prop
  | .undefined _ => False
  | .returned s | .caught s =>
    (s.armed = 1 ∧ s.cleared = false) ∨ (s.armed = 0 ∧ s.cleared = true)

/-- The bytes that the open message still needs. -/
def Session.remaining (s : Session) : Nat :=
  match s.recvMsgNode with
  | some node => if s.bHeadParse then (node.totalLen.toInt - node.curLen.toInt).toNat else 0
  | none => 0

/-- Behind the open message and whole frames the read has a header with a good id and a negative
length. -/
def Session.MeetsNegative (s : Session) (xs : List UInt8) : Prop :=
  ∃ h, Reaches (xs.drop s.remaining) h ∧ h.IdOk ∧ h.len.toInt < 0

/-- Behind the open message and whole frames the read has a header that ends the reading: it is
rejected, or the allocation throws. At the length `-1` the terminator is written outside the block
instead. -/
def Session.MeetsEnd (s : Session) (xs : List UInt8) : Prop :=
  ∃ h, Reaches (xs.drop s.remaining) h ∧ ¬ h.Accepted ∧ ¬ (h.IdOk ∧ h.len.toInt = -1)

/-- A completion that raises no exception in `HandleRead`, and that does not bring bytes to a
cleared session to read on behind. -/
def Orderly (e : Exit) : Completion → Prop
  | .read xs =>
    if e.session.cleared then e.session.MeetsEnd xs else ¬ e.session.MeetsNegative xs
  | .readError closeThrows => closeThrows = false ∨ e.session.cleared = true
  | .writeError _ => True

/-! ## `HandleRead` does not ask whether the session is cleared -/

/-- The way out of a call on a session that had been cleared before. -/
def Exit.clearSession : Exit → Exit
  | .returned s => .returned s.clearSession
  | .caught s => .caught s.clearSession
  | .undefined s => .undefined s.clearSession

/-- The same way out, but for the session having been cleared before. -/
abbrev SameWay : Except Exit Cursor → Except Exit Cursor → Prop :=
  Alike (fun c c' => c' = { c with session := c.session.clearSession })
    (fun e e' => e' = e.clearSession)

theorem attempt_sameWay {α : Type} (s : Session) (r : Except Fault α) :
    Alike Eq (fun e e' => e' = e.clearSession) (s.attempt r) (s.clearSession.attempt r) := by
  match r with
  | .ok a => exact rfl
  | .error .badArrayNewLength => exact rfl
  | .error .outOfBounds => exact rfl

theorem asyncReadSome_sameWay (s s₁ : Session) :
    Alike (fun t t' => t' = t.clearSession) (fun e e' => e' = e.clearSession)
      (s₁.attempt s.asyncReadSome) (s₁.clearSession.attempt s.clearSession.asyncReadSome) := by
  have hclear : s.clearSession.asyncReadSome = s.asyncReadSome.map Session.clearSession := by
    unfold Session.asyncReadSome
    show (memset s.data maxLength >>= _) = _
    cases memset s.data maxLength <;> rfl
  rw [hclear]
  match s.asyncReadSome with
  | .ok a => exact rfl
  | .error .badArrayNewLength => exact rfl
  | .error .outOfBounds => exact rfl

theorem finish_sameWay (s : Session) (node : RecvNode) (copyLen : Int) (bytesTransferred : Nat) :
    SameWay (finish s node copyLen bytesTransferred)
      (finish s.clearSession node copyLen bytesTransferred) := by
  unfold finish
  refine alike_bind (attempt_sameWay _ _) fun head _ hhead => ?_
  subst hhead
  refine alike_ite (alike_bind (asyncReadSome_sameWay _ _) fun t t' ht => ?_) rfl
  subst ht
  exact rfl

theorem openMsg_sameWay (s : Session) (msgId msgLen : Int16) (copyLen : Int)
    (bytesTransferred : Nat) : SameWay (openMsg s msgId msgLen copyLen bytesTransferred)
      (openMsg s.clearSession msgId msgLen copyLen bytesTransferred) := by
  unfold openMsg
  refine alike_bind (attempt_sameWay _ _) fun node _ hnode => ?_
  subst hnode
  refine alike_ite ?_ ?_
  · refine alike_bind (attempt_sameWay _ _) fun data _ hdata => ?_
    subst hdata
    refine alike_bind (asyncReadSome_sameWay _ _) fun t t' ht => ?_
    subst ht
    exact rfl
  · refine alike_bind (attempt_sameWay _ _) fun data _ hdata => ?_
    subst hdata
    refine alike_bind (attempt_sameWay _ _) fun data' _ hdata' => ?_
    subst hdata'
    exact finish_sameWay _ _ _ _

theorem readHead_sameWay (c : Cursor) :
    SameWay (readHead c) (readHead { c with session := c.session.clearSession }) := by
  unfold readHead
  refine alike_ite ?_ ?_
  · refine alike_bind (attempt_sameWay _ _) fun data _ hdata => ?_
    subst hdata
    refine alike_bind (asyncReadSome_sameWay _ _) fun t t' ht => ?_
    subst ht
    exact rfl
  · refine alike_bind (attempt_sameWay _ _) fun data _ hdata => ?_
    subst hdata
    refine alike_bind (attempt_sameWay _ _) fun msgId _ hmsgId => ?_
    subst hmsgId
    refine alike_ite rfl ?_
    refine alike_bind (attempt_sameWay _ _) fun msgLen _ hmsgLen => ?_
    subst hmsgLen
    exact alike_ite rfl (openMsg_sameWay _ _ _ _ _)

theorem readBody_sameWay (c : Cursor) :
    SameWay (readBody c) (readBody { c with session := c.session.clearSession }) := by
  obtain ⟨⟨data, recvMsgNode, bHeadParse, recvHeadNode, bClose, armed, posted, cleared⟩, copyLen,
    bytesTransferred⟩ := c
  unfold readBody
  cases recvMsgNode with
  | none => exact rfl
  | some node =>
    refine alike_ite ?_ ?_
    · refine alike_bind (attempt_sameWay _ _) fun data _ hdata => ?_
      subst hdata
      refine alike_bind (asyncReadSome_sameWay _ _) fun t t' ht => ?_
      subst ht
      exact rfl
    · refine alike_bind (attempt_sameWay _ _) fun data _ hdata => ?_
      subst hdata
      refine alike_bind (attempt_sameWay _ _) fun data' _ hdata' => ?_
      subst hdata'
      exact finish_sameWay _ _ _ _

/-- **A call of `HandleRead` on a session that has been cleared** goes as it would have gone. -/
theorem handleRead_clearSession {s : Session} {n : Nat} {e : Exit} (h : handleRead s n = some e) :
    handleRead s.clearSession n = some e.clearSession := by
  unfold handleRead at h ⊢
  cases hr : Loop.iterate loopCond loopBody (n + 1) ⟨s, 0, n⟩ with
  | none =>
    rw [hr] at h
    cases h
  | some r =>
    obtain ⟨r', hr', halike⟩ := Loop.iterate_alike
      (R := fun c c' => c' = { c with session := c.session.clearSession })
      (E := fun e e' => e' = e.clearSession) (fun _ _ hR => by rw [hR]; rfl)
      (fun c _ hR => by
        subst hR
        exact alike_ite (readBody_sameWay c) (readHead_sameWay c)) rfl hr
    rw [hr] at h
    rw [hr']
    match r, r', halike with
    | .ok c, .ok c', halike =>
      obtain rfl := Option.some.inj h
      subst halike
      rfl
    | .error e', .error e'', halike =>
      obtain rfl := Option.some.inj h
      subst halike
      rfl
/-! ## One read -/

/-- Where the decoder stops, read off the session and the bytes. -/
theorem stopped_from_iff {s : Session} {d : DecState} {xs : List UInt8} {h : Header}
    (hl : Live s d) :
    (feed DecState.step d xs).1 = .stopped h ↔
      Reaches (xs.drop s.remaining) h ∧ ¬ h.Accepted := by
  have hrel := hl.rel
  cases d with
  | header acc =>
    obtain ⟨rfl, hparse⟩ := hrel
    have hnone : s.remaining = 0 := by
      unfold Session.remaining
      rw [hparse]
      cases s.recvMsgNode <;> rfl
    rw [hnone, List.drop_zero]
    exact stopped_iff
  | payload id len acc =>
    obtain ⟨hparse, n, hn, hf⟩ := hrel
    have hmore := hf.more
    have hrem : s.remaining = len - acc.length := by
      unfold Session.remaining
      rw [hn, hparse]
      dsimp only
      rw [if_pos rfl, hf.total, hf.cur]
      omega
    rw [hrem]
    by_cases hlt : acc.length + xs.length < len
    · rw [feed_payload_short hlt, List.drop_of_length_le (by omega)]
      exact iff_of_false (fun hc => (by cases hc)) fun hc => not_reaches_nil h hc.1
    · rw [feed_payload_full hmore (by omega)]
      exact stopped_iff
  | stopped _ => exact hrel.elim

/-- A stop clears the session unless the header is negative. -/
theorem stopOutcome_cleared_iff {h : Header} (hna : ¬ h.Accepted) :
    stopOutcome h = .cleared ↔ ¬ (h.IdOk ∧ h.len.toInt < 0) := by
  unfold stopOutcome
  constructor
  · rintro hout ⟨hid, hneg⟩
    have hok : ¬ (¬ h.IdOk ∨ (maxLength : Int) < h.len.toInt) := by
      rintro (hc | hc)
      · exact hc hid
      · omega
    rw [if_neg hok] at hout
    split_ifs at hout
  · intro hneg
    refine if_pos ?_
    by_contra hok
    obtain ⟨hid, hle⟩ := not_or.mp hok
    have hid := not_not.mp hid
    exact hna ⟨hid, not_lt.mp fun hlt => hneg ⟨hid, hlt⟩, not_lt.mp hle⟩

/-- A call that leaves no read armed is judged by what it has done to the server. -/
theorem settled_of_dead {e : Exit} (h : e.session.armed = 0) :
    Settled e ↔ e.outcome = .cleared := by
  have hjudge : ∀ s : Session, s.armed = 0 →
      ((s.armed = 1 ∧ s.cleared = false ∨ s.armed = 0 ∧ s.cleared = true) ↔
        (if s.cleared then Outcome.cleared else if s.armed = 0 then .stranded else .reading) =
          .cleared) := by
    intro s hs
    cases hc : s.cleared <;> simp [hs]
  cases e with
  | undefined s => exact iff_of_false id fun hc => (by cases hc)
  | returned s => exact hjudge s h
  | caught s => exact hjudge s h

theorem settled_clearSession {e : Exit} (h : e.session.armed = 0) :
    Settled e.clearSession ↔ e.outcome ≠ .undefined := by
  have hjudge : ∀ s : Session,
      (if s.cleared then Outcome.cleared else if s.armed = 0 then .stranded else .reading) ≠
        .undefined := by
    intro s
    split_ifs <;> exact Outcome.noConfusion
  cases e with
  | undefined s => exact iff_of_false id fun hc => hc rfl
  | returned s => exact iff_of_true (Or.inr ⟨h, rfl⟩) (hjudge s)
  | caught s => exact iff_of_true (Or.inr ⟨h, rfl⟩) (hjudge s)

/-- **When a read is settled**, on a session that is not cleared and on one that is. -/
theorem leaves_settled_iff {s : Session} {d : DecState} {xs : List UInt8} {e : Exit}
    {ps : List Post} (hl : Live s d) (hleaves : Leaves e (feed DecState.step d xs).1 ps) :
    (Settled e ↔ ¬ s.MeetsNegative xs) ∧ (Settled e.clearSession ↔ s.MeetsEnd xs) := by
  by_cases hst : ∃ h, (feed DecState.step d xs).1 = .stopped h
  · have hdead := hleaves.dead hst
    obtain ⟨h, hst⟩ := hst
    obtain ⟨hreach, hna⟩ := (stopped_from_iff hl).mp hst
    have hout : e.outcome = stopOutcome h := by
      rw [hleaves.outcome, hst]
      rfl
    -- the decoder stops at no other header
    have huniq : ∀ h', Reaches (xs.drop s.remaining) h' → ¬ h'.Accepted → h = h' := by
      intro h' hr' hna'
      have hst' := (stopped_from_iff hl).mpr ⟨hr', hna'⟩
      rw [hst] at hst'
      exact DecState.stopped.inj hst'
    constructor
    · rw [settled_of_dead hdead, hout, stopOutcome_cleared_iff hna, not_iff_not]
      constructor
      · exact fun hneg => ⟨h, hreach, hneg⟩
      · rintro ⟨h', hr', hid, hneg⟩
        obtain rfl := huniq h' hr' fun ha => absurd ha.2.1 (not_le.mpr hneg)
        exact ⟨hid, hneg⟩
    · rw [settled_clearSession hdead, hout, Ne, stopOutcome_undefined_iff]
      constructor
      · exact fun hdef => ⟨h, hreach, hna, hdef⟩
      · rintro ⟨h', hr', hna', hdef⟩
        obtain rfl := huniq h' hr' hna'
        exact hdef
  · obtain ⟨s', rfl, hl'⟩ := hleaves.live fun h' hd => hst ⟨h', hd⟩
    have hstop : ∀ h', Reaches (xs.drop s.remaining) h' → h'.Accepted := by
      intro h' hr'
      by_contra hna
      exact hst ⟨h', (stopped_from_iff hl).mpr ⟨hr', hna⟩⟩
    constructor
    · refine iff_of_true (Or.inl ⟨hl'.armed, hl'.cleared⟩) ?_
      rintro ⟨h', hr', -, hneg⟩
      exact absurd (hstop h' hr').2.1 (not_le.mpr hneg)
    · refine iff_of_false ?_ ?_
      · rintro (⟨-, hc⟩ | ⟨hc, -⟩)
        · cases hc
        · exact absurd (hl'.armed.symm.trans hc) one_ne_zero
      · rintro ⟨h', hr', hna, -⟩
        exact hna (hstop h' hr')

/-! ## Runs -/

/-- A read is armed, and the session is as a read needs it; it may have been cleared. -/
def Reading (s : Session) (d : DecState) : Prop :=
  ∃ s₀, Live s₀ d ∧ (s = s₀ ∧ s.cleared = false ∨ s = s₀.clearSession ∧ s.cleared = true)

/-- Not undefined, and a read is armed and can be taken, or none is armed. -/
def Ready (e : Exit) : Prop :=
  (∀ s, e ≠ .undefined s) → (∃ d, Reading e.session d) ∨ e.session.armed = 0

/-- The same where the session is cleared if no read is armed. -/
structure Kept (e : Exit) : Prop where
  defined : ∀ s, e ≠ .undefined s
  state : (∃ d, Reading e.session d) ∨ (e.session.armed = 0 ∧ e.session.cleared = true)

theorem Kept.ready {e : Exit} (h : Kept e) : Ready e :=
  fun _ => h.state.imp_right And.left

theorem reading_armed {s : Session} {d : DecState} (h : Reading s d) : s.armed = 1 := by
  obtain ⟨s₀, hl, ⟨rfl, -⟩ | ⟨rfl, -⟩⟩ := h
  · exact hl.armed
  · exact hl.armed

theorem reading_live {s : Session} {d : DecState} (h : Live s d) : Reading s d :=
  ⟨s, h, Or.inl ⟨rfl, h.cleared⟩⟩

theorem kept_fresh : Kept (.returned Session.fresh) :=
  ⟨fun _ h => (by cases h), Or.inl ⟨_, reading_live live_fresh⟩⟩

/-- A step is the handler's, and there is none after undefined behaviour. -/
theorem handle_session {e e' : Exit} {ev : Completion} (h : e.handle ev = some e') :
    (∀ s, e ≠ .undefined s) ∧ e.session.handle ev = some e' := by
  cases e with
  | undefined s => cases h
  | returned s => exact ⟨fun _ he => (by cases he), h⟩
  | caught s => exact ⟨fun _ he => (by cases he), h⟩

/-- The read is taken as the decoder says, on a session that is cleared too. -/
def Takes (s : Session) (xs : List UInt8) (e : Exit) : Prop :=
  ∃ s₀ d e₀ ps, Live s₀ d ∧ Leaves e₀ (feed DecState.step d xs).1 ps ∧
    (s = s₀ ∧ s.cleared = false ∧ e = e₀ ∨
      s = s₀.clearSession ∧ s.cleared = true ∧ e = e₀.clearSession)

/-- An armed read can complete with as many bytes as its buffer holds. -/
theorem handle_armed {s : Session} {xs : List UInt8} (h : s.armed = 1) (hne : xs ≠ [])
    (hle : xs.length ≤ maxLength) :
    s.handle (.read xs) = handleRead (s.deliver xs) xs.length := by
  refine if_neg ?_
  rintro (h0 | h0 | h0)
  · omega
  · exact hne h0
  · omega

/-- A read on a session that waits for one. -/
theorem handle_read {s : Session} {d : DecState} {xs : List UInt8} (hr : Reading s d)
    (hne : xs ≠ []) (hle : xs.length ≤ maxLength) :
    ∃ e, s.handle (.read xs) = some e ∧ Takes s xs e := by
  rw [handle_armed (reading_armed hr) hne hle]
  obtain ⟨s₀, hl, hs⟩ := hr
  obtain ⟨e, he, hleaves⟩ := handleRead_refines hl hne hle
  rcases hs with ⟨rfl, hc⟩ | ⟨rfl, hc⟩
  · exact ⟨e, he, s, d, e, _, hl, hleaves, Or.inl ⟨rfl, hc, rfl⟩⟩
  · exact ⟨e.clearSession, handleRead_clearSession he, s₀, d, e, _, hl, hleaves,
      Or.inr ⟨rfl, hc, rfl⟩⟩

/-- The ways a completion can be taken. -/
theorem handle_cases {e e' : Exit} {ev : Completion} (hr : Ready e) (h : e.handle ev = some e') :
    (∃ xs, ev = .read xs ∧ Takes e.session xs e') ∨
    (∃ closeThrows, ev = .readError closeThrows ∧ (e.session.deliver []).armed = 0 ∧
      e' = handleReadError closeThrows (e.session.deliver [])) ∨
    (∃ closeThrows, ev = .writeError closeThrows ∧
      e' = if closeThrows then .caught e.session
        else .returned { e.session with bClose := true }.clearSession) := by
  obtain ⟨hdef, h⟩ := handle_session h
  have hlive : e.session.armed ≠ 0 → ∃ d, Reading e.session d := fun harmed =>
    (hr hdef).resolve_right harmed
  cases ev with
  | read xs =>
    have h' := h
    unfold Session.handle at h
    dsimp only at h
    split_ifs at h with hc
    obtain ⟨harmed, hrest⟩ := not_or.mp hc
    obtain ⟨hne, hle⟩ := not_or.mp hrest
    obtain ⟨d, hread⟩ := hlive harmed
    obtain ⟨e₁, he₁, htakes⟩ := handle_read hread hne (not_lt.mp hle)
    obtain rfl := Option.some.inj (he₁.symm.trans h')
    exact Or.inl ⟨xs, rfl, htakes⟩
  | readError closeThrows =>
    unfold Session.handle at h
    dsimp only at h
    split_ifs at h with hc
    obtain ⟨d, hread⟩ := hlive hc
    refine Or.inr (Or.inl ⟨closeThrows, rfl, ?_, (Option.some.inj h).symm⟩)
    show e.session.armed - 1 = 0
    rw [reading_armed hread]
  | writeError closeThrows =>
    exact Or.inr (Or.inr ⟨closeThrows, rfl, (Option.some.inj h).symm⟩)

/-- Closing the socket and clearing the session is no matter to the next read. -/
theorem reading_close {s : Session} {d : DecState} (h : Reading s d) :
    Reading { s with bClose := true }.clearSession d := by
  have hclose : ∀ {s₀ : Session}, Live s₀ d → Live { s₀ with bClose := true } d := fun hl =>
    ⟨hl.head, by cases d <;> exact hl.rel, hl.data, hl.armed, hl.cleared⟩
  obtain ⟨s₀, hl, ⟨rfl, -⟩ | ⟨rfl, -⟩⟩ := h
  · exact ⟨_, hclose hl, Or.inr ⟨rfl, rfl⟩⟩
  · exact ⟨_, hclose hl, Or.inr ⟨rfl, rfl⟩⟩

theorem Takes.settled_iff {s : Session} {xs : List UInt8} {e : Exit} (h : Takes s xs e) :
    Settled e ↔ if s.cleared then s.MeetsEnd xs else ¬ s.MeetsNegative xs := by
  obtain ⟨s₀, d, e₀, ps, hl, hleaves, ⟨rfl, hc, rfl⟩ | ⟨rfl, hc, rfl⟩⟩ := h
  · rw [hc]
    exact (leaves_settled_iff hl hleaves).1
  · rw [hc]
    exact (leaves_settled_iff hl hleaves).2

/-- What a read leaves: the session reads on, or no read is armed. -/
theorem Takes.ready {s : Session} {xs : List UInt8} {e : Exit} (h : Takes s xs e) :
    (∃ d, Reading e.session d) ∨ e.session.armed = 0 := by
  obtain ⟨s₀, d, e₀, ps, hl, hleaves, ⟨rfl, hc, rfl⟩ | ⟨rfl, hc, rfl⟩⟩ := h
  · by_cases hst : ∃ h', (feed DecState.step d xs).1 = .stopped h'
    · exact Or.inr (hleaves.dead hst)
    · obtain ⟨s', rfl, hl'⟩ := hleaves.live fun h' hd => hst ⟨h', hd⟩
      exact Or.inl ⟨_, reading_live hl'⟩
  · by_cases hst : ∃ h', (feed DecState.step d xs).1 = .stopped h'
    · refine Or.inr ?_
      have hdead := hleaves.dead hst
      cases e₀ <;> exact hdead
    · obtain ⟨s', rfl, hl'⟩ := hleaves.live fun h' hd => hst ⟨h', hd⟩
      exact Or.inl ⟨_, s', hl', Or.inr ⟨rfl, rfl⟩⟩

/-- Every completion leaves a session that is read on as a read needs it. -/
theorem handle_ready (e : Exit) (ev : Completion) (e' : Exit) (hr : Ready e)
    (h : e.handle ev = some e') : Ready e' := by
  intro hdef
  rcases handle_cases hr h with ⟨xs, rfl, htakes⟩ | ⟨closeThrows, rfl, hdead, rfl⟩ |
    ⟨closeThrows, rfl, rfl⟩
  · exact htakes.ready
  · cases closeThrows <;> exact Or.inr hdead
  · have hsame := hr (handle_session h).1
    cases closeThrows with
    | false => exact hsame.imp_left fun ⟨d, hread⟩ => ⟨d, reading_close hread⟩
    | true => exact hsame

theorem Settled.defined {e : Exit} (h : Settled e) (s : Session) : e ≠ .undefined s := by
  rintro rfl
  exact h

/-- What is settled and has no read armed is cleared. -/
theorem Settled.cleared {e : Exit} (h : Settled e) (hdead : e.session.armed = 0) :
    e.session.cleared = true := by
  have hjudge : ∀ s : Session, s.armed = 0 →
      (s.armed = 1 ∧ s.cleared = false) ∨ (s.armed = 0 ∧ s.cleared = true) →
      s.cleared = true := by
    rintro s hs (⟨h1, -⟩ | ⟨-, h2⟩)
    · omega
    · exact h2
  cases e with
  | undefined s => exact h.elim
  | returned s => exact hjudge s hdead h
  | caught s => exact hjudge s hdead h

/-- **A call of `HandleRead` is settled exactly when its completion is orderly.** -/
theorem handle_settled_iff (e : Exit) (ev : Completion) (e' : Exit) (hk : Kept e)
    (h : e.handle ev = some e') : (ev.OfRead → Settled e') ↔ Orderly e ev := by
  rcases handle_cases hk.ready h with ⟨xs, rfl, htakes⟩ | ⟨closeThrows, rfl, hdead, rfl⟩ |
    ⟨closeThrows, rfl, rfl⟩
  · exact (true_imp_iff.trans htakes.settled_iff)
  · refine true_imp_iff.trans ?_
    cases closeThrows with
    | false => exact iff_of_true (Or.inr ⟨hdead, rfl⟩) (Or.inl rfl)
    | true =>
      -- the exception leaves the session as it was, and no read is armed
      constructor
      · exact fun hs => Or.inr (hs.cleared hdead)
      · rintro (hc | hc)
        · cases hc
        · exact Or.inr ⟨hdead, hc⟩
  · exact iff_of_true (fun hread => hread.elim) trivial

/-- An orderly completion leaves a session that reads on or is cleared. -/
theorem handle_kept (e : Exit) (ev : Completion) (e' : Exit) (hk : Kept e) (ho : Orderly e ev)
    (h : e.handle ev = some e') : Kept e' := by
  have hsettled := (handle_settled_iff e ev e' hk h).mpr ho
  rcases handle_cases hk.ready h with ⟨xs, rfl, htakes⟩ | ⟨closeThrows, rfl, hdead, rfl⟩ |
    ⟨closeThrows, rfl, rfl⟩
  · have hs := hsettled trivial
    exact ⟨hs.defined, htakes.ready.imp_right fun hdead => ⟨hdead, hs.cleared hdead⟩⟩
  · have hs := hsettled trivial
    have hdead' : (handleReadError closeThrows (e.session.deliver [])).session.armed = 0 := by
      cases closeThrows <;> exact hdead
    exact ⟨hs.defined, Or.inr ⟨hdead', hs.cleared hdead'⟩⟩
  · cases closeThrows with
    | false =>
      refine ⟨fun _ he => (by cases he), ?_⟩
      rcases hk.state with ⟨d, hread⟩ | ⟨hdead, -⟩
      · exact Or.inl ⟨d, reading_close hread⟩
      · exact Or.inr ⟨hdead, rfl⟩
    | true => exact ⟨fun _ he => (by cases he), hk.state⟩

/-- **A call of `HandleRead` ends**: an armed read can complete with any bytes. -/
theorem handle_isSome {e : Exit} (hr : Ready e) (hdef : ∀ s, e ≠ .undefined s)
    (harmed : e.session.armed ≠ 0) {xs : List UInt8} (hne : xs ≠ [])
    (hle : xs.length ≤ maxLength) : (e.handle (.read xs)).isSome := by
  obtain ⟨d, hread⟩ := (hr hdef).resolve_right harmed
  obtain ⟨e', he', -⟩ := handle_read hread hne hle
  cases e with
  | undefined s => exact absurd rfl (hdef s)
  | returned s => exact Option.isSome_iff_exists.mpr ⟨e', he'⟩
  | caught s => exact Option.isSome_iff_exists.mpr ⟨e', he'⟩

/-- **When `HandleRead` never strands its session**: every call of a run is settled exactly when
every completion is orderly. Every call ends. -/
theorem handleRead_settled_iff {es : List Completion} {e : Exit}
    (h : run Exit.handle (.returned Session.fresh) es = some e) :
    ((∀ es₁ ev es₂ u v, es = es₁ ++ ev :: es₂ →
      run Exit.handle (.returned Session.fresh) es₁ = some u → u.handle ev = some v →
      ev.OfRead → Settled v) ↔ Meets Exit.handle Orderly (.returned Session.fresh) es) ∧
    ((∀ s, e ≠ .undefined s) → e.session.armed ≠ 0 → ∀ xs : List UInt8, xs ≠ [] →
      xs.length ≤ maxLength → (e.handle (.read xs)).isSome) := by
  constructor
  · exact meets_iff_step (W := fun _ ev v => ev.OfRead → Settled v) handle_kept handle_settled_iff
      kept_fresh h
  · intro hdef harmed xs hne hle
    exact handle_isSome (run_invariant handle_ready kept_fresh.ready h) hdef harmed hne hle

/-- A frame arrives, a write fails with the next read armed, and that read fails: the session is
cleared, and no read is armed. -/
theorem handleRead_settled_three : ∃ e,
    run Exit.handle (.returned Session.fresh)
      [.read [3, 233, 0, 1, 97], .writeError false, .readError false] = some e ∧ Settled e ∧
    ((∀ es₁ ev es₂ u v,
      [.read [3, 233, 0, 1, 97], .writeError false, .readError false] = es₁ ++ ev :: es₂ →
      run Exit.handle (.returned Session.fresh) es₁ = some u → u.handle ev = some v →
      ev.OfRead → Settled v) ↔
        Meets Exit.handle Orderly (.returned Session.fresh)
          [.read [3, 233, 0, 1, 97], .writeError false, .readError false]) ∧
    ((∀ s, e ≠ .undefined s) → e.session.armed ≠ 0 → ∀ xs : List UInt8, xs ≠ [] →
      xs.length ≤ maxLength → (e.handle (.read xs)).isSome) := by
  obtain ⟨e, he, hleaves⟩ :=
    @handleRead_refines _ _ [3, 233, 0, 1, 97] live_fresh (by decide) (by decide)
  obtain ⟨s, rfl, hl⟩ := hleaves.live fun _ hd => (by cases hd)
  have hread : Session.fresh.handle (.read [3, 233, 0, 1, 97]) = some (.returned s) :=
    (handle_armed rfl (by decide) (by decide)).trans he
  have harmed : s.armed = 1 := hl.armed
  have hrun : run Exit.handle (.returned Session.fresh)
      [.read [3, 233, 0, 1, 97], .writeError false, .readError false] = some
        (handleReadError false (Session.deliver { s with bClose := true }.clearSession [])) := by
    refine run_cons_eq_some.mpr ⟨_, hread, run_cons_eq_some.mpr ⟨_, rfl, ?_⟩⟩
    refine run_cons_eq_some.mpr ⟨_, if_neg ?_, rfl⟩
    show ¬ s.armed = 0
    omega
  refine ⟨_, hrun, Or.inr ⟨?_, rfl⟩, handleRead_settled_iff hrun⟩
  show s.armed - 1 = 0
  omega

/-- The header `(1001, -2)`: the allocation throws, and the session is neither read on nor
cleared. -/
theorem handleRead_stranded : ¬ ∀ (es : List Completion) (ev : Completion) (u v : Exit),
    run Exit.handle (.returned Session.fresh) es = some u → u.handle ev = some v → ev.OfRead →
      Settled v := by
  intro hall
  obtain ⟨e, he, hleaves⟩ :=
    @handleRead_refines _ _ [3, 233, 255, 254] live_fresh (by decide) (by decide)
  have hread : Session.fresh.handle (.read [3, 233, 255, 254]) = some e :=
    (handle_armed rfl (by decide) (by decide)).trans he
  have hset := (leaves_settled_iff live_fresh hleaves).1.mp
    (hall [] (.read [3, 233, 255, 254]) _ e rfl hread trivial)
  exact hset ⟨⟨1001, -2⟩, ⟨[], 3, 233, 255, 254, [], rfl, by decide⟩, by decide, by decide⟩

end AsioLearn.LogicServer
